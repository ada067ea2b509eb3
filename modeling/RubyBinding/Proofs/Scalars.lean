import Mathlib
import RubyBinding.Json.Token

/-!
# Strings and integers in JSON texts

A string is read back from its escaped form (`stringBody?_quoted`), whatever characters it holds: a
control character is escaped by name or by number, and no character that stands for itself ends a
string. A whole number of 64 bits is read back from its digits (`word?_toString`): its digits have
no needless zeros in front, all of them are kept, and it is far from the range that floats end at.
-/

namespace RubyBinding

namespace Text

/-! ## Digits -/

/-- The digits of a number write that number. -/
theorem digitsValue_toDigits (n : Nat) : digitsValue (Nat.toDigits 10 n) = n := by
  have h : Nat.ofDigitChars 10 (Nat.toDigits 10 n) 0 = n := Nat.ofDigitChars_ten_toDigits
  rw [Nat.ofDigitChars_eq_foldl] at h
  simp only [Nat.mul_comm 10] at h
  exact h

/-- Rounding a number at most doubles it. -/
theorem significant_le (digits : Nat) {n : Nat} (hd : 0 < digits) (hn : n ≠ 0) :
    significant digits n ≤ 2 * n := by
  have hunit : Nat.pow 2 (Nat.log2 n + 1 - digits) ≤ n :=
    Nat.le_trans (Nat.pow_le_pow_right (by decide) (by omega)) (Nat.log2_self_le hn)
  unfold significant
  dsimp only
  generalize Nat.pow 2 (Nat.log2 n + 1 - digits) = unit at hunit ⊢
  have hdiv : n / unit * unit ≤ n := Nat.div_mul_le_self n unit
  split
  · rw [Nat.add_mul]
    omega
  · omega

/-- A number of few digits is in range as it stands. -/
theorem isFinite_of_lt {n : Nat} (h : n < 10 ^ 30) : isFinite n 0 = true := by
  have hlength : (toString n).length ≤ 30 := by
    rw [Nat.toString_eq_ofList_toDigits, String.length_ofList]
    exact (Nat.length_toDigits_le_iff (by decide) (by decide)).mpr h
  unfold isFinite
  dsimp only
  rw [if_pos (.inr (by omega))]

end Text

namespace Json.Token

/-! ## Strings -/

/-- A backslash and a letter stand for one character. -/
theorem stringBody?_escape {c u : Char} (hu : unescape? c = some u) (hc : c ≠ 'u') (r : List Char) :
    stringBody? ('\\' :: c :: r) = (stringBody? r).map fun p => (u :: p.1, p.2) := by
  rw [stringBody?, hu]
  · cases stringBody? r <;> rfl
  · intro _ _ _ _ _ h
    exact absurd h hc

/-- A character below the surrogates may be written by its number. -/
theorem stringBody?_unit {a b c d : Char} {n : Nat} (hn : hexUnit? a b c d = some n)
    (hlt : n < 0x80) (r : List Char) :
    stringBody? ('\\' :: 'u' :: a :: b :: c :: d :: r) =
      (stringBody? r).map fun p => (Char.ofNat n :: p.1, p.2) := by
  have hlead : isLead n = false := by
    simp only [isLead, Bool.and_eq_false_iff, decide_eq_false_iff_not]
    omega
  have htrail : isTrail n = false := by
    simp only [isTrail, Bool.and_eq_false_iff, decide_eq_false_iff_not]
    omega
  rw [stringBody?, hn]
  simp only [Option.bind_eq_bind, Option.bind_some, hlead, htrail, Bool.false_eq_true, ↓reduceIte]
  cases stringBody? r <;> rfl

theorem stringBody?_plain {c : Char} (hquote : c ≠ '"') (hslash : c ≠ '\\') (hc : ¬ c.toNat < 0x20)
    (r : List Char) : stringBody? (c :: r) = (stringBody? r).map fun p => (c :: p.1, p.2) := by
  rw [stringBody?, if_neg (not_or.mpr ⟨hc, hslash⟩)]
  · cases stringBody? r <;> rfl
  · exact fun h => hquote h
  · exact fun _ _ _ _ _ h => absurd h hslash
  · exact fun _ _ h => absurd h hslash

theorem hexUnit?_control : ∀ n < 0x20,
    hexUnit? '0' '0' (hexDigit (n / 16)) (hexDigit (n % 16)) = some n := by decide

/-- Each character is read from what it is written as. -/
theorem stringBody?_escapeChar (c : Char) (r : List Char) :
    stringBody? (escapeChar c ++ r) = (stringBody? r).map fun p => (c :: p.1, p.2) := by
  have named : ∀ d : Char, unescape? d = some c → d ≠ 'u' →
      stringBody? (['\\', d] ++ r) = (stringBody? r).map fun p => (c :: p.1, p.2) :=
    fun d hd hne => stringBody?_escape hd hne r
  unfold escapeChar
  split
  · next h => exact named _ (by rw [h]; rfl) (by decide)
  split
  · next h => exact named _ (by rw [h]; rfl) (by decide)
  split
  · next h => exact named _ (by rw [h]; rfl) (by decide)
  split
  · next h => exact named _ (by rw [h]; rfl) (by decide)
  split
  · next h => exact named _ (by rw [h]; rfl) (by decide)
  split
  · next h => exact named _ (by rw [← Char.ofNat_toNat c, h]; rfl) (by decide)
  split
  · next h => exact named _ (by rw [← Char.ofNat_toNat c, h]; rfl) (by decide)
  split
  · next h =>
    have hunit := stringBody?_unit (hexUnit?_control c.toNat h) (by omega) r
    rwa [Char.ofNat_toNat] at hunit
  · next hquote hslash _ _ _ _ _ hc => exact stringBody?_plain hquote hslash hc r

/-- **A string is read as it is written.** -/
theorem stringBody?_quoted (cs r : List Char) :
    stringBody? (cs.flatMap escapeChar ++ '"' :: r) = some (cs, r) := by
  induction cs with
  | nil => rw [List.flatMap_nil, List.nil_append, stringBody?]
  | cons c cs ih =>
    rw [List.flatMap_cons, List.append_assoc, stringBody?_escapeChar, ih]
    rfl

/-! ## Integers -/

theorem isDigit_of_mem_toDigits {n : Nat} {c : Char} (h : c ∈ Nat.toDigits 10 n) :
    c.isDigit = true :=
  Nat.isDigit_of_mem_toDigits (by decide) (by decide) h

/-- A number that is written in digits begins with a zero only if there is nothing else. -/
theorem eq_zero_of_head?_toDigits (n : Nat) :
    (Nat.toDigits 10 n).head? = some '0' → n = 0 := by
  induction n using Nat.strongRecOn with
  | ind n ih =>
    rw [Nat.toDigits_eq_if (by decide)]
    split
    · next hn =>
      intro h
      simpa [Nat.digitChar_eq_zero] using h
    · next hn =>
      intro h
      rw [List.head?_append_of_ne_nil _ Nat.toDigits_ne_nil] at h
      have := ih (n / 10) (by omega) h
      omega

theorem le_foldl_digits (ds : List Char) (n : Nat) :
    n ≤ ds.foldl (fun n d => n * 10 + (d.toNat - 0x30)) n := by
  induction ds generalizing n with
  | nil => exact Nat.le_refl n
  | cons d ds ih =>
    refine Nat.le_trans ?_ (ih (n * 10 + (d.toNat - 0x30)))
    omega

theorem addWhole_cons (k : Kept) (d : Char) (ds : List Char) :
    k.addWhole (d :: ds) =
      match k.grow? d with
      | some n => Kept.addWhole { k with significand := n } ds
      | none => { k with exponent := k.exponent + (d :: ds).length } :=
  (rfl)

/-- All digits of a number are kept if 64 bits hold it. -/
theorem addWhole_of_lt (k : Kept) (ds : List Char)
    (h : ds.foldl (fun n d => n * 10 + (d.toNat - 0x30)) k.significand < 2 ^ 64) :
    k.addWhole ds =
      { k with significand := ds.foldl (fun n d => n * 10 + (d.toNat - 0x30)) k.significand } := by
  induction ds generalizing k with
  | nil => rfl
  | cons d ds ih =>
    rw [List.foldl_cons] at h ⊢
    generalize hn : k.significand * 10 + (d.toNat - 0x30) = n at h ⊢
    have hlt : n < 2 ^ 64 := Nat.lt_of_le_of_lt (le_foldl_digits ds n) h
    have hgrow : k.grow? d = some n := by rw [Kept.grow?, Nat.pow_eq, hn, if_pos hlt]
    rw [addWhole_cons, hgrow]
    exact ih ⟨n, k.exponent⟩ h

/-- A whole number of 64 bits lies in the range of floats. -/
theorem inRange_of_lt {isNegative : Bool} {n : Nat} (h : n < 2 ^ 64) :
    Parts.inRange ⟨isNegative, Nat.toDigits 10 n, [], false, []⟩ = true := by
  have hvalue : (Nat.toDigits 10 n).foldl (fun n d => n * 10 + (d.toNat - 0x30)) 0 = n :=
    Text.digitsValue_toDigits n
  have hkept : (Kept.addWhole {} (Nat.toDigits 10 n)).addFraction [] = ⟨n, 0⟩ := by
    have hlt := h
    rw [← hvalue] at hlt
    rw [addWhole_of_lt {} _ hlt, hvalue]
    rfl
  unfold Parts.inRange
  simp only [hkept]
  by_cases hn : n = 0
  · simp [hn]
  · have hone : Text.significant 53 (Nat.pow 10 0) = 1 := by decide
    have hle := Text.significant_le 53 (by decide) hn
    have hfinite : Text.isFinite (Text.significant 53 n * Text.significant 53 (Nat.pow 10 0)) 0 =
        true := by
      rw [hone]
      exact Text.isFinite_of_lt (by omega)
    simpa [Text.digitsValue, hn] using hfinite

/-- Only zero is written with a zero in front. -/
theorem toDigits_eq_of_head {n : Nat} {cs : List Char} (h : Nat.toDigits 10 n = '0' :: cs) :
    cs = [] := by
  have hn : n = 0 := eq_zero_of_head?_toDigits n (by rw [h]; rfl)
  rw [hn, Nat.toDigits_zero] at h
  exact (List.cons.inj h).2.symm

/-- Digits without needless zeros in front are a whole number, and so they are behind a sign. -/
theorem parts?_digits {ds : List Char} (hne : ds ≠ []) (hdigits : ∀ c ∈ ds, c.isDigit = true)
    (hzero : ∀ cs, ds = '0' :: cs → cs = []) :
    parts? ds = some ⟨false, ds, [], false, []⟩ ∧
      parts? ('-' :: ds) = some ⟨true, ds, [], false, []⟩ := by
  have htake : ds.takeWhile Char.isDigit = ds := List.takeWhile_eq_self_iff.mpr hdigits
  have hdrop : ds.dropWhile Char.isDigit = [] := List.dropWhile_eq_nil_iff.mpr hdigits
  have hsign : ∀ r, ds ≠ '-' :: r := by
    rintro r rfl
    exact absurd (hdigits '-' List.mem_cons_self) (by decide)
  unfold parts?
  simp only [htake, hdrop]
  -- What is split is the check for needless zeros.
  constructor <;> split
  · exact absurd rfl hne
  · next r =>
    rw [hzero r rfl]
    rfl
  · rfl
  · exact absurd rfl hne
  · next r =>
    rw [hzero r rfl]
    rfl
  · rfl

theorem parts?_toDigits (n : Nat) :
    parts? (Nat.toDigits 10 n) = some ⟨false, Nat.toDigits 10 n, [], false, []⟩ ∧
      parts? ('-' :: Nat.toDigits 10 n) = some ⟨true, Nat.toDigits 10 n, [], false, []⟩ :=
  parts?_digits Nat.toDigits_ne_nil (fun _ => isDigit_of_mem_toDigits) fun _ => toDigits_eq_of_head

theorem not_mem_toDigits {c : Char} (hc : c.isDigit = false) (n : Nat) :
    c ∉ Nat.toDigits 10 n := by
  intro h
  rw [isDigit_of_mem_toDigits h] at hc
  cases hc

theorem number?_toDigits {n : Nat} (h : n < 2 ^ 64) :
    number? (Nat.toDigits 10 n) = some (.integer n) := by
  have hpoint : ¬ ('.' ∈ Nat.toDigits 10 n ∨ 'e' ∈ Nat.toDigits 10 n ∨
      'E' ∈ Nat.toDigits 10 n) := by
    simp [not_mem_toDigits]
  rw [number?, (parts?_toDigits n).1]
  simp only [Option.bind_eq_bind, Option.bind_some, inRange_of_lt h, Bool.not_true,
    Bool.false_eq_true, ↓reduceIte, if_neg hpoint, Text.digitsValue_toDigits, Nat.pow_eq, if_pos h]
  rfl

theorem number?_negative {n : Nat} (hpos : 0 < n) (h : n ≤ 2 ^ 63) :
    number? ('-' :: Nat.toDigits 10 n) = some (.integer (-n)) := by
  have hpoint : ¬ ('.' ∈ '-' :: Nat.toDigits 10 n ∨ 'e' ∈ '-' :: Nat.toDigits 10 n ∨
      'E' ∈ '-' :: Nat.toDigits 10 n) := by
    simp [not_mem_toDigits]
  have hrange : Parts.inRange ⟨true, Nat.toDigits 10 n, [], false, []⟩ = true :=
    inRange_of_lt (by omega)
  rw [number?, (parts?_toDigits n).2]
  simp only [Option.bind_eq_bind, Option.bind_some, hrange, Bool.not_true, Bool.false_eq_true,
    ↓reduceIte, if_neg hpoint, Text.digitsValue_toDigits, Nat.pow_eq, if_pos (And.intro hpos h)]
  rfl

/-- A word that begins with a digit or a sign is no literal. -/
theorem word?_eq_number? {c : Char} {w : List Char} (hc : c.isDigit = true ∨ c = '-') :
    word? (c :: w) = number? (c :: w) := by
  have hne : ∀ d : Char, d.isDigit = false → d ≠ '-' → c ≠ d := by
    rintro d hd hsign rfl
    rcases hc with hc | hc
    · rw [hd] at hc
      cases hc
    · exact hsign hc
  have hn : c ≠ 'n' := hne 'n' (by decide) (by decide)
  have ht : c ≠ 't' := hne 't' (by decide) (by decide)
  have hf : c ≠ 'f' := hne 'f' (by decide) (by decide)
  simp [word?, hn, ht, hf]

theorem toList_toString (n : Int) :
    (toString n).toList =
      if 0 ≤ n then Nat.toDigits 10 n.toNat else '-' :: Nat.toDigits 10 (-n).toNat := by
  show n.repr.toList = _
  rw [Int.repr_eq_if]
  split
  · rw [Nat.repr_eq_ofList_toDigits, String.toList_ofList]
  · rw [String.toList_append, Nat.repr_eq_ofList_toDigits, String.toList_ofList,
      String.toList_ofList]
    rfl

/-- **A 64-bit integer is read as it is written.** -/
theorem word?_toString {n : Int} (hlow : -2 ^ 63 ≤ n) (hhigh : n < 2 ^ 64) :
    word? (toString n).toList = some (.integer n) := by
  rw [toList_toString]
  split
  · next hn =>
    have hnumber := number?_toDigits (n := n.toNat) (by omega)
    rw [Int.toNat_of_nonneg hn] at hnumber
    rcases hds : Nat.toDigits 10 n.toNat with _ | ⟨d, ds⟩
    · exact absurd hds Nat.toDigits_ne_nil
    · rw [word?_eq_number?, ← hds, hnumber]
      exact .inl (isDigit_of_mem_toDigits (hds ▸ List.mem_cons_self))
  · next hn =>
    rw [word?_eq_number? (.inr rfl), number?_negative (by omega) (by omega)]
    congr 2
    omega

/-- An integer is written as one word. -/
theorem isWordChar_of_mem_toString {n : Int} {c : Char} (h : c ∈ (toString n).toList) :
    isWordChar c = true := by
  have hdigit : ∀ {m : Nat}, c ∈ Nat.toDigits 10 m → isWordChar c = true := by
    intro m hc
    simp [isWordChar, Char.isAlphanum, isDigit_of_mem_toDigits hc]
  rw [toList_toString] at h
  split at h
  · exact hdigit h
  · rcases List.mem_cons.mp h with rfl | h
    · rfl
    · exact hdigit h

end Json.Token

end RubyBinding
