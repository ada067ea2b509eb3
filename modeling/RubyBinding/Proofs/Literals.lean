import Mathlib
import RubyBinding.Header.Integer
import RubyBinding.Proofs.Paths

/-!
# Integer literals

`integer?` against the value that an integer literal has. Decimal and hexadecimal literals are read
right wherever their magnitude has 64 bits as a signed number and no separator stands in them. An
octal one is read in base ten, so that only those of one digit that counts are read right
(`Literal.read_eq_value_iff`). What stands behind a minus sign is read first and then negated: the
least integer is not read as a literal, and where it is read in spite of that, behind `0x`, it is
negated (`Overflows`).
-/

namespace RubyBinding.Header

/-! ## Literals -/

/-- The digits of base sixteen, in either case. -/
def lowerDigits : List Char := "0123456789abcdef".toList

def upperDigits : List Char := "0123456789ABCDEF".toList

/-- The value of a digit: its place among all digits. Other characters are beyond them. -/
def digitOf (c : Char) : Nat := min (lowerDigits.idxOf c) (upperDigits.idxOf c)

/-- The mark between digits that separates them for the eye. -/
def separator : Char := '\''

/-- The number that digits write in a base, whatever separators stand between them. -/
def numberOf (base : Nat) (cs : List Char) : Nat :=
  Nat.ofDigits base ((cs.filter (· ≠ separator)).reverse.map digitOf)

inductive Radix where
  | octal
  | decimal
  | hexadecimal (isUpper : Bool)
  deriving DecidableEq

namespace Radix

def base : Radix → Nat
  | octal => 8
  | decimal => 10
  | hexadecimal _ => 16

/-- What stands in front of the digits. The `0` of an octal literal is one of its digits. -/
def lead : Radix → List Char
  | hexadecimal isUpper => ['0', if isUpper then 'X' else 'x']
  | _ => []

/-- The base that the digits are read in. -/
def readBase : Radix → Nat
  | octal => 10
  | r => r.base

end Radix

/-- An integer literal with an optional minus sign. -/
structure Literal where
  isNegative : Bool
  radix : Radix
  digits : List Char
  marks : List Char
  /-- Digits stand at both ends, digits and separators in between. -/
  first : ∃ c ∈ digits.head?, digitOf c < radix.base
  last : ∃ c ∈ digits.getLast?, digitOf c < radix.base
  inner : ∀ c ∈ digits, c ≠ separator → digitOf c < radix.base
  /-- A literal with a zero in front is octal, and no other is. -/
  leading : radix.lead = [] → (digits.head? = some '0' ↔ radix = .octal)
  marks_suffix : ∀ c ∈ marks, isSuffix c

namespace Literal

variable (l : Literal)

def sign : List Char := if l.isNegative then ['-'] else []

def body : List Char := l.radix.lead ++ l.digits

/-- A literal as it is written. -/
def text : List Char := l.sign ++ l.body ++ l.marks

def magnitude : Nat := numberOf l.radix.base l.digits

def value : Int := if l.isNegative then -(l.magnitude : Int) else l.magnitude

/-- The magnitude that the digits have in the base they are read in. -/
def reading : Nat := numberOf l.radix.readBase l.digits

end Literal

/-! ## Digits -/

section

variable {base n : Nat} {c : Char} {cs : List Char}

theorem mem_of_digitOf_lt (h : digitOf c < 16) : c ∈ lowerDigits ++ upperDigits := by
  rcases min_lt_iff.mp h with h | h
  · exact List.mem_append_left _ (List.idxOf_lt_length_iff.mp h)
  · exact List.mem_append_right _ (List.idxOf_lt_length_iff.mp h)

theorem digitValue?_eq (hbase : base = 10 ∨ base = 16) (h : digitOf c < base) :
    digitValue? base c = some (digitOf c) := by
  have hmem : c ∈ lowerDigits ++ upperDigits := mem_of_digitOf_lt (by omega)
  have hall : ∀ c ∈ lowerDigits ++ upperDigits,
      (digitOf c < 10 → digitValue? 10 c = some (digitOf c)) ∧
        digitValue? 16 c = some (digitOf c) := List.all_iff_forall_prop.mp (by decide)
  rcases hbase with rfl | rfl
  · exact (hall c hmem).1 h
  · exact (hall c hmem).2

/-- A digit is neither a blank, nor a sign, nor a suffix. -/
theorem of_digitOf_lt (h : digitOf c < 16) :
    Text.isBlank c = false ∧ isSuffix c = false ∧ c ≠ '-' ∧ c ≠ '+' ∧ c ≠ 'x' ∧ c ≠ 'X' := by
  have hall : ∀ c ∈ lowerDigits ++ upperDigits, Text.isBlank c = false ∧ isSuffix c = false ∧
      c ≠ '-' ∧ c ≠ '+' ∧ c ≠ 'x' ∧ c ≠ 'X' := List.all_iff_forall_prop.mp (by decide)
  exact hall c (mem_of_digitOf_lt h)

theorem natural?_eq (hbase : base = 10 ∨ base = 16) (h : ∀ c ∈ cs, digitOf c < base) :
    natural? base n cs = some (cs.foldl (fun n c => n * base + digitOf c) n) := by
  induction cs generalizing n with
  | nil => rfl
  | cons c cs ih =>
    rw [natural?, digitValue?_eq hbase (h c List.mem_cons_self)]
    exact ih fun d hd => h d (List.mem_cons_of_mem _ hd)

theorem digitValue?_separator (base : Nat) : digitValue? base separator = none :=
  if_neg (Nat.lt_irrefl base)

theorem natural?_eq_none (h : separator ∈ cs) : natural? base n cs = none := by
  fun_induction natural? base n cs with
  | case1 => cases h
  | case2 n c cs d hd ih =>
    rcases List.mem_cons.mp h with rfl | h
    · rw [digitValue?_separator] at hd
      cases hd
    · exact ih h
  | case3 => rfl

theorem numberOf_eq_foldl (h : separator ∉ cs) :
    numberOf base cs = cs.foldl (fun n c => n * base + digitOf c) 0 := by
  have hfilter : cs.filter (· ≠ separator) = cs :=
    List.filter_eq_self.mpr fun c hc => by simpa using ne_of_mem_of_not_mem hc h
  rw [numberOf, hfilter, Nat.ofDigits_eq_foldr, List.foldr_map, List.foldr_reverse]
  congr
  funext n c
  rw [Nat.mul_comm, Nat.add_comm]
  rfl

theorem digits?_eq (hbase : base = 10 ∨ base = 16) (hne : cs ≠ [])
    (h : ∀ c ∈ cs, c ≠ separator → digitOf c < base) :
    digits? base cs = if separator ∈ cs then none else some (numberOf base cs) := by
  obtain ⟨c, r, rfl⟩ := List.exists_cons_of_ne_nil hne
  rw [digits?]
  split
  next hsep => exact natural?_eq_none hsep
  next hsep =>
    rw [numberOf_eq_foldl hsep]
    exact natural?_eq hbase fun d hd => h d hd fun heq => hsep (heq ▸ hd)

theorem ofDigits_eq_zero {ds : List Nat} (h : Nat.ofDigits 8 ds = 0) :
    Nat.ofDigits 10 ds = 0 := by
  induction ds with
  | nil => rfl
  | cons d ds ih =>
    rw [Nat.ofDigits_cons] at h ⊢
    rw [ih (by omega)]
    omega

/-- Digits of base eight write more in base ten, unless all but the last are zeros. -/
theorem ofDigits_eq_iff {ds : List Nat} (h : ∀ d ∈ ds, d < 8) :
    Nat.ofDigits 10 ds = Nat.ofDigits 8 ds ↔ Nat.ofDigits 8 ds < 8 := by
  cases ds with
  | nil => simp
  | cons d ds =>
    have hd : d < 8 := h d List.mem_cons_self
    have hle : Nat.ofDigits 8 ds ≤ Nat.ofDigits 10 ds := Nat.ofDigits_monotone ds (by decide)
    have hzero : Nat.ofDigits 8 ds = 0 → Nat.ofDigits 10 ds = 0 := ofDigits_eq_zero
    rw [Nat.ofDigits_cons, Nat.ofDigits_cons]
    omega

end

/-! ## One turn of the reading -/

section

variable {base : Nat} {text rest front marks cs : List Char} {c : Char}

/-- Suffixes behind a text that has no blanks and does not end in a suffix are taken off. -/
theorem bare_append (hlast : ∀ c ∈ front.getLast?, isSuffix c = false)
    (hmarks : ∀ c ∈ marks, isSuffix c) (hblank : ∀ c ∈ front ++ marks, Text.isBlank c = false) :
    bare (front ++ marks) = front := by
  have htrim : Text.trim (front ++ marks) = front ++ marks :=
    Text.trim_eq_self_iff.mpr
      ⟨fun h => hblank _ (List.head_mem h), fun h => hblank _ (List.getLast_mem h)⟩
  have hstop : front.rdropWhile isSuffix = front :=
    List.rdropWhile_eq_self_iff.mpr fun h => by simpa using hlast _ (List.getLast_mem_getLast? h)
  calc bare (front ++ marks)
      = ((marks.reverse ++ front.reverse).dropWhile isSuffix).reverse := by
        rw [bare, htrim, Text.dropEndWhile, List.reverse_append]
    _ = front.rdropWhile isSuffix := by
        rw [List.dropWhile_append_of_pos fun c hc => hmarks c (List.mem_reverse.mp hc)]
        rfl
    _ = front := hstop

theorem integer?_hex (h : bare text = '0' :: c :: rest) (hc : c = 'x' ∨ c = 'X') :
    integer? text = signed? 16 rest := by
  rw [integer?]
  rcases hc with rfl | rfl
  · split <;> simp_all
  · split <;> simp_all

theorem integer?_minus (h : bare text = '-' :: rest) :
    integer? text = (integer? rest).map negative := by
  rw [integer?]
  split <;> simp_all

/-- What begins with a digit and has no `x` is read in base ten. -/
theorem integer?_digits (hhead : ∃ c ∈ (bare text).head?, digitOf c < 16)
    (hx : ∀ c ∈ bare text, c ≠ 'x' ∧ c ≠ 'X') : integer? text = signed? 10 (bare text) := by
  rw [integer?]
  split
  next h => exact absurd rfl (hx 'x' (by simp [h])).1
  next h => exact absurd rfl (hx 'X' (by simp [h])).2
  next h =>
    obtain ⟨c, hc, hdigit⟩ := hhead
    rw [h] at hc
    cases hc
    exact absurd rfl (of_digitOf_lt hdigit).2.2.1
  next => rfl

/-- Digits without a sign in front are a number below the bound, or none. -/
theorem signed?_eq (hbase : base = 10 ∨ base = 16) (hhead : ∃ c ∈ cs.head?, digitOf c < 16)
    (h : ∀ c ∈ cs, c ≠ separator → digitOf c < base) :
    signed? base cs = if separator ∉ cs ∧ numberOf base cs < Nat.pow 2 63
      then some (numberOf base cs : Int) else none := by
  obtain ⟨c, hc, hdigit⟩ := hhead
  obtain ⟨r, rfl⟩ := List.head?_eq_some_iff.mp hc
  have hsign := (of_digitOf_lt hdigit).2.2
  have hpow : Int.pow 2 63 = (Nat.pow 2 63 : Nat) := rfl
  unfold signed?
  split
  next h => exact absurd (List.cons.inj h).1 hsign.1
  next h => exact absurd (List.cons.inj h).1 hsign.2.1
  next =>
    rw [digits?_eq hbase (List.cons_ne_nil c r) h]
    by_cases hsep : separator ∈ c :: r
    · rw [if_pos hsep, if_neg fun h => h.1 hsep]
      rfl
    · rw [if_neg hsep, Option.map_some, Option.filter_some, hpow]
      simp only [hsep, not_false_eq_true, true_and]
      congr 1
      simp only [decide_eq_true_eq, eq_iff_iff, Int.ofNat_eq_natCast]
      omega

end

/-! ## Reading a literal -/

namespace Literal

variable (l : Literal)

theorem base_le : l.radix.base ≤ 16 := by
  cases l.radix with
  | octal => decide
  | decimal => decide
  | hexadecimal => exact Nat.le_refl 16

theorem head_body : ∃ c ∈ l.body.head?, digitOf c < 16 := by
  obtain ⟨c, hc, hdigit⟩ := l.first
  rw [body]
  cases hradix : l.radix with
  | hexadecimal isUpper => exact ⟨'0', rfl, by decide⟩
  | octal => exact ⟨c, hc, hdigit.trans_le l.base_le⟩
  | decimal => exact ⟨c, hc, hdigit.trans_le l.base_le⟩

theorem getLast?_body : ∃ c ∈ l.body.getLast?, digitOf c < 16 := by
  obtain ⟨c, hc, hdigit⟩ := l.last
  exact ⟨c, List.mem_getLast?_append_of_mem_getLast? hc, hdigit.trans_le l.base_le⟩

theorem isBlank_of_mem_body {c : Char} (hc : c ∈ l.body) : Text.isBlank c = false := by
  rcases List.mem_append.mp hc with hc | hc
  · have hall : ∀ r : Bool, ∀ c ∈ ['0', if r then 'X' else 'x'], Text.isBlank c = false :=
      fun r => List.all_iff_forall_prop.mp (by cases r <;> decide)
    cases hradix : l.radix with
    | hexadecimal isUpper => exact hall isUpper c (by rwa [hradix] at hc)
    | octal => rw [hradix] at hc; cases hc
    | decimal => rw [hradix] at hc; cases hc
  · by_cases hsep : c = separator
    · rw [hsep]
      rfl
    · exact (of_digitOf_lt ((l.inner c hc hsep).trans_le l.base_le)).1

theorem bare_body {marks sign : List Char} (hmarks : ∀ c ∈ marks, isSuffix c)
    (hsign : sign ⊆ ['-']) : bare (sign ++ l.body ++ marks) = sign ++ l.body := by
  obtain ⟨c, hc, hdigit⟩ := l.getLast?_body
  refine bare_append ?_ hmarks ?_
  · intro d hd
    rw [List.getLast?_append, Option.mem_def.mp hc, Option.some_or] at hd
    cases hd
    exact (of_digitOf_lt hdigit).2.1
  · have hall : ∀ c, isSuffix c → Text.isBlank c = false := by
      intro c hc
      simp only [isSuffix, Bool.or_eq_true, beq_iff_eq] at hc
      rcases hc with ((rfl | rfl) | rfl) | rfl <;> rfl
    intro d hd
    rcases List.mem_append.mp hd with hd | hd
    · rcases List.mem_append.mp hd with hd | hd
      · rw [List.mem_singleton.mp (hsign hd)]
        rfl
      · exact l.isBlank_of_mem_body hd
    · exact hall d (hmarks d hd)

/-- A literal is read as its digits say in the base they are read in, if they are without separators
and the number is not too great. -/
theorem integer?_of_bare {text : List Char} (h : bare text = l.body) :
    integer? text = if separator ∉ l.digits ∧ l.reading < Nat.pow 2 63
      then some (l.reading : Int) else none := by
  obtain ⟨c, hc, hdigit⟩ := l.first
  have hhead : ∃ c ∈ l.digits.head?, digitOf c < 16 := ⟨c, hc, hdigit.trans_le l.base_le⟩
  have hinner := l.inner
  rw [body] at h
  rw [reading]
  cases hradix : l.radix with
  | hexadecimal isUpper =>
    rw [hradix] at h hinner
    rw [integer?_hex h (by cases isUpper <;> simp)]
    exact signed?_eq (.inr rfl) hhead hinner
  | _ =>
    rw [hradix] at h hinner
    have hten : ∀ c ∈ l.digits, c ≠ separator → digitOf c < 10 := fun c hc hsep =>
      (hinner c hc hsep).trans_le (by decide)
    have hx : ∀ c ∈ l.digits, c ≠ 'x' ∧ c ≠ 'X' := fun c hc => by
      by_cases hsep : c = separator
      · rw [hsep]
        decide
      · exact (of_digitOf_lt ((hten c hc hsep).trans (by decide))).2.2.2.2
    have hbare : bare text = l.digits := h
    rw [integer?_digits (by rwa [hbare]) (by rwa [hbare]), hbare]
    exact signed?_eq (.inl rfl) hhead hten

/-- A number with the sign of a literal. -/
def signed (n : Nat) : Int := if l.isNegative then -(n : Int) else n

theorem bare_text : bare l.text = l.sign ++ l.body := by
  refine l.bare_body l.marks_suffix ?_
  rw [sign]
  split
  · exact List.Subset.refl _
  · exact List.nil_subset _

theorem bare_body_self : bare l.body = l.body := by
  have hmarks : ∀ c ∈ ([] : List Char), isSuffix c := nofun
  simpa using l.bare_body hmarks (List.nil_subset _)

theorem integer?_text : integer? l.text = if separator ∉ l.digits ∧ l.reading < Nat.pow 2 63
    then some (l.signed l.reading) else none := by
  have hbare : bare l.text = l.sign ++ l.body := l.bare_text
  rw [sign] at hbare
  rw [signed]
  split at hbare
  next hsign =>
    rw [List.singleton_append] at hbare
    rw [integer?_minus hbare, l.integer?_of_bare l.bare_body_self, if_pos hsign]
    have hpow : Int.pow 2 63 = (Nat.pow 2 63 : Nat) := rfl
    split
    next h =>
      have hne : (l.reading : Int) ≠ -Int.pow 2 63 := by omega
      rw [Option.map_some, negative, if_neg hne]
    next => rfl
  next hsign => rw [l.integer?_of_bare hbare, if_neg hsign]

/-- In octal, base ten comes to the same only for one digit behind zeros. -/
theorem reading_eq_magnitude_iff :
    l.reading = l.magnitude ↔ (l.radix = .octal → l.magnitude < 8) := by
  have hinner := l.inner
  rw [reading, magnitude]
  cases hradix : l.radix with
  | octal =>
    rw [hradix] at hinner
    rw [imp_iff_right rfl]
    refine ofDigits_eq_iff fun d hd => ?_
    obtain ⟨c, hc, rfl⟩ := List.mem_map.mp hd
    obtain ⟨hmem, hsep⟩ := List.mem_filter.mp (List.mem_reverse.mp hc)
    exact hinner c hmem (by simpa using hsep)
  | _ => exact iff_of_true rfl nofun

theorem signed_inj {m n : Nat} : l.signed m = l.signed n ↔ m = n := by
  rw [signed, signed]
  split <;> omega

end Literal

/-! ## Numbers beyond the bound -/

section

variable {base : Nat} {text inner cs : List Char} {n : Int}

/-- The least integer of 64 bits. -/
def least : Int := -Int.pow 2 63

def InRange (n : Int) : Prop := least ≤ n ∧ n < Int.pow 2 63

theorem inRange_signed? (h : signed? base cs = some n) : InRange n := by
  simpa [InRange, least] using (Option.filter_eq_some_iff.mp h).2

theorem InRange.negative (h : InRange n) : InRange (negative n) := by
  rw [Header.negative]
  split
  · exact h
  · rw [InRange, least] at h ⊢
    omega

/-- The least integer alone has itself as its negative. -/
theorem InRange.negative_eq_least_iff (h : InRange n) : Header.negative n = least ↔ n = least := by
  rw [InRange, least] at h
  rw [Header.negative, least]
  split
  next => rfl
  next hne =>
    constructor <;> intro <;> omega

theorem inRange_integer? (h : integer? text = some n) : InRange n := by
  fun_induction integer? text generalizing n with
  | case1 => exact inRange_signed? h
  | case2 => exact inRange_signed? h
  | case3 text rest hbare ih =>
    obtain ⟨m, hm, rfl⟩ := Option.map_eq_some_iff.mp h
    exact (ih hm).negative
  | case4 => exact inRange_signed? h

/-- The reading of a text negates that of another, which stands behind a minus sign. -/
def Negates (text inner : List Char) : Prop := bare text = '-' :: inner

/-- Somewhere in the reading of a text the least integer is to be negated, which has no negative. -/
def Overflows (text : List Char) : Prop :=
  ∃ inner, Relation.TransGen Negates text inner ∧ integer? inner = some least

/-- Only digits with a sign in front are read as the least integer. -/
theorem signed?_eq_least_iff :
    signed? base cs = some least ↔ ∃ r, cs = '-' :: r ∧ digits? base r = some (Nat.pow 2 63) := by
  have hpow : least = -((Nat.pow 2 63 : Nat) : Int) := rfl
  have hnonneg : ∀ m : Nat, Int.ofNat m ≠ least := fun m => by
    have hpos : 0 < Nat.pow 2 63 := by decide
    rw [hpow, Int.ofNat_eq_natCast]
    omega
  unfold signed?
  rw [Option.filter_eq_some_iff]
  split
  next r =>
    have hmap : ∀ o : Option Nat, o.map (fun n : Nat => -(n : Int)) = some least ↔
        o = some (Nat.pow 2 63) := fun o => by
      rw [Option.map_eq_some_iff, hpow]
      simp only [neg_inj, Nat.cast_inj, exists_eq_right]
    rw [hmap]
    simp only [List.cons.injEq, true_and, exists_eq_left', and_iff_left_iff_imp]
    exact fun _ => by decide
  next r =>
    simp only [Option.map_eq_some_iff, hnonneg, and_false, exists_false, false_and]
    simp
  next hminus _ =>
    simp only [Option.map_eq_some_iff, hnonneg, and_false, exists_false, false_and, false_iff]
    rintro ⟨r, rfl, -⟩
    exact hminus r rfl

/-- A text that is read as the least integer in the wrong way: with the sign behind the `0x`. -/
def HidesSign (text : List Char) : Prop :=
  ∃ x r, bare text = '0' :: x :: '-' :: r ∧ (x = 'x' ∨ x = 'X') ∧
    digits? 16 r = some (Nat.pow 2 63)

theorem integer?_of_hidesSign (h : HidesSign text) : integer? text = some least := by
  obtain ⟨x, r, hbare, hx, hr⟩ := h
  rw [integer?_hex hbare hx]
  exact signed?_eq_least_iff.mpr ⟨r, rfl, hr⟩

/-- What is read as the least integer has its sign hidden, or has it from what it negates. -/
theorem hidesSign_or_of_least (h : integer? text = some least) :
    HidesSign text ∨ ∃ inner, Negates text inner ∧ integer? inner = some least := by
  rw [integer?] at h
  split at h
  next digits hbare =>
    obtain ⟨r, rfl, hr⟩ := signed?_eq_least_iff.mp h
    exact .inl ⟨'x', r, hbare, .inl rfl, hr⟩
  next digits hbare =>
    obtain ⟨r, rfl, hr⟩ := signed?_eq_least_iff.mp h
    exact .inl ⟨'X', r, hbare, .inr rfl, hr⟩
  next inner hbare =>
    obtain ⟨n, hn, hnegative⟩ := Option.map_eq_some_iff.mp h
    rw [(inRange_integer? hn).negative_eq_least_iff] at hnegative
    exact .inr ⟨inner, hbare, hnegative ▸ hn⟩
  next hminus =>
    obtain ⟨r, hr, -⟩ := signed?_eq_least_iff.mp h
    exact absurd hr (hminus r)

/-- A negation goes too far only over a sign that stands behind `0x`. -/
theorem overflows_iff :
    Overflows text ↔ ∃ inner, Relation.TransGen Negates text inner ∧ HidesSign inner := by
  constructor
  · rintro ⟨inner, hpath, hleast⟩
    -- Each further sign makes the text shorter, so that one without a sign is reached.
    induction hlength : inner.length using Nat.strong_induction_on generalizing inner with
    | _ k ih =>
      rcases hidesSign_or_of_least hleast with hhides | ⟨rest, hrest, hleast'⟩
      · exact ⟨inner, hpath, hhides⟩
      · have hle : (bare inner).length ≤ inner.length := length_bare_le inner
        rw [show bare inner = '-' :: rest from hrest, List.length_cons] at hle
        exact ih rest.length (by omega) rest (hpath.tail hrest) hleast' rfl
  · rintro ⟨inner, hpath, hhides⟩
    exact ⟨inner, hpath, integer?_of_hidesSign hhides⟩

end

namespace Literal

/-- No sign in a literal stands behind another or behind `0x`. -/
theorem not_overflows (l : Literal) : ¬ Overflows l.text := by
  have hbody : ∀ rest, l.body ≠ '-' :: rest := by
    obtain ⟨c, hc, hdigit⟩ := l.head_body
    intro rest h
    rw [h] at hc
    cases hc
    exact (of_digitOf_lt hdigit).2.2.1 rfl
  have hbare : bare l.body = l.body := l.bare_body_self
  rintro ⟨inner, hpath, hleast⟩
  obtain ⟨next, hnext, hpath⟩ := Relation.TransGen.head'_iff.mp hpath
  have hnext : l.sign ++ l.body = '-' :: next := l.bare_text ▸ hnext
  rw [sign] at hnext
  split at hnext
  · obtain rfl : l.body = next := (List.cons.inj hnext).2
    rcases hpath.cases_head with rfl | ⟨further, hfurther, -⟩
    · rw [l.integer?_of_bare hbare] at hleast
      split at hleast
      · have hpow : least = -((Nat.pow 2 63 : Nat) : Int) := rfl
        have := Option.some.inj hleast
        omega
      · cases hleast
    · exact hbody further (hbare ▸ hfurther)
  · exact hbody next hnext

/-- **Literals against their values.** A literal is read as its value exactly if its magnitude is
below the bound, no separator stands in it and, in octal, only one digit of it counts. Other than in
octal whatever is read is the value. On any text whatever is read has 64 bits, and the reading
negates the least integer only where a sign stands behind `0x`, as in no literal. -/
theorem read_eq_value_iff (l : Literal) (text : List Char) :
    (integer? l.text = some l.value ↔ l.magnitude < Nat.pow 2 63 ∧ separator ∉ l.digits ∧
      (l.radix = .octal → l.magnitude < 8)) ∧
    (l.radix ≠ .octal → ∀ n, integer? l.text = some n → n = l.value) ∧
    ¬ Overflows l.text ∧
    (∀ n, integer? text = some n → InRange n) ∧
    (Overflows text ↔ ∃ inner, Relation.TransGen Negates text inner ∧ HidesSign inner) := by
  refine ⟨?_, ?_, l.not_overflows, fun n => inRange_integer?, overflows_iff⟩
  · have hvalue : l.value = l.signed l.magnitude := rfl
    rw [integer?_text, hvalue, ← reading_eq_magnitude_iff]
    constructor
    · intro h
      split at h
      next hread =>
        have heq : l.reading = l.magnitude := l.signed_inj.mp (Option.some.inj h)
        exact ⟨heq ▸ hread.2, hread.1, heq⟩
      next => cases h
    · rintro ⟨hlt, hsep, heq⟩
      rw [if_pos ⟨hsep, heq ▸ hlt⟩, heq]
  · intro hradix n hn
    have heq : l.reading = l.magnitude := l.reading_eq_magnitude_iff.mpr fun h => absurd h hradix
    rw [integer?_text, heq] at hn
    split at hn
    · exact (Option.some.inj hn).symm
    · cases hn

/-- The permissions of a file as they are usually written. -/
def permissions : Literal where
  isNegative := false
  radix := .octal
  digits := "0644".toList
  marks := []
  first := ⟨'0', rfl, by decide⟩
  last := ⟨'4', rfl, by decide⟩
  inner := List.all_iff_forall_prop.mp (by decide)
  leading := by decide
  marks_suffix := nofun

/-- The least integer, in hexadecimal. -/
def lowest : Literal where
  isNegative := true
  radix := .hexadecimal false
  digits := "8000000000000000".toList
  marks := []
  first := ⟨'8', rfl, by decide⟩
  last := ⟨'0', rfl, by decide⟩
  inner := List.all_iff_forall_prop.mp (by decide)
  leading := nofun
  marks_suffix := nofun

/-- An octal literal is read as if it were decimal, the least integer is not read as a literal, and
the reading of a text that is none negates it. -/
theorem read_permissions_ne_value :
    permissions.text = "0644".toList ∧ permissions.value = 420 ∧
      integer? permissions.text = some 644 ∧
    lowest.text = "-0x8000000000000000".toList ∧ lowest.value = least ∧
      integer? lowest.text = none ∧
    Overflows "-0x-8000000000000000".toList := by
  refine ⟨by cbv, by cbv, by cbv, by cbv, by cbv, by cbv, ?_⟩
  exact ⟨"0x-8000000000000000".toList, .single (by cbv), by cbv⟩

end Literal

end RubyBinding.Header
