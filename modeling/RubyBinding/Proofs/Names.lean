import Mathlib.Data.List.Nodup
import Mathlib.Data.List.Perm.Subperm
import RubyBinding.Naming

/-!
# Names that are handed out

The candidates for a name differ from each other, so among one more of them than there are names
taken, one is free, and the first such is handed out (`candidate_first`). What is handed out is taken
from then on (`taken_pickAll`), and it is made from a name that was asked for (`of_mem_pickAll`); a
name that is asked for is handed out to someone (`mem_pickAll_of_asked`).
-/

namespace RubyBinding.Fresh

variable {taken : List String} {name : String} {k l : Nat}

theorem toString_injective (h : toString k = toString l) : k = l := by
  have hdigits : Nat.toDigits 10 k = Nat.toDigits 10 l := by
    rw [← Nat.toList_repr, ← Nat.toList_repr, ← Nat.toString_eq_repr, ← Nat.toString_eq_repr, h]
  rw [← Nat.ofDigitChars_ten_toDigits (n := k), hdigits, Nat.ofDigitChars_ten_toDigits]

/-- Candidates for a name differ from each other. -/
theorem numbered_injective (h : numbered name k = numbered name l) : k = l := by
  have hlists := congrArg String.toList h
  cases k with
  | zero =>
    cases l with
    | zero => rfl
    | succ l => simp [numbered] at hlists
  | succ k =>
    cases l with
    | zero => simp [numbered] at hlists
    | succ l =>
      simp only [numbered, String.toList_append, List.append_assoc, List.append_cancel_left_eq]
        at hlists
      exact toString_injective (String.toList_injective hlists)

/-- Not all of `taken.length + 1` candidates are taken. -/
theorem exists_free (taken : List String) (name : String) :
    ∃ k ∈ List.range (taken.length + 1), numbered name k ∉ taken := by
  by_contra hall
  -- Else there would be more different names than there are names taken.
  have hsub : ∀ c ∈ (List.range (taken.length + 1)).map (numbered name), c ∈ taken := by
    intro c hc
    obtain ⟨k, hk, rfl⟩ := List.mem_map.mp hc
    by_contra hout
    exact hall ⟨k, hk, hout⟩
  have hnodup : ((List.range (taken.length + 1)).map (numbered name)).Nodup :=
    List.nodup_range.map fun _ _ h => numbered_injective h
  have hlength := (List.Nodup.subperm hnodup hsub).length_le
  rw [List.length_map, List.length_range] at hlength
  omega

/-- **What is handed out is the first candidate that is not taken.** Its number is at most that of
the names taken. -/
theorem candidate_first (taken : List String) (name : String) :
    ∃ k ≤ taken.length, candidate taken name = numbered name k ∧ numbered name k ∉ taken ∧
      ∀ j < k, numbered name j ∈ taken := by
  obtain ⟨l, hl, hout⟩ := exists_free taken name
  unfold candidate
  split
  · next k hfirst =>
    obtain ⟨hfree, hk, hbefore⟩ := List.find?_range_eq_some.mp hfirst
    refine ⟨k, Nat.le_of_lt_succ (List.mem_range.mp hk), rfl, by simpa using hfree, ?_⟩
    intro j hj
    simpa using hbefore j hj
  · next hnone =>
    have htaken := List.find?_eq_none.mp hnone l hl
    exact absurd hout (by simpa using htaken)

/-- A name that is handed out was not taken. -/
theorem candidate_not_mem (taken : List String) (name : String) :
    candidate taken name ∉ taken := by
  obtain ⟨k, -, hk, hfree, -⟩ := candidate_first taken name
  rwa [hk]

/-- What is handed out is one of the candidates. -/
theorem candidate_eq_numbered (taken : List String) (name : String) :
    ∃ k, candidate taken name = numbered name k := by
  obtain ⟨k, -, hk, -⟩ := candidate_first taken name
  exact ⟨k, hk⟩

/-! ## Names that are handed out one after the other -/

theorem length_pickAll (fresh : Fresh) (names : List String) :
    (fresh.pickAll names).1.length = names.length := by
  induction names generalizing fresh with
  | nil => rfl
  | cons name names ih =>
    rw [pickAll, List.length_cons, List.length_cons, ih]

/-- Whatever is handed out is taken from then on, and nothing else. -/
theorem taken_pickAll (fresh : Fresh) (names : List String) :
    (fresh.pickAll names).2.taken = (fresh.pickAll names).1.reverse ++ fresh.taken := by
  induction names generalizing fresh with
  | nil => rfl
  | cons name names ih =>
    rw [pickAll, ih, List.reverse_cons, List.append_assoc]
    rfl

/-- **Names that are handed out one after the other differ from each other**, and were not taken. -/
theorem pickAll_nodup (fresh : Fresh) (names : List String) :
    (fresh.pickAll names).1.Nodup ∧ ∀ n ∈ (fresh.pickAll names).1, n ∉ fresh.taken := by
  induction names generalizing fresh with
  | nil => exact ⟨List.nodup_nil, List.forall_mem_nil _⟩
  | cons name names ih =>
    obtain ⟨hnodup, hfree⟩ := ih (fresh.pick name).2
    refine ⟨List.nodup_cons.mpr ⟨?_, hnodup⟩, List.forall_mem_cons.mpr ⟨?_, ?_⟩⟩
    · intro hmem
      exact hfree _ hmem List.mem_cons_self
    · exact candidate_not_mem fresh.taken name
    · exact fun n hn htaken => hfree n hn (List.mem_cons_of_mem _ htaken)

/-! ## Names that are asked for -/

/-- A name that is not taken is handed out as it is. -/
theorem candidate_of_not_mem (h : name ∉ taken) : candidate taken name = name := by
  obtain ⟨k, -, hk, -, hbefore⟩ := candidate_first taken name
  cases k with
  | zero => exact hk
  | succ k => exact absurd (hbefore 0 (Nat.succ_pos k)) h

/-- **A name that is asked for is handed out**, to the one that asks for it or before that. -/
theorem mem_pickAll_of_asked (fresh : Fresh) {names : List String} (h : name ∈ names) :
    name ∈ fresh.taken ∨ name ∈ (fresh.pickAll names).1 := by
  induction names generalizing fresh with
  | nil => cases h
  | cons first names ih =>
    show name ∈ fresh.taken ∨
      name ∈ candidate fresh.taken first :: ((fresh.pick first).2.pickAll names).1
    rcases List.mem_cons.mp h with rfl | hlater
    · by_cases htaken : name ∈ fresh.taken
      · exact .inl htaken
      · rw [candidate_of_not_mem htaken]
        exact .inr List.mem_cons_self
    · rcases ih (fresh.pick first).2 hlater with htaken | hmem
      · rcases List.mem_cons.mp htaken with rfl | hbefore
        · exact .inr List.mem_cons_self
        · exact .inl hbefore
      · exact .inr (List.mem_cons_of_mem _ hmem)

/-- What is handed out is made from a name that is asked for. -/
theorem of_mem_pickAll (fresh : Fresh) {names : List String} {chosen : String}
    (h : chosen ∈ (fresh.pickAll names).1) : ∃ name ∈ names, ∃ k, chosen = numbered name k := by
  induction names generalizing fresh with
  | nil => cases h
  | cons first names ih =>
    rcases List.mem_cons.mp h with rfl | hlater
    · exact ⟨first, List.mem_cons_self, candidate_eq_numbered fresh.taken first⟩
    · obtain ⟨name, hname, hk⟩ := ih _ hlater
      exact ⟨name, List.mem_cons_of_mem _ hname, hk⟩

theorem pickAll_append (fresh : Fresh) (names more : List String) :
    fresh.pickAll (names ++ more) =
      ((fresh.pickAll names).1 ++ ((fresh.pickAll names).2.pickAll more).1,
        ((fresh.pickAll names).2.pickAll more).2) := by
  induction names generalizing fresh with
  | nil => rfl
  | cons name names ih =>
    simp only [List.cons_append, pickAll, ih]

/-- A number does not end in an equals sign. -/
theorem eq_of_numbered_eq_setter {k : Nat} {field : String} (h : numbered name k = field ++ "=") :
    name = field ++ "=" := by
  cases k with
  | zero => exact h
  | succ k =>
    have hdigits : Nat.toDigits 10 (k + 1) ≠ [] := Nat.toDigits_ne_nil
    have hlast := congrArg (fun text => text.toList.getLast?) h
    simp only [numbered, String.toList_append, Nat.toString_eq_repr, Nat.toList_repr] at hlast
    rw [List.getLast?_append_of_ne_nil _ hdigits, List.getLast?_append_of_ne_nil _ (by decide)]
      at hlast
    have hmem : '=' ∈ Nat.toDigits 10 (k + 1) := List.mem_of_getLast? hlast
    exact absurd (Nat.isDigit_of_mem_toDigits (by decide) (by decide) hmem) (by decide)

end RubyBinding.Fresh
