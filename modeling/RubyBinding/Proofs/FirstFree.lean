import Mathlib
import RubyBinding.Proofs.Names

/-!
# The first free name

A name that is asked for is handed out as it is, or with the least number that makes it one that was
not handed out before (`IsFirstFree`). It is found by trying one name after the other (`Search`).
Nothing bounds that search but the names themselves: a round is spent only on a name that was handed
out, and no name is tried twice. So there are at most as many rounds as there were calls before,
whatever was asked for (`hands_out_first_free`); and after fewer than 2³¹ calls the number fits into
a counter of 32 bits.
-/

namespace RubyBinding.Fresh

variable {taken : List String} {base name found : String}

/-! ## Searching -/

section Search

variable {C : Type} [Add C] [OfNat C 1] [ToString C]

/-- Trying one name after the other: `Search taken base rounds counter tried found` says that a
search for `base` that has come to `tried`, with its counter at `counter`, goes on for `rounds`
rounds and ends with `found`. The counter is a number or a machine word. -/
inductive Search (taken : List String) (base : String) : Nat → C → String → String → Prop
  | free {counter : C} {tried : String} (h : tried ∉ taken) :
    Search taken base 0 counter tried tried
  | again {rounds : Nat} {counter : C} {tried found : String} (h : tried ∈ taken)
      (hrest : Search taken base rounds (counter + 1) (base ++ "_" ++ toString (counter + 1))
        found) :
    Search taken base (rounds + 1) counter tried found

namespace Search

variable {rounds rounds' : Nat} {counter : C} {tried found found' : String}

/-- A search ends in one way only. -/
theorem unique (h : Search taken base rounds counter tried found)
    (h' : Search taken base rounds' counter tried found') : rounds' = rounds ∧ found' = found := by
  induction h generalizing rounds' with
  | free hfree =>
    cases h' with
    | free => exact ⟨rfl, rfl⟩
    | again htaken => exact absurd htaken hfree
  | again htaken _ ih =>
    cases h' with
    | free hfree => exact absurd htaken hfree
    | again _ hrest =>
      obtain ⟨hrounds, hfound⟩ := ih hrest
      exact ⟨congrArg (· + 1) hrounds, hfound⟩

/-- Where `count` counts, and is spelled in the usual way up to `k`, a search that has come to the
`l`th candidate goes on to the `k`th, if that is free and those before it are taken. -/
theorem of_numbered (count : Nat → C) {k l : Nat} (hsucc : ∀ n, count (n + 1) = count n + 1)
    (hspelled : ∀ n ≤ k, toString (count n) = toString n) (hfree : numbered base k ∉ taken)
    (htaken : ∀ j < k, numbered base j ∈ taken) (hl : l ≤ k) :
    Search taken base (k - l) (count l) (numbered base l) (numbered base k) := by
  -- From the last round to the first.
  induction hl using Nat.decreasingInduction with
  | self =>
    rw [Nat.sub_self]
    exact .free hfree
  | of_succ l hl ih =>
    have hrounds : k - l = k - (l + 1) + 1 := by omega
    have hnext : numbered base (l + 1) = base ++ "_" ++ toString (count l + 1) := by
      rw [numbered, ← hsucc, hspelled (l + 1) hl]
    rw [hnext, hsucc] at ih
    rw [hrounds]
    exact .again (htaken l hl) ih

/-- Such a search spends one round on each candidate that is taken. -/
theorem iff_of_numbered (count : Nat → C) {k : Nat} (hsucc : ∀ n, count (n + 1) = count n + 1)
    (hspelled : ∀ n ≤ k, toString (count n) = toString n) (hfree : numbered base k ∉ taken)
    (htaken : ∀ j < k, numbered base j ∈ taken) :
    Search taken base rounds (count 0) base found ↔ rounds = k ∧ found = numbered base k := by
  have hends : Search taken base k (count 0) base (numbered base k) :=
    of_numbered count hsucc hspelled hfree htaken (Nat.zero_le k)
  constructor
  · exact hends.unique
  · rintro ⟨rfl, rfl⟩
    exact hends

end Search

end Search

/-- A machine word is spelled like the number it stands for, as long as that fits. -/
theorem toString_int32 {n : Nat} (h : n < 2 ^ 31) : toString (Int32.ofNat n) = toString n := by
  show toString (Int32.ofNat n).toInt = toString n
  rw [Int32.toInt_ofNat_of_lt h]
  rfl

namespace Search

variable {rounds k : Nat}

theorem nat_iff (hfree : numbered base k ∉ taken) (htaken : ∀ j < k, numbered base j ∈ taken) :
    Search taken base rounds (0 : Nat) base found ↔ rounds = k ∧ found = numbered base k :=
  iff_of_numbered id (fun _ => rfl) (fun _ _ => rfl) hfree htaken

/-- A counter of 32 bits does as well, as long as it does not overflow. -/
theorem int32_iff (hfits : k < 2 ^ 31) (hfree : numbered base k ∉ taken)
    (htaken : ∀ j < k, numbered base j ∈ taken) :
    Search taken base rounds (0 : Int32) base found ↔ rounds = k ∧ found = numbered base k := by
  have hspelled : ∀ n ≤ k, toString (Int32.ofNat n) = toString n :=
    fun n hn => toString_int32 (Nat.lt_of_le_of_lt hn hfits)
  exact iff_of_numbered Int32.ofNat (fun n => Int32.ofNat_add n 1) hspelled hfree htaken

end Search

/-! ## What is found -/

/-- Whether `name` is what is due to someone who asks for `base` after the names `given`: that name,
or if it was given, the one with the least number that was not. -/
structure IsFirstFree (given : List String) (base name : String) : Prop where
  eq_of_not_mem : base ∉ given → name = base
  isLeast_of_mem : base ∈ given → ∃ k,
    IsLeast {k | 1 ≤ k ∧ base ++ "_" ++ toString k ∉ given} k ∧ name = base ++ "_" ++ toString k

theorem isFirstFree_of_numbered {k : Nat} (hfree : numbered base k ∉ taken)
    (htaken : ∀ j < k, numbered base j ∈ taken) : IsFirstFree taken base (numbered base k) := by
  cases k with
  | zero => exact ⟨fun _ => rfl, fun hbase => absurd hbase hfree⟩
  | succ k =>
    refine ⟨fun hbase => absurd (htaken 0 (Nat.succ_pos k)) hbase, fun _ => ?_⟩
    refine ⟨k + 1, ⟨⟨Nat.succ_pos k, hfree⟩, ?_⟩, rfl⟩
    rintro j ⟨hpos, hj⟩
    by_contra hlt
    obtain ⟨i, rfl⟩ := Nat.exists_eq_succ_of_ne_zero (Nat.ne_of_gt hpos)
    exact hj (htaken (i + 1) (Nat.lt_of_not_le hlt))

/-- **Each call hands out the first free name**, whatever was asked for before. The search for it
ends, in no more rounds than there were calls before. -/
theorem hands_out_first_free (earlier : List String) (base : String) :
    let given := (({} : Fresh).pickAll earlier).1
    let fresh := (({} : Fresh).pickAll earlier).2
    let name := (fresh.pick base).1
    IsFirstFree given base name ∧
      (({} : Fresh).pickAll (earlier ++ [base])).1 = given ++ [name] ∧ (given ++ [name]).Nodup ∧
      ∃ k ≤ earlier.length, name = numbered base k ∧
        (∀ rounds found, Search fresh.taken base rounds (0 : Nat) base found ↔
          rounds = k ∧ found = name) ∧
        (earlier.length < 2 ^ 31 → ∀ rounds found,
          Search fresh.taken base rounds (0 : Int32) base found ↔ rounds = k ∧ found = name) := by
  intro given fresh name
  have hgiven : fresh.taken = given.reverse := by
    simpa using taken_pickAll {} earlier
  have hmore : (({} : Fresh).pickAll (earlier ++ [base])).1 = given ++ [name] := by
    rw [pickAll_append]
    rfl
  obtain ⟨k, hk, hname, hfree, htaken⟩ : ∃ k ≤ fresh.taken.length, name = numbered base k ∧
      numbered base k ∉ fresh.taken ∧ ∀ j < k, numbered base j ∈ fresh.taken :=
    candidate_first fresh.taken base
  have hcalls : k ≤ earlier.length := by
    rwa [hgiven, List.length_reverse, length_pickAll] at hk
  refine ⟨?_, hmore, ?_, k, hcalls, hname, ?_, ?_⟩
  · rw [hname]
    apply isFirstFree_of_numbered
    · simpa [hgiven] using hfree
    · simpa [hgiven] using htaken
  · rw [← hmore]
    exact (pickAll_nodup {} _).1
  · intro rounds found
    rw [hname]
    exact Search.nat_iff hfree htaken
  · intro hfew rounds found
    rw [hname]
    exact Search.int32_iff (Nat.lt_of_le_of_lt hcalls hfew) hfree htaken

/-- Someone asks for a name that looks like a numbered one, so that its number is passed over. -/
theorem hands_out_first_free_scale :
    ["scale", "scale_1", "scale", "area"].length < 2 ^ 31 ∧
      (({} : Fresh).pickAll ["scale", "scale_1", "scale", "area", "scale"]).1 =
        ["scale", "scale_1", "scale_2", "area", "scale_3"] ∧
      Search ["area", "scale_2", "scale_1", "scale"] "scale" 3 (0 : Int32) "scale" "scale_3" := by
  have hfew : ["scale", "scale_1", "scale", "area"].length < 2 ^ 31 := by decide
  have hgiven : (({} : Fresh).pickAll ["scale", "scale_1", "scale", "area"]).1 =
      ["scale", "scale_1", "scale_2", "area"] := by decide
  have htaken : (({} : Fresh).pickAll ["scale", "scale_1", "scale", "area"]).2.taken =
      ["area", "scale_2", "scale_1", "scale"] := by decide
  have hname : ((({} : Fresh).pickAll ["scale", "scale_1", "scale", "area"]).2.pick "scale").1 =
      numbered "scale" 3 := by decide
  obtain ⟨-, hmore, -, k, -, hk, -, hword⟩ :=
    hands_out_first_free ["scale", "scale_1", "scale", "area"] "scale"
  rw [hname] at hk
  obtain rfl := numbered_injective hk
  have hsearch := (hword hfew 3 _).mpr ⟨rfl, rfl⟩
  rw [hgiven, hname] at hmore
  rw [htaken, hname] at hsearch
  exact ⟨hfew, hmore, hsearch⟩

end RubyBinding.Fresh
