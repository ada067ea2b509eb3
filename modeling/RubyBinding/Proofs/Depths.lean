import Mathlib.Data.List.Chain
import Mathlib.Logic.Relation
import Mathlib.Order.Bounds.Basic
import RubyBinding.Binding.Class
import RubyBinding.Proofs.Order

/-!
# Depths and chains of superclasses

The depth of a class is told by a walk to its superclasses that keeps the classes it has passed, its
*path*, and stops where it meets one of them again. Classes may have several superclasses and may
inherit from themselves; still the walk ends, since a path holds each class once
(`wellFounded_visits`). It fails exactly if a class that inherits from itself is met, and else finds
the length of the longest chain of superclasses (`depths_measure`).
-/

namespace RubyBinding.Library

open Relation (ReflTransGen TransGen)

variable {lib : Library} {i s : DeclId} {d : Nat}

/-- The greatest entry of a list of numbers, or zero. -/
theorem isGreatest_foldl_max (l : List Nat) : IsGreatest {k | k = 0 ∨ k ∈ l} (l.foldl max 0) := by
  induction l using List.reverseRecOn with
  | nil =>
    refine ⟨.inl rfl, ?_⟩
    rintro k (rfl | hk)
    · exact Nat.le_refl 0
    · cases hk
  | append_singleton l a ih =>
    obtain ⟨hmem, hle⟩ := ih
    rw [List.foldl_append]
    constructor
    · rcases Nat.le_total (l.foldl max 0) a with h | h
      · refine .inr (List.mem_append_right _ (List.mem_singleton.mpr (Nat.max_eq_right h)))
      · have heq : max (l.foldl max 0) a = l.foldl max 0 := Nat.max_eq_left h
        show max (l.foldl max 0) a = 0 ∨ _ ∈ l ++ [a]
        rw [List.foldl_cons, List.foldl_nil, heq]
        exact hmem.imp_right (List.mem_append_left _)
    · rintro k (rfl | hk)
      · exact Nat.zero_le _
      · rcases List.mem_append.mp hk with hk | hk
        · exact Nat.le_trans (hle (.inr hk)) (Nat.le_max_left _ _)
        · exact Nat.le_trans (Nat.le_of_eq (List.mem_singleton.mp hk)) (Nat.le_max_right _ _)

/-! ## Superclasses -/

/-- One step from a class to a superclass, as Ruby sees them: the chosen one, or each base that is
not ignored if none was chosen. -/
def Extends (lib : Library) (c s : DeclId) : Prop :=
  (lib.tree.get c).isRecord ∧
    match lib.chosenSuperclass? c with
    | some chosen => s = chosen
    | none => s ∈ lib.tree.superclasses c ∧ lib.isIgnored s = false

/-- Whether a class above a declaration, or the declaration itself, inherits from itself. -/
def MeetsCycle (lib : Library) (i : DeclId) : Prop :=
  ∃ c, ReflTransGen lib.Extends i c ∧ TransGen lib.Extends c c

theorem extends_iff :
    lib.Extends i s ↔ (lib.tree.get i).isRecord ∧ s ∈ lib.effectiveSuperclasses i := by
  rw [Extends, effectiveSuperclasses]
  cases lib.chosenSuperclass? i <;> simp

theorem MeetsCycle.of_extends (hs : lib.Extends i s) (h : lib.MeetsCycle s) : lib.MeetsCycle i := by
  obtain ⟨c, hc, hloop⟩ := h
  exact ⟨c, .head hs hc, hloop⟩

/-! ## The walk -/

/-- The depth that the walk tells for a declaration, where it has come along a path. -/
def depthBehind (lib : Library) (path : List DeclId) (i : DeclId) : Except GenError Nat :=
  lib.depthAmong (lib.tree.ids.filter fun j => !path.contains j) i

/-- One step of the walk: from a class that is not on the path yet to one of its superclasses. -/
inductive Visits (lib : Library) : List DeclId × DeclId → List DeclId × DeclId → Prop
  | step {path : List DeclId} {i s : DeclId} (hi : i ∉ path) (hs : lib.Extends i s) :
      Visits lib (path ++ [i], s) (path, i)

theorem lt_size_of_isRecord (hi : (lib.tree.get i).isRecord) : i < lib.tree.size := by
  refine Nat.lt_of_not_le fun hle => ?_
  rw [DeclTree.get_of_size_le hle] at hi
  cases hi

theorem mem_unpassed_iff (hi : (lib.tree.get i).isRecord) {path : List DeclId} :
    i ∈ lib.tree.ids.filter (fun j => !path.contains j) ↔ i ∉ path := by
  rw [List.mem_filter, DeclTree.ids, List.mem_range]
  simp [lt_size_of_isRecord hi]

theorem erase_unpassed (lib : Library) (path : List DeclId) (i : DeclId) :
    (lib.tree.ids.filter fun j => !path.contains j).erase i =
      lib.tree.ids.filter fun j => !(path ++ [i]).contains j := by
  have hnodup : lib.tree.ids.Nodup := List.nodup_range
  rw [(hnodup.filter _).erase_eq_filter, List.filter_filter]
  refine List.filter_congr fun j _ => ?_
  rw [Bool.and_comm]
  simp [bne, Bool.beq_eq_decide_eq]

/-- **The walk ends**, however classes inherit from each other. -/
theorem wellFounded_visits (lib : Library) : WellFounded lib.Visits := by
  refine Subrelation.wf ?_ (measure fun v : List DeclId × DeclId =>
    (lib.tree.ids.filter fun j => !v.1.contains j).length).wf
  rintro _ _ ⟨hi, hs⟩
  have hmem := (mem_unpassed_iff hs.1).mpr hi
  show (List.filter _ _).length < (List.filter _ _).length
  rw [← erase_unpassed, List.length_erase_of_mem hmem]
  exact Nat.sub_lt (List.length_pos_of_mem hmem) Nat.one_pos

/-- The walk has no other bound to meet than its path. -/
theorem depthBehind_eq (lib : Library) (path : List DeclId) (i : DeclId) :
    lib.depthBehind path i =
      if !(lib.tree.get i).isRecord then .ok 0
      else if i ∈ path then .error (.inheritanceCycle (lib.tree.qualifiedName i))
      else do
        let above ← (lib.effectiveSuperclasses i).mapM (lib.depthBehind (path ++ [i]))
        return (above.map (· + 1)).foldl max 0 := by
  rw [depthBehind, depthAmong]
  split
  · rfl
  · next hrecord =>
    have hi : (lib.tree.get i).isRecord := by simpa using hrecord
    by_cases hpath : i ∈ path
    · rw [dif_neg fun h => (mem_unpassed_iff hi).mp h hpath, if_pos hpath]
    · rw [dif_pos ((mem_unpassed_iff hi).mpr hpath), if_neg hpath, erase_unpassed]
      rfl

theorem depth_eq_depthBehind (lib : Library) (i : DeclId) : lib.depth i = lib.depthBehind [] i := by
  rw [depthBehind, depth]
  simp

/-! ## Cycles -/

/-- Where no class is met again, and the path is never met, a depth can be told. -/
theorem exists_depthAmong {unseen : List DeclId} (hcycle : ¬ lib.MeetsCycle i)
    (hunseen : ∀ j, ReflTransGen lib.Extends i j → (lib.tree.get j).isRecord → j ∈ unseen) :
    ∃ d, lib.depthAmong unseen i = .ok d := by
  -- By induction on the number of classes to look at, as `depthAmong` goes.
  induction hk : unseen.length using Nat.strongRecOn generalizing unseen i with
  | ind k ih =>
    subst hk
    rw [depthAmong]
    split
    · exact ⟨0, rfl⟩
    · next hrecord =>
      have hi : (lib.tree.get i).isRecord := by simpa using hrecord
      have hmem : i ∈ unseen := hunseen i .refl hi
      rw [dif_pos hmem]
      have habove : ∀ s ∈ lib.effectiveSuperclasses i,
          ∃ m, lib.depthAmong (unseen.erase i) s = .ok m := by
        intro s hs
        have hstep : lib.Extends i s := extends_iff.mpr ⟨hi, hs⟩
        have hless : (unseen.erase i).length < unseen.length := by
          rw [List.length_erase_of_mem hmem]
          exact Nat.sub_lt (List.length_pos_of_mem hmem) Nat.one_pos
        refine ih _ hless (fun h => hcycle (h.of_extends hstep)) ?_ rfl
        · intro j hj hrecord
          refine (List.mem_erase_of_ne ?_).mpr (hunseen j (.head hstep hj) hrecord)
          rintro rfl
          exact hcycle ⟨j, .refl, .head' hstep hj⟩
      choose! depthOf hdepthOf using habove
      have hall : (lib.effectiveSuperclasses i).mapM (fun s => lib.depthAmong (unseen.erase i) s) =
          .ok ((lib.effectiveSuperclasses i).map depthOf) := by
        rw [mapM_eq_ok_iff, List.forall₂_map_right_iff, List.forall₂_same]
        exact hdepthOf
      rw [hall]
      exact ⟨_, rfl⟩

/-- If the walk fails, then at a class that inherits from itself. -/
theorem cycle_of_depthAmong {unseen : List DeclId} {e : GenError}
    (hpath : ∀ j, (lib.tree.get j).isRecord → j ∉ unseen → TransGen lib.Extends j i)
    (h : lib.depthAmong unseen i = .error e) :
    ∃ c, ReflTransGen lib.Extends i c ∧ TransGen lib.Extends c c ∧
      e = .inheritanceCycle (lib.tree.qualifiedName c) := by
  induction hk : unseen.length using Nat.strongRecOn generalizing unseen i with
  | ind k ih =>
    subst hk
    rw [depthAmong] at h
    split at h
    · cases h
    · next hrecord =>
      have hi : (lib.tree.get i).isRecord := by simpa using hrecord
      split at h
      · next hmem =>
        have hfails : ∃ s ∈ lib.effectiveSuperclasses i,
            lib.depthAmong (unseen.erase i) s = .error e := by
          cases habove : (lib.effectiveSuperclasses i).mapM fun s =>
              lib.depthAmong (unseen.erase i) s with
          | ok above =>
            rw [habove] at h
            cases h
          | error e' =>
            rw [habove] at h
            cases h
            exact exists_of_mapM_eq_error habove
        obtain ⟨s, hs, hfail⟩ := hfails
        have hstep : lib.Extends i s := extends_iff.mpr ⟨hi, hs⟩
        have hpath' : ∀ j, (lib.tree.get j).isRecord → j ∉ unseen.erase i →
            TransGen lib.Extends j s := by
          intro j hj hout
          by_cases hji : j = i
          · exact hji ▸ .single hstep
          · exact .tail (hpath j hj fun h => hout ((List.mem_erase_of_ne hji).mpr h)) hstep
        have hless : (unseen.erase i).length < unseen.length := by
          rw [List.length_erase_of_mem hmem]
          exact Nat.sub_lt (List.length_pos_of_mem hmem) Nat.one_pos
        obtain ⟨c, hc, hloop, he⟩ := ih _ hless hpath' hfail rfl
        exact ⟨c, .head hstep hc, hloop, he⟩
      · next hout =>
        cases h
        exact ⟨i, .refl, hpath i hi hout, rfl⟩

/-- If a depth cannot be told, then because a class above inherits from itself. -/
theorem cycle_of_depth {e : GenError} (h : lib.depth i = .error e) :
    ∃ c, ReflTransGen lib.Extends i c ∧ TransGen lib.Extends c c ∧
      e = .inheritanceCycle (lib.tree.qualifiedName c) := by
  refine cycle_of_depthAmong (fun j hj hout => ?_) h
  exact absurd (List.mem_range.mpr (lt_size_of_isRecord hj)) hout

theorem exists_depth (hcycle : ¬ lib.MeetsCycle i) : ∃ d, lib.depth i = .ok d :=
  exists_depthAmong hcycle fun _ _ hj => List.mem_range.mpr (lt_size_of_isRecord hj)

/-- The depths of superclasses can be told as well, and they are smaller. -/
theorem depth_of_extends (hs : lib.Extends i s) (h : lib.depth i = .ok d) :
    ∃ m, lib.depth s = .ok m ∧ m < d := by
  obtain ⟨above, habove, hd⟩ := depths_of_depth hs.1 h
  obtain ⟨m, hmem, hm⟩ := exists_of_forall₂ habove.flip (extends_iff.mp hs).2
  refine ⟨m, hm, ?_⟩
  rw [hd]
  exact (isGreatest_foldl_max _).2 (.inr (List.mem_map_of_mem hmem))

theorem depth_of_transGen (hs : TransGen lib.Extends i s) (h : lib.depth i = .ok d) :
    ∃ m, lib.depth s = .ok m ∧ m < d := by
  induction hs with
  | single hs => exact depth_of_extends hs h
  | tail _ hs ih =>
    obtain ⟨m, hm, hmd⟩ := ih
    obtain ⟨k, hk, hkm⟩ := depth_of_extends hs hm
    exact ⟨k, hk, Nat.lt_trans hkm hmd⟩

/-- A depth cannot be told exactly where a class is met that inherits from itself. -/
theorem meetsCycle_iff : lib.MeetsCycle i ↔ ∃ c, lib.depth i = .error (.inheritanceCycle c) := by
  constructor
  · rintro ⟨c, hc, hloop⟩
    cases h : lib.depth i with
    | error e =>
      obtain ⟨c, -, -, rfl⟩ := cycle_of_depth h
      exact ⟨_, rfl⟩
    | ok d =>
      -- The class would be less deep than itself.
      have hdepth : ∃ m, lib.depth c = .ok m := by
        rcases Relation.reflTransGen_iff_eq_or_transGen.mp hc with rfl | hc
        · exact ⟨d, h⟩
        · obtain ⟨m, hm, -⟩ := depth_of_transGen hc h
          exact ⟨m, hm⟩
      obtain ⟨m, hm⟩ := hdepth
      obtain ⟨k, hk, hkm⟩ := depth_of_transGen hloop hm
      rw [hm] at hk
      cases hk
      exact absurd hkm (Nat.lt_irrefl m)
  · rintro ⟨e, h⟩
    obtain ⟨c, hc, hloop, -⟩ := cycle_of_depth h
    exact ⟨c, hc, hloop⟩

/-! ## Chains -/

/-- The lengths of the chains of superclasses above a declaration. -/
def chainLengths (lib : Library) (i : DeclId) : Set Nat :=
  {k | ∃ chain, List.IsChain lib.Extends (i :: chain) ∧ chain.length = k}

/-- Without superclasses, a declaration has depth zero; else it is one deeper than some of them. -/
theorem depth_cases (h : lib.depth i = .ok d) :
    (d = 0 ∧ ∀ s, ¬ lib.Extends i s) ∨
      ∃ s m, lib.Extends i s ∧ lib.depth s = .ok m ∧ d = m + 1 := by
  by_cases hi : (lib.tree.get i).isRecord
  · obtain ⟨above, habove, hd⟩ := depths_of_depth hi h
    rcases (isGreatest_foldl_max (above.map (· + 1))).1 with hzero | hmem
    · refine .inl ⟨hd.trans hzero, fun s hs => ?_⟩
      obtain ⟨m, -, hm⟩ := depth_of_extends hs h
      rw [hd, hzero] at hm
      exact Nat.not_lt_zero m hm
    · rw [← hd] at hmem
      obtain ⟨m, hm, rfl⟩ := List.mem_map.mp hmem
      obtain ⟨s, hs, hdepth⟩ := exists_of_forall₂ habove hm
      exact .inr ⟨s, m, extends_iff.mpr ⟨hi, hs⟩, hdepth, rfl⟩
  · refine .inl ⟨?_, fun s hs => hi hs.1⟩
    rw [depth, depthAmong, if_pos (by simpa using hi)] at h
    cases h
    rfl

/-- No chain is longer than the depth, and one is as long. -/
theorem isGreatest_chainLengths (h : lib.depth i = .ok d) :
    IsGreatest (lib.chainLengths i) d := by
  induction d using Nat.strongRecOn generalizing i with
  | ind d ih =>
    constructor
    · rcases depth_cases h with ⟨rfl, -⟩ | ⟨s, m, hs, hm, rfl⟩
      · exact ⟨[], .singleton i, rfl⟩
      · obtain ⟨chain, hchain, hlength⟩ := (ih m (Nat.lt_succ_self m) hm).1
        exact ⟨s :: chain, .cons_cons hs hchain, congrArg (· + 1) hlength⟩
    · rintro _ ⟨chain, hchain, rfl⟩
      cases chain with
      | nil => exact Nat.zero_le d
      | cons s chain =>
        rw [List.isChain_cons_cons] at hchain
        obtain ⟨m, hm, hmd⟩ := depth_of_extends hchain.1 h
        have hle : chain.length ≤ m := (ih m hmd hm).2 ⟨chain, hchain.2, rfl⟩
        exact Nat.lt_of_le_of_lt hle hmd

/-! ## The superclass that was selected -/

theorem effectiveSuperclasses_of_superclass? (h : lib.superclass? i = .ok (some s)) :
    lib.effectiveSuperclasses i = [s] := by
  unfold superclass? at h
  split at h
  · cases h
  · next only honly =>
    cases h
    exact honly
  · cases h

/-- **A class is one deeper than the superclass that was selected for it.** -/
theorem depth_of_superclass? (hi : (lib.tree.get i).isRecord)
    (hs : lib.superclass? i = .ok (some s)) (h : lib.depth i = .ok d) :
    ∃ m, lib.depth s = .ok m ∧ d = m + 1 := by
  have honly := effectiveSuperclasses_of_superclass? hs
  rcases depth_cases h with ⟨-, hnone⟩ | ⟨s', m, hs', hm, hd⟩
  · refine absurd (extends_iff.mpr ⟨hi, ?_⟩) (hnone s)
    rw [honly]
    exact List.mem_singleton_self s
  · have hmem := (extends_iff.mp hs').2
    rw [honly, List.mem_singleton] at hmem
    exact ⟨m, hmem ▸ hm, hd⟩

/-! ## What a depth tells -/

/-- What the depth of a declaration tells about the superclasses above it. -/
structure Measures (lib : Library) (i : DeclId) : Prop where
  /-- It cannot be told exactly if a class is met that inherits from itself; -/
  cyclic : lib.MeetsCycle i ↔ ∃ c, lib.depth i = .error (.inheritanceCycle c)
  /-- then it is such a class that is named. -/
  named : ∀ e, lib.depth i = .error e → ∃ c, ReflTransGen lib.Extends i c ∧
    TransGen lib.Extends c c ∧ e = .inheritanceCycle (lib.tree.qualifiedName c)
  longest : ¬ lib.MeetsCycle i → ∃ d, lib.depth i = .ok d ∧ IsGreatest (lib.chainLengths i) d
  /-- What has no superclasses has depth zero, and everything else is one deeper than the deepest of
  them. -/
  flat : (∀ s, ¬ lib.Extends i s) → lib.depth i = .ok 0
  deepest : ∀ d, lib.depth i = .ok d → (∃ s, lib.Extends i s) →
    IsGreatest {k | ∃ s m, lib.Extends i s ∧ lib.depth s = .ok m ∧ k = m + 1} d
  smaller : ∀ d s, lib.depth i = .ok d → lib.Extends i s → ∃ m, lib.depth s = .ok m ∧ m < d
  selected : ∀ d s, (lib.tree.get i).isRecord → lib.superclass? i = .ok (some s) →
    lib.depth i = .ok d → ∃ m, lib.depth s = .ok m ∧ d = m + 1

theorem depth_of_not_extends (h : ∀ s, ¬ lib.Extends i s) : lib.depth i = .ok 0 := by
  have hcycle : ¬ lib.MeetsCycle i := by
    rintro ⟨c, hc, hloop⟩
    rcases Relation.ReflTransGen.cases_head hc with rfl | ⟨s, hs, -⟩
    · obtain ⟨s, hs, -⟩ := Relation.TransGen.head'_iff.mp hloop
      exact h s hs
    · exact h s hs
  obtain ⟨d, hd⟩ := exists_depth hcycle
  rcases depth_cases hd with ⟨rfl, -⟩ | ⟨s, -, hs, -⟩
  · exact hd
  · exact absurd hs (h s)

theorem isGreatest_depths (h : lib.depth i = .ok d) (hs : ∃ s, lib.Extends i s) :
    IsGreatest {k | ∃ s m, lib.Extends i s ∧ lib.depth s = .ok m ∧ k = m + 1} d := by
  constructor
  · rcases depth_cases h with ⟨-, hnone⟩ | hsome
    · obtain ⟨s, hs⟩ := hs
      exact absurd hs (hnone s)
    · exact hsome
  · rintro _ ⟨s, m, hs, hm, rfl⟩
    obtain ⟨m', hm', hmd⟩ := depth_of_extends hs h
    rw [hm] at hm'
    cases hm'
    exact hmd

/-- **Depths are told by a walk that ends, and they measure the chains of superclasses.** This holds
whatever was said about a library, and however its classes inherit from each other. -/
theorem depths_measure (lib : Library) :
    WellFounded lib.Visits ∧
      (∀ path i, lib.depthBehind path i =
        if !(lib.tree.get i).isRecord then .ok 0
        else if i ∈ path then .error (.inheritanceCycle (lib.tree.qualifiedName i))
        else do
          let above ← (lib.effectiveSuperclasses i).mapM (lib.depthBehind (path ++ [i]))
          return (above.map (· + 1)).foldl max 0) ∧
      (∀ i, lib.depth i = lib.depthBehind [] i) ∧ ∀ i, lib.Measures i := by
  refine ⟨wellFounded_visits lib, depthBehind_eq lib, depth_eq_depthBehind lib, fun i => ?_⟩
  refine ⟨meetsCycle_iff, fun _ => cycle_of_depth, ?_, depth_of_not_extends,
    fun _ => isGreatest_depths, fun _ _ h hs => depth_of_extends hs h,
    fun _ _ hi hs h => depth_of_superclass? hi hs h⟩
  intro hcycle
  obtain ⟨d, hd⟩ := exists_depth hcycle
  exact ⟨d, hd, isGreatest_chainLengths hd⟩

end RubyBinding.Library
