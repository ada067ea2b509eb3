import Mathlib.Data.List.Nodup
import Mathlib.Logic.Relation
import RubyBinding.Binding.Director
import RubyBinding.Proofs.Depths

/-!
# Ancestors of a class

A class has among its ancestors what its bases denote, what their bases denote, and so on. Classes
may have several bases, may be reached in several ways, and may even inherit from themselves; the
walk through the ancestors meets each of them once (`ancestors_nodup`), meets all of them
(`mem_ancestors_iff`), and meets the nearer ones first (`ancestors_nearest_first`): it works through
the classes that are pending level by level, where a *level* is what takes one more base to reach.
-/

namespace RubyBinding.Library

open Relation (ReflTransGen TransGen)

variable {lib : Library} {unseen pending level next : List DeclId} {k a b c x : DeclId} {n : Nat}

/-- A base of one class denotes another. -/
def Inherits (lib : Library) (c b : DeclId) : Prop := b ∈ lib.tree.superclasses c

/-- A class is an ancestor of another: it is reached through bases, over one or more classes. -/
def HasAncestor (lib : Library) : DeclId → DeclId → Prop := TransGen lib.Inherits

/-- A class is reached from `k` over at most `n` bases. -/
inductive ReachedIn (lib : Library) (k : DeclId) : Nat → DeclId → Prop
  | self (n : Nat) : ReachedIn lib k n k
  | base {n : Nat} {c b : DeclId} : ReachedIn lib k n c → lib.Inherits c b →
      ReachedIn lib k (n + 1) b

theorem ReachedIn.mono (h : lib.ReachedIn k n a) {m : Nat} (hle : n ≤ m) : lib.ReachedIn k m a := by
  induction h generalizing m with
  | self _ => exact .self m
  | base _ hb ih =>
    obtain ⟨m, rfl⟩ : ∃ l, m = l + 1 := ⟨m - 1, by omega⟩
    exact .base (ih (by omega)) hb

theorem isRecord_of_inherits (h : lib.Inherits c b) : (lib.tree.get b).isRecord := by
  unfold Inherits DeclTree.superclasses at h
  split at h
  · exact (List.mem_filter.mp h).2
  · cases h

theorem Inherits.mem_ids (h : lib.Inherits c b) : b ∈ lib.tree.ids :=
  List.mem_range.mpr (lt_size_of_isRecord (isRecord_of_inherits h))

/-! ## Each ancestor is met once -/

theorem ancestorsAmong_subset (unseen pending : List DeclId) :
    lib.ancestorsAmong unseen pending ⊆ unseen := by
  fun_induction lib.ancestorsAmong unseen pending with
  | case1 unseen => exact List.nil_subset _
  | case2 unseen c rest hc ih =>
    exact List.cons_subset.mpr ⟨hc, List.Subset.trans ih List.erase_subset⟩
  | case3 unseen c rest hc ih => exact ih

theorem ancestorsAmong_nodup (hunseen : unseen.Nodup) (pending : List DeclId) :
    (lib.ancestorsAmong unseen pending).Nodup := by
  fun_induction lib.ancestorsAmong unseen pending with
  | case1 unseen => exact List.nodup_nil
  | case2 unseen c rest hc ih =>
    refine List.nodup_cons.mpr ⟨?_, ih (hunseen.erase c)⟩
    intro hmem
    exact hunseen.not_mem_erase (ancestorsAmong_subset _ _ hmem)
  | case3 unseen c rest hc ih => exact ih hunseen

theorem ancestors_nodup (lib : Library) (k : DeclId) : (lib.ancestors k).Nodup :=
  ancestorsAmong_nodup (List.nodup_range.erase k) _

/-! ## All ancestors are met -/

/-- What is met is pending or above something that is. -/
theorem exists_pending_of_mem (h : a ∈ lib.ancestorsAmong unseen pending) :
    ∃ p ∈ pending, ReflTransGen lib.Inherits p a := by
  fun_induction lib.ancestorsAmong unseen pending with
  | case1 unseen => cases h
  | case2 unseen c rest hc ih =>
    rcases List.mem_cons.mp h with rfl | h
    · exact ⟨a, List.mem_cons_self, .refl⟩
    · obtain ⟨p, hp, hpath⟩ := ih h
      rcases List.mem_append.mp hp with hp | hp
      · exact ⟨p, List.mem_cons_of_mem c hp, hpath⟩
      · exact ⟨c, List.mem_cons_self, .head hp hpath⟩
  | case3 unseen c rest hc ih =>
    obtain ⟨p, hp, hpath⟩ := ih h
    exact ⟨p, List.mem_cons_of_mem c hp, hpath⟩

/-- What is pending is met if it was unseen, and with a class that is met its bases are. -/
theorem ancestorsAmong_closed (unseen pending : List DeclId) :
    (∀ p ∈ pending, p ∈ unseen → p ∈ lib.ancestorsAmong unseen pending) ∧
      ∀ c ∈ lib.ancestorsAmong unseen pending, ∀ b, lib.Inherits c b → b ∈ unseen →
        b ∈ lib.ancestorsAmong unseen pending := by
  fun_induction lib.ancestorsAmong unseen pending with
  | case1 unseen => exact ⟨List.forall_mem_nil _, List.forall_mem_nil _⟩
  | case2 unseen c rest hc ih =>
    obtain ⟨hpending, hbases⟩ := ih
    have hlater : ∀ p ∈ rest ++ lib.tree.superclasses c, p ∈ unseen →
        p ∈ c :: lib.ancestorsAmong (unseen.erase c) (rest ++ lib.tree.superclasses c) := by
      intro p hp hunseen
      by_cases hpc : p = c
      · exact hpc ▸ List.mem_cons_self
      · exact List.mem_cons_of_mem _ (hpending p hp ((List.mem_erase_of_ne hpc).mpr hunseen))
    refine ⟨?_, List.forall_mem_cons.mpr ⟨?_, ?_⟩⟩
    · refine List.forall_mem_cons.mpr ⟨fun _ => List.mem_cons_self, fun p hp => ?_⟩
      exact hlater p (List.mem_append_left _ hp)
    · intro b hb
      exact hlater b (List.mem_append_right _ hb)
    · intro d hd b hb hunseen
      by_cases hbc : b = c
      · exact hbc ▸ List.mem_cons_self
      · exact List.mem_cons_of_mem _ (hbases d hd b hb ((List.mem_erase_of_ne hbc).mpr hunseen))
  | case3 unseen c rest hc ih =>
    refine ⟨List.forall_mem_cons.mpr ⟨fun hunseen => absurd hunseen hc, ih.1⟩, ih.2⟩

/-- **The walk meets the ancestors of a class**, and nothing else. -/
theorem mem_ancestors_iff : a ∈ lib.ancestors k ↔ a ≠ k ∧ lib.HasAncestor k a := by
  have hunseen : ∀ b, b ∈ lib.tree.ids.erase k ↔ b ≠ k ∧ b ∈ lib.tree.ids :=
    fun b => List.nodup_range.mem_erase_iff
  constructor
  · intro h
    obtain ⟨p, hp, hpath⟩ := exists_pending_of_mem h
    exact ⟨((hunseen a).mp (ancestorsAmong_subset _ _ h)).1, TransGen.head' hp hpath⟩
  · rintro ⟨hne, hpath⟩
    obtain ⟨hpending, hbases⟩ := lib.ancestorsAmong_closed (lib.tree.ids.erase k)
      (lib.tree.superclasses k)
    have hmet : ∀ b, lib.HasAncestor k b → b ≠ k → b ∈ lib.ancestors k := by
      intro b hb
      induction hb with
      | single hb => exact fun hne => hpending _ hb ((hunseen _).mpr ⟨hne, hb.mem_ids⟩)
      | tail _ hb ih =>
        rename_i c b _
        intro hne
        have hleft := (hunseen b).mpr ⟨hne, Inherits.mem_ids hb⟩
        -- A path may lead back to the class itself, whose bases were pending.
        by_cases hc : c = k
        · exact hpending b (hc ▸ hb) hleft
        · exact hbases c (ih hc) b hb hleft
    exact hmet a hpath hne

/-! ## Nearer ancestors are met first -/

/-- The walk stands at a level: what is left of the level is reached over at most `n + 1` bases,
what was not met yet by no shorter way, and the classes of the next level over one base more. Of the
bases of a class that was met, none is left out. -/
structure AtLevel (lib : Library) (k : DeclId) (n : Nat) (unseen level next : List DeclId) :
    Prop where
  nodup : unseen.Nodup
  here : ∀ c ∈ level, lib.ReachedIn k (n + 1) c
  beyond : ∀ c ∈ next, lib.ReachedIn k (n + 2) c
  far : ∀ c ∈ unseen, ¬ lib.ReachedIn k n c
  near : ∀ c ∈ unseen, lib.ReachedIn k (n + 1) c → c ∈ level
  bases : ∀ m, ∀ c ∉ unseen, lib.ReachedIn k m c → ∀ b ∈ unseen, lib.Inherits c b →
    b ∈ level ++ next

namespace AtLevel

/-- A level that was worked through is followed by the next one. -/
theorem rotate (h : lib.AtLevel k n unseen [] next) : lib.AtLevel k (n + 1) unseen next [] := by
  have hseen : ∀ c, lib.ReachedIn k (n + 1) c → c ∉ unseen :=
    fun c hc hunseen => nomatch h.near c hunseen hc
  refine ⟨h.nodup, h.beyond, List.forall_mem_nil _, fun c hc hreached => hseen c hreached hc,
    ?_, ?_⟩
  · intro b hb hreached
    cases hreached with
    | self _ => exact absurd hb (hseen k (.self _))
    | base hc hbase => exact h.bases _ _ (hseen _ hc) hc b hb hbase
  · intro m c hc hreached b hb hbase
    rw [List.append_nil]
    exact h.bases m c hc hreached b hb hbase

/-- A class that was met before is passed over. -/
theorem skip (h : lib.AtLevel k n unseen (c :: level) next) (hc : c ∉ unseen) :
    lib.AtLevel k n unseen level next := by
  have hleft : ∀ b ∈ unseen, ∀ l, b ∈ c :: l → b ∈ l := by
    intro b hb l hmem
    refine List.mem_of_ne_of_mem ?_ hmem
    rintro rfl
    exact hc hb
  refine ⟨h.nodup, (List.forall_mem_cons.mp h.here).2, h.beyond, h.far, ?_, ?_⟩
  · exact fun b hb hreached => hleft b hb _ (h.near b hb hreached)
  · exact fun m d hd hreached b hb hbase => hleft b hb _ (h.bases m d hd hreached b hb hbase)

/-- The bases of a class that is met are for the next level. -/
theorem meet (h : lib.AtLevel k n unseen (c :: level) next) :
    lib.AtLevel k n (unseen.erase c) level (next ++ lib.tree.superclasses c) := by
  have hc := h.here c List.mem_cons_self
  have hleft : ∀ b ∈ unseen.erase c, ∀ l, b ∈ c :: l → b ∈ l := by
    intro b hb l hmem
    exact List.mem_of_ne_of_mem (h.nodup.mem_erase_iff.mp hb).1 hmem
  have hsub : ∀ b ∈ unseen.erase c, b ∈ unseen := fun b hb => List.mem_of_mem_erase hb
  refine ⟨h.nodup.erase c, (List.forall_mem_cons.mp h.here).2, ?_, ?_, ?_, ?_⟩
  · intro b hb
    rcases List.mem_append.mp hb with hb | hb
    · exact h.beyond b hb
    · exact .base hc hb
  · exact fun b hb => h.far b (hsub b hb)
  · exact fun b hb hreached => hleft b hb _ (h.near b (hsub b hb) hreached)
  · intro m d hd hreached b hb hbase
    rw [← List.append_assoc]
    by_cases hdc : d = c
    · exact List.mem_append_right _ (hdc ▸ hbase)
    · have hd' : d ∉ unseen := fun hmem => hd ((List.mem_erase_of_ne hdc).mpr hmem)
      exact List.mem_append_left _ (hleft b hb _ (h.bases m d hd' hreached b (hsub b hb) hbase))

/-- What is pending first is at the front of some level. -/
theorem exists_front (h : lib.AtLevel k n unseen level next) {rest : List DeclId}
    (hpending : level ++ next = c :: rest) :
    ∃ n level next, lib.AtLevel k n unseen (c :: level) next ∧ level ++ next = rest := by
  cases level with
  | nil =>
    obtain rfl : next = c :: rest := hpending
    exact ⟨n + 1, rest, [], h.rotate, List.append_nil rest⟩
  | cons d level =>
    obtain ⟨rfl, rfl⟩ := List.cons.inj hpending
    exact ⟨n, level, next, h, rfl⟩

/-- From a level on, nearer classes are met first. -/
theorem pairwise (h : lib.AtLevel k n unseen level next) :
    (lib.ancestorsAmong unseen (level ++ next)).Pairwise
      fun a b => ∀ m, lib.ReachedIn k m b → lib.ReachedIn k m a := by
  generalize hpending : level ++ next = pending
  fun_induction lib.ancestorsAmong unseen pending generalizing n level next with
  | case1 unseen => exact .nil
  | case2 unseen c rest hc ih =>
    obtain ⟨n, level, next, h, rfl⟩ := h.exists_front hpending
    refine List.pairwise_cons.mpr ⟨?_, ih h.meet (List.append_assoc _ _ _).symm⟩
    intro b hb m hreached
    have hfar := h.far b (List.mem_of_mem_erase (ancestorsAmong_subset _ _ hb))
    -- What is met later is at least as far away as this level.
    have hle : n + 1 ≤ m := Nat.lt_of_not_le fun hle => hfar (hreached.mono hle)
    exact (h.here c List.mem_cons_self).mono hle
  | case3 unseen c rest hc ih =>
    obtain ⟨n, level, next, h, rfl⟩ := h.exists_front hpending
    exact ih (h.skip hc) rfl

end AtLevel

/-- **Nearer ancestors are met first.** What is met later is reached over no fewer bases. -/
theorem ancestors_nearest_first (lib : Library) (k : DeclId) :
    (lib.ancestors k).Pairwise fun a b => ∀ n, lib.ReachedIn k n b → lib.ReachedIn k n a := by
  have hstart : lib.AtLevel k 0 (lib.tree.ids.erase k) (lib.tree.superclasses k) [] := by
    have hne : ∀ b ∈ lib.tree.ids.erase k, b ≠ k :=
      fun b hb => (List.nodup_range.mem_erase_iff.mp hb).1
    refine ⟨List.nodup_range.erase k, fun b hb => .base (.self 0) hb, List.forall_mem_nil _, ?_,
      ?_, ?_⟩
    · intro b hb hreached
      cases hreached
      exact hne k hb rfl
    · intro b hb hreached
      cases hreached with
      | self _ => exact absurd rfl (hne k hb)
      | base hc hbase =>
        cases hc
        exact hbase
    · intro m c hc hreached b _ hbase
      rw [List.append_nil]
      cases hreached with
      | self _ => exact hbase
      | base _ hinherits =>
        -- Every class but `k` itself was unseen.
        by_contra hout
        refine hc (List.nodup_range.mem_erase_iff.mpr ⟨?_, hinherits.mem_ids⟩)
        rintro rfl
        exact hout hbase
  have hpairwise := hstart.pairwise
  rwa [List.append_nil] at hpairwise

end RubyBinding.Library
