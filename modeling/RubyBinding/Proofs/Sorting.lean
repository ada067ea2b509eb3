import Mathlib
import RubyBinding.Proofs.Depths
import RubyBinding.Proofs.Edits

/-!
# Superclasses come first

Registrations are sorted by the depths of the classes that they are for. The sort fails where a
depth cannot be told (`exists_byDepth_eq_error_iff`). Else depths do not decrease along the sorted
registrations, and since a class is deeper than all that it inherits from, through any number of
classes that need not be registered themselves, what it inherits from comes before it
(`lt_of_transGen_extends`).
-/

namespace RubyBinding.Library

open Relation (ReflTransGen TransGen)

variable {α : Type} {lib : Library} {node : α → Option DeclId} {items sorted : List α}
  {i c s : DeclId}

/-- Only classes inherit from anything. -/
theorem MeetsCycle.isRecord (h : lib.MeetsCycle i) : (lib.tree.get i).isRecord := by
  obtain ⟨c, hc, hloop⟩ := h
  rcases ReflTransGen.cases_head hc with rfl | ⟨s, hs, -⟩
  · obtain ⟨s, hs, -⟩ := TransGen.head'_iff.mp hloop
    exact hs.1
  · exact hs.1

theorem exists_rank_iff {n : Option DeclId} :
    (∃ d, lib.rank n = .ok d) ↔ ∀ i, n = some i → ¬ lib.MeetsCycle i := by
  cases n with
  | none =>
    constructor
    · rintro - i ⟨⟩
    · exact fun _ => ⟨0, rfl⟩
  | some i =>
    constructor
    · rintro ⟨d, hd⟩ _ ⟨⟩ hcycle
      obtain ⟨c, hc⟩ := meetsCycle_iff.mp hcycle
      rw [rank, hc] at hd
      cases hd
    · intro h
      exact exists_depth (h i rfl)

/-- **Sorting fails exactly where something is registered for a class from which a cycle of
superclasses is reached.** -/
theorem exists_byDepth_eq_error_iff :
    (∃ e, lib.byDepth node items = .error e) ↔
      ∃ a ∈ items, ∃ i, node a = some i ∧ (lib.tree.get i).isRecord ∧ lib.MeetsCycle i := by
  constructor
  · rintro ⟨e, he⟩
    by_contra hnone
    have hranks : ∀ a ∈ items, ∃ d, lib.rank (node a) = .ok d := by
      intro a ha
      refine exists_rank_iff.mpr fun i hi hcycle => ?_
      exact hnone ⟨a, ha, i, hi, hcycle.isRecord, hcycle⟩
    rw [byDepth_eq_ok_iff.mpr ⟨hranks, rfl⟩] at he
    cases he
  · rintro ⟨a, ha, i, hi, -, hcycle⟩
    cases h : lib.byDepth node items with
    | error e => exact ⟨e, rfl⟩
    | ok sorted =>
      obtain ⟨hranks, -⟩ := byDepth_eq_ok_iff.mp h
      exact absurd hcycle (exists_rank_iff.mp (hranks a ha) i hi)

/-- Two registrations, with the positions at which they were made, one of which is sorted before the
other: it is less deep, or it is as deep and was made first. -/
def SortsBefore (lib : Library) (node : α → Option DeclId) (x y : α × Nat) : Prop :=
  ∃ d e, lib.rank (node x.1) = .ok d ∧ lib.rank (node y.1) = .ok e ∧ d ≤ e ∧ (d = e → x.2 < y.2)

/-- **The sort keeps all registrations, and it is stable.** -/
theorem exists_order_of_byDepth (h : lib.byDepth node items = .ok sorted) :
    ∃ order : List (α × Nat), order.Perm items.zipIdx ∧ sorted = order.map Prod.fst ∧
      order.Pairwise (lib.SortsBefore node) := by
  obtain ⟨hranks, rfl⟩ := byDepth_eq_ok_iff.mp h
  have hperm := positions_perm (fun a => lib.rankOf (node a)) items
  refine ⟨_, hperm, rfl, ?_⟩
  have hmem : ∀ x ∈ positions (fun a => lib.rankOf (node a)) items,
      ∃ d, lib.rank (node x.1) = .ok d := by
    intro x hx
    exact hranks x.1 (List.fst_mem_of_mem_zipIdx (hperm.mem_iff.mp hx))
  refine (positions_pairwise (fun a => lib.rankOf (node a)) items).imp_of_mem ?_
  intro x y hx hy hbefore
  obtain ⟨d, hd⟩ := hmem x hx
  obtain ⟨e, he⟩ := hmem y hy
  rw [Before, rankOf_of_rank hd, rankOf_of_rank he] at hbefore
  exact ⟨d, e, hd, he, by omega, by omega⟩

/-- Sorting neither loses nor doubles a registration. -/
theorem byDepth_perm (h : lib.byDepth node items = .ok sorted) : sorted.Perm items := by
  obtain ⟨order, hperm, rfl, -⟩ := exists_order_of_byDepth h
  have hfst := hperm.map Prod.fst
  rwa [List.zipIdx_map_fst] at hfst

/-- **A class comes after whatever it inherits from, directly or not.** -/
theorem lt_of_transGen_extends (h : lib.byDepth node items = .ok sorted) {j k : Nat} {a b : α}
    (ha : sorted[j]? = some a) (hb : sorted[k]? = some b) (hs : node a = some s)
    (hc : node b = some c) (hcs : TransGen lib.Extends c s) : j < k := by
  obtain ⟨hranks, -⟩ := byDepth_eq_ok_iff.mp h
  obtain ⟨d, hd⟩ := hranks b ((byDepth_perm h).mem_iff.mp (List.mem_of_getElem? hb))
  rw [hc] at hd
  obtain ⟨m, hm, hmd⟩ := depth_of_transGen hcs hd
  by_contra hle
  -- The superclass stands in the same place or behind, where nothing is less deep.
  rcases Nat.eq_or_lt_of_le (Nat.not_lt.mp hle) with heq | hlt
  · subst heq
    rw [ha] at hb
    cases hb
    cases hs.symm.trans hc
    cases hm.symm.trans hd
    exact Nat.lt_irrefl _ hmd
  · obtain ⟨order, -, rfl, hpairwise⟩ := exists_order_of_byDepth h
    rw [List.getElem?_map, Option.map_eq_some_iff] at ha hb
    obtain ⟨x, hx, rfl⟩ := ha
    obtain ⟨y, hy, rfl⟩ := hb
    obtain ⟨hj, rfl⟩ := List.getElem?_eq_some_iff.mp hx
    obtain ⟨hk, rfl⟩ := List.getElem?_eq_some_iff.mp hy
    obtain ⟨e, e', he, he', hee', -⟩ := List.pairwise_iff_getElem.mp hpairwise k j hk hj hlt
    rw [hc] at he
    rw [hs] at he'
    cases he.symm.trans hd
    cases he'.symm.trans hm
    omega

/-- **Registrations are sorted so that superclasses come first.** The sort fails exactly where
something is registered for a class from which a cycle of superclasses is reached. Else it gives all
registrations, each once, by increasing depth and those of one depth in the order in which they were
made; so that a class comes after all classes that it inherits from, whichever of them are
registered and in whatever order. -/
theorem byDepth_superclasses_first (lib : Library) (node : α → Option DeclId) (items : List α) :
    ((∃ e, lib.byDepth node items = .error e) ↔
      ∃ a ∈ items, ∃ i, node a = some i ∧ (lib.tree.get i).isRecord ∧ lib.MeetsCycle i) ∧
    ∀ sorted, lib.byDepth node items = .ok sorted →
      sorted.Perm items ∧
      (∃ order : List (α × Nat), order.Perm items.zipIdx ∧ sorted = order.map Prod.fst ∧
        order.Pairwise (lib.SortsBefore node)) ∧
      ∀ (j k : Nat) (a b : α) (c s : DeclId), sorted[j]? = some a → sorted[k]? = some b →
        node a = some s → node b = some c → TransGen lib.Extends c s → j < k := by
  refine ⟨exists_byDepth_eq_error_iff, fun sorted h => ?_⟩
  refine ⟨byDepth_perm h, exists_order_of_byDepth h, ?_⟩
  intro j k a b c s ha hb hs hc hcs
  exact lt_of_transGen_extends h ha hb hs hc hcs

/-- Three classes, each of which inherits from the one before it. -/
def lineage : DeclTree :=
  let t := (DeclTree.empty.add DeclTree.root "Shape" (.record false [])).2
  let t := (t.add DeclTree.root "Polygon" (.record false [⟨"Shape", .pub, false⟩])).2
  (t.add DeclTree.root "Square" (.record false [⟨"Polygon", .pub, false⟩])).2

/-- The third class comes after the first, though it was registered first and the second class is
not registered at all; what is registered for no class keeps its place before the first class. -/
theorem byDepth_superclasses_first_lineage :
    (Library.ofTree lineage).byDepth id [some 3, none, some 1] = .ok [none, some 1, some 3] ∧
      TransGen (Library.ofTree lineage).Extends 3 1 ∧
      ∀ j k : Nat, [none, some 1, some 3][j]? = some (some 1) →
        [none, some 1, some 3][k]? = some (some 3) → j < k := by
  have hsorted : (Library.ofTree lineage).byDepth id [some 3, none, some 1] =
      .ok [none, some 1, some 3] := by cbv
  have hextends : TransGen (Library.ofTree lineage).Extends 3 1 := by
    have hsquare : (Library.ofTree lineage).effectiveSuperclasses 3 = [2] := by cbv
    have hpolygon : (Library.ofTree lineage).effectiveSuperclasses 2 = [1] := by cbv
    have hfirst : (Library.ofTree lineage).Extends 3 2 := extends_iff.mpr ⟨rfl, by simp [hsquare]⟩
    exact .tail (.single hfirst) (extends_iff.mpr ⟨rfl, by simp [hpolygon]⟩)
  refine ⟨hsorted, hextends, fun j k hj hk => ?_⟩
  obtain ⟨-, -, hbefore⟩ := (byDepth_superclasses_first _ id _).2 _ hsorted
  exact hbefore j k _ _ 3 1 hj hk rfl rfl hextends

end RubyBinding.Library
