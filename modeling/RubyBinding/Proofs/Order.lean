import Mathlib.Data.List.Forall2
import Mathlib.Data.List.Nodup
import RubyBinding.Plan.Order
import RubyBinding.Proofs.Arena

/-!
# The order of registration

Parts are sorted by depth, and the sort is stable: `Library.positions` is the sorted list with the
position that each part had before, and what is in front of a part there has a smaller depth, or the
same depth and a smaller position (`positions_pairwise`). `Library.byDepth` fails if a depth cannot
be told and else gives this order (`byDepth_eq_ok_iff`). The depth of a class is told by those of its
superclasses (`depths_of_depth`).
-/

namespace RubyBinding

/-! ## Steps that can fail -/

/-- Whatever stands in the second list is related to an entry of the first. -/
theorem exists_of_forall₂ {α β : Type} {R : α → β → Prop} {as : List α} {bs : List β}
    (h : List.Forall₂ R as bs) {b : β} (hb : b ∈ bs) : ∃ a ∈ as, R a b := by
  induction h with
  | nil => cases hb
  | @cons a b' as bs hab _ ih =>
    rcases List.mem_cons.mp hb with rfl | hb
    · exact ⟨a, List.mem_cons_self, hab⟩
    · obtain ⟨a', ha', hab'⟩ := ih hb
      exact ⟨a', List.mem_cons_of_mem _ ha', hab'⟩

theorem bind_eq_ok_iff {α β ε : Type} {x : Except ε α} {f : α → Except ε β} {b : β} :
    (x >>= f) = .ok b ↔ ∃ a, x = .ok a ∧ f a = .ok b := by
  cases x with
  | error e =>
    constructor
    · rintro ⟨⟩
    · rintro ⟨a, ha, -⟩
      cases ha
  | ok a =>
    constructor
    · intro h
      exact ⟨a, rfl, h⟩
    · rintro ⟨a', ha', h⟩
      cases ha'
      exact h

theorem mapM_eq_ok_iff {α β ε : Type} {f : α → Except ε β} {l : List α} {bs : List β} :
    l.mapM f = .ok bs ↔ List.Forall₂ (fun a b => f a = .ok b) l bs := by
  induction l generalizing bs with
  | nil =>
    rw [List.mapM_nil, List.forall₂_nil_left_iff]
    constructor
    · rintro ⟨⟩
      rfl
    · rintro rfl
      rfl
  | cons a l ih =>
    rw [List.mapM_cons, List.forall₂_cons_left_iff]
    cases ha : f a with
    | error e =>
      constructor
      · rintro ⟨⟩
      · rintro ⟨b, bs', hb, -⟩
        cases hb
    | ok b =>
      cases hl : l.mapM f with
      | error e =>
        constructor
        · intro h
          cases h
        · rintro ⟨b', bs', -, hbs, -⟩
          rw [← ih, hl] at hbs
          cases hbs
      | ok bs' =>
        constructor
        · intro h
          cases h
          exact ⟨b, bs', rfl, ih.mp hl, rfl⟩
        · rintro ⟨b', bs'', hb, hbs, rfl⟩
          cases hb
          rw [← ih, hl] at hbs
          cases hbs
          rfl

/-- Steps that go well under a condition, and then give a certain thing, do so one after the other.
-/
theorem mapM_eq_ok_iff_map {α β ε : Type} {f : α → Except ε β} {P : α → Prop} {h : α → β}
    (hf : ∀ a b, f a = .ok b ↔ P a ∧ b = h a) {l : List α} {bs : List β} :
    l.mapM f = .ok bs ↔ (∀ a ∈ l, P a) ∧ bs = l.map h := by
  rw [mapM_eq_ok_iff]
  simp only [hf]
  rw [List.forall₂_and_left]
  refine and_congr_right fun _ => ?_
  constructor
  · intro hbs
    have heq : List.Forall₂ (fun b b' => b = b') bs (l.map h) := by
      rw [List.forall₂_map_right_iff]
      exact hbs.flip
    rw [List.forall₂_eq_eq_eq] at heq
    exact heq
  · rintro rfl
    rw [List.forall₂_map_right_iff, List.forall₂_same]
    exact fun _ _ => rfl

/-- Steps that fail one after the other fail as one of them does. -/
theorem exists_of_mapM_eq_error {α β ε : Type} {f : α → Except ε β} {l : List α} {e : ε}
    (h : l.mapM f = .error e) : ∃ a ∈ l, f a = .error e := by
  induction l with
  | nil => cases h
  | cons a l ih =>
    rw [List.mapM_cons] at h
    cases ha : f a with
    | error e' =>
      rw [ha] at h
      cases h
      exact ⟨a, List.mem_cons_self, ha⟩
    | ok b =>
      cases hl : l.mapM f with
      | error e' =>
        rw [ha, hl] at h
        cases h
        obtain ⟨c, hc, hfail⟩ := ih hl
        exact ⟨c, List.mem_cons_of_mem _ hc, hfail⟩
      | ok bs =>
        rw [ha, hl] at h
        cases h

/-! ## A stable sort -/

section Stable

variable {α : Type} (f : α → Nat)

/-- Of two things with positions, the one of smaller rank is first, or the one in front. -/
def Before (x y : α × Nat) : Prop := f x.1 < f y.1 ∨ f x.1 = f y.1 ∧ x.2 < y.2

instance (x y : α × Nat) : Decidable (Before f x y) :=
  inferInstanceAs (Decidable (f x.1 < f y.1 ∨ f x.1 = f y.1 ∧ x.2 < y.2))

theorem Before.trans {x y z : α × Nat} (h : Before f x y) (h' : Before f y z) : Before f x z := by
  unfold Before at *
  omega

theorem Before.irrefl (x : α × Nat) : ¬ Before f x x := by
  unfold Before
  omega

theorem Before.asymm {x y : α × Nat} (h : Before f x y) : ¬ Before f y x := by
  unfold Before at *
  omega

theorem before_or_before {x y : α × Nat} (h : x.2 ≠ y.2) : Before f x y ∨ Before f y x := by
  unfold Before
  omega

/-- A list sorted by rank, each entry with the position that it had before. -/
def positions (l : List α) : List (α × Nat) :=
  l.zipIdx.mergeSort (List.zipIdxLE fun a b => decide (f a ≤ f b))

theorem map_fst_positions (l : List α) :
    (positions f l).map Prod.fst = l.mergeSort fun a b => decide (f a ≤ f b) :=
  List.mergeSort_zipIdx

theorem positions_perm (l : List α) : (positions f l).Perm l.zipIdx :=
  List.mergeSort_perm _ _

theorem mem_map_fst_positions {l : List α} {a : α} : a ∈ (positions f l).map Prod.fst ↔ a ∈ l := by
  rw [map_fst_positions, List.mem_mergeSort]

/-- Whatever is in front of another thing is before it. -/
theorem positions_pairwise (l : List α) : (positions f l).Pairwise (Before f) := by
  have hsorted : (positions f l).Pairwise fun x y =>
      List.zipIdxLE (fun a b => decide (f a ≤ f b)) x y = true := by
    refine List.pairwise_mergeSort ?_ ?_ _
    · refine List.zipIdxLE_trans ?_
      intro a b c hab hbc
      simp only [decide_eq_true_eq] at *
      omega
    · refine List.zipIdxLE_total ?_
      intro a b
      simp only [Bool.or_eq_true, decide_eq_true_eq]
      omega
  -- Positions differ, so that a rank that is not greater is smaller, or the position is.
  have hdistinct : (positions f l).Pairwise fun x y => x.2 ≠ y.2 := by
    have hnodup : ((positions f l).map Prod.snd).Nodup := by
      refine ((positions_perm f l).map Prod.snd).nodup_iff.mpr ?_
      rw [List.zipIdx_map_snd]
      exact List.nodup_range'
    exact List.pairwise_map.mp hnodup
  refine (hsorted.and hdistinct).imp ?_
  rintro x y ⟨hle, hne⟩
  unfold List.zipIdxLE at hle
  unfold Before
  split at hle
  · split at hle
    · simp only [decide_eq_true_eq] at *
      omega
    · simp only [decide_eq_true_eq] at *
      omega
  · cases hle

theorem positions_map {β : Type} (g : β → α) (l : List β) :
    positions f (l.map g) = (positions (fun b => f (g b)) l).map (Prod.map g id) := by
  have hmap := List.map_mergeSort (l := l.zipIdx) (f := Prod.map g id)
    (r := List.zipIdxLE fun a b => decide (f (g a) ≤ f (g b)))
    (s := List.zipIdxLE fun a b => decide (f a ≤ f b)) (fun _ _ _ _ => rfl)
  rw [positions, List.zipIdx_map]
  exact hmap.symm

/-- What comes before a thing stands in front of it, and what comes after it behind. -/
theorem exists_positions_eq {l : List α} {x : α × Nat} (hx : x ∈ l.zipIdx) :
    ∃ front back, positions f l = front ++ x :: back ∧ (∀ y ∈ front, Before f y x) ∧
      ∀ y ∈ back, Before f x y := by
  obtain ⟨front, back, heq⟩ := List.append_of_mem ((positions_perm f l).mem_iff.mpr hx)
  have hpairwise := positions_pairwise f l
  rw [heq, List.pairwise_append, List.pairwise_cons] at hpairwise
  obtain ⟨-, ⟨hback, -⟩, hfront⟩ := hpairwise
  exact ⟨front, back, heq, fun y hy => hfront y hy x List.mem_cons_self, hback⟩

end Stable

namespace Library

variable {lib : Library}

/-! ## Sorting by depth -/

/-- The depth that something registered for a declaration is sorted by, where it can be told. -/
def rankOf (lib : Library) (node : Option DeclId) : Nat := (lib.rank node).toOption.getD 0

theorem rankOf_of_rank {node : Option DeclId} {n : Nat} (h : lib.rank node = .ok n) :
    lib.rankOf node = n := by
  rw [rankOf, h]
  rfl

/-- Sorting by depth fails only if some depth cannot be told. -/
theorem byDepth_eq_ok_iff {α : Type} {node : α → Option DeclId} {items sorted : List α} :
    lib.byDepth node items = .ok sorted ↔
      (∀ a ∈ items, ∃ n, lib.rank (node a) = .ok n) ∧
        sorted = (positions (fun a => lib.rankOf (node a)) items).map Prod.fst := by
  have hstep : ∀ a b, (do return (← lib.rank (node a), a)) = Except.ok b ↔
      (∃ n, lib.rank (node a) = .ok n) ∧ b = (lib.rankOf (node a), a) := by
    intro a b
    rw [bind_eq_ok_iff]
    constructor
    · rintro ⟨n, hn, hb⟩
      cases hb
      rw [rankOf_of_rank hn]
      exact ⟨⟨n, hn⟩, rfl⟩
    · rintro ⟨⟨n, hn⟩, rfl⟩
      rw [rankOf_of_rank hn]
      exact ⟨n, hn, rfl⟩
  have hsort : ((items.map fun a => (lib.rankOf (node a), a)).mergeSort
      fun a b => decide (a.1 ≤ b.1)).map Prod.snd =
        (positions (fun a => lib.rankOf (node a)) items).map Prod.fst := by
    have hmap := List.map_mergeSort (l := items) (f := fun a => (lib.rankOf (node a), a))
      (r := fun a b => decide (lib.rankOf (node a) ≤ lib.rankOf (node b)))
      (s := fun a b => decide (a.1 ≤ b.1)) (fun _ _ _ _ => rfl)
    rw [map_fst_positions, ← hmap, List.map_map]
    exact List.map_id _
  rw [byDepth, bind_eq_ok_iff]
  constructor
  · rintro ⟨ranked, hranked, h⟩
    obtain ⟨hall, rfl⟩ := (mapM_eq_ok_iff_map hstep).mp hranked
    cases h
    exact ⟨hall, hsort⟩
  · rintro ⟨hall, rfl⟩
    exact ⟨_, (mapM_eq_ok_iff_map hstep).mpr ⟨hall, rfl⟩, congrArg Except.ok hsort⟩

/-- What is sorted by depth may be looked at before or after. -/
theorem byDepth_map {α β : Type} (node : β → Option DeclId) (f : α → β) (items : List α) :
    lib.byDepth node (items.map f) =
      (lib.byDepth (fun a => node (f a)) items).map (List.map f) := by
  have hranked : ((items.map f).mapM fun b => do return (← lib.rank (node b), b)) =
      (items.mapM fun a => do return (← lib.rank (node (f a)), a)).map
        (List.map (Prod.map id f)) := by
    induction items with
    | nil => rfl
    | cons a items ih =>
      rw [List.map_cons, List.mapM_cons, List.mapM_cons, ih]
      cases lib.rank (node (f a)) with
      | error e => rfl
      | ok n =>
        cases items.mapM fun a => do return (← lib.rank (node (f a)), a) with
        | error e => rfl
        | ok ranked => rfl
  rw [byDepth, byDepth, hranked]
  cases items.mapM fun a => do return (← lib.rank (node (f a)), a) with
  | error e => rfl
  | ok ranked =>
    have hsort := List.map_mergeSort (l := ranked) (f := Prod.map id f)
      (r := fun a b => decide (a.1 ≤ b.1)) (s := fun a b => decide (a.1 ≤ b.1))
      (fun _ _ _ _ => rfl)
    refine congrArg Except.ok ?_
    rw [← hsort, List.map_map, List.map_map]
    rfl

theorem byDepth_congr {α : Type} {node node' : α → Option DeclId} {items : List α}
    (h : ∀ a ∈ items, node a = node' a) : lib.byDepth node items = lib.byDepth node' items := by
  have hpairs : ∀ f : α → Option DeclId, lib.byDepth f items =
      (lib.byDepth Prod.fst (items.map fun a => (f a, a))).map (List.map Prod.snd) := by
    intro f
    rw [byDepth_map]
    cases lib.byDepth f items with
    | error e => rfl
    | ok sorted =>
      refine congrArg Except.ok ?_
      rw [List.map_map]
      exact (List.map_id _).symm
  have hnodes : (items.map fun a => (node a, a)) = items.map fun a => (node' a, a) :=
    List.map_congr_left fun a ha => by rw [h a ha]
  rw [hpairs, hpairs, hnodes]

/-! ## Superclasses -/

/-- A depth that can be told is the same when there are more classes to look at. -/
theorem depthAmong_mono {unseen others : List DeclId} {i : DeclId} {n : Nat}
    (hu : unseen.Nodup) (hsub : ∀ j ∈ unseen, j ∈ others)
    (h : lib.depthAmong unseen i = .ok n) : lib.depthAmong others i = .ok n := by
  -- By induction on the number of classes to look at, as `depthAmong` goes.
  induction hk : unseen.length using Nat.strongRecOn generalizing unseen others i n with
  | ind k ih =>
    subst hk
    rw [depthAmong] at h ⊢
    split at h
    · next hrecord =>
      rw [if_pos hrecord]
      exact h
    · next hrecord =>
      rw [if_neg hrecord]
      split at h
      · next hi =>
        rw [dif_pos (hsub i hi)]
        cases habove : (lib.effectiveSuperclasses i).mapM fun s =>
            lib.depthAmong (unseen.erase i) s with
        | error e =>
          rw [habove] at h
          cases h
        | ok above =>
          have hmore : ((lib.effectiveSuperclasses i).mapM fun s =>
              lib.depthAmong (others.erase i) s) = .ok above := by
            rw [mapM_eq_ok_iff]
            refine (mapM_eq_ok_iff.mp habove).imp ?_
            intro s m hm
            refine ih _ ?_ (hu.erase i) ?_ hm rfl
            · have := List.length_erase_of_mem hi
              have := List.length_pos_of_mem hi
              omega
            · intro j hj
              obtain ⟨hji, hj⟩ := (List.Nodup.mem_erase_iff hu).mp hj
              exact (List.mem_erase_of_ne hji).mpr (hsub j hj)
          rw [habove] at h
          rw [hmore]
          exact h
      · cases h

/-- All depths can be told if those of the tree's own declarations can. -/
theorem exists_depth_of_all (lib : Library)
    (h : (lib.tree.ids.all fun i => (lib.depth i).toOption.isSome) = true) (i : DeclId) :
    ∃ n, lib.depth i = .ok n := by
  by_cases hi : i < lib.tree.size
  · have hsome := List.all_eq_true.mp h i (List.mem_range.mpr hi)
    cases hdepth : lib.depth i with
    | error e =>
      rw [hdepth] at hsome
      cases hsome
    | ok n => exact ⟨n, rfl⟩
  · refine ⟨0, ?_⟩
    rw [depth, depthAmong, DeclTree.get_of_size_le (Nat.le_of_not_lt hi)]
    rfl

/-- The depth of a class is one more than the greatest depth of a superclass, or zero if there is
none. -/
theorem depths_of_depth {c : DeclId} {n : Nat} (hc : (lib.tree.get c).isRecord)
    (h : lib.depth c = .ok n) :
    ∃ above, List.Forall₂ (fun s m => lib.depth s = .ok m) (lib.effectiveSuperclasses c) above ∧
      n = (above.map (· + 1)).foldl max 0 := by
  unfold depth at h
  rw [depthAmong, hc] at h
  split at h
  · next hfalse => cases hfalse
  · split at h
    · obtain ⟨above, habove, hn⟩ := bind_eq_ok_iff.mp h
      cases hn
      refine ⟨above, (mapM_eq_ok_iff.mp habove).imp fun s m hm => ?_, rfl⟩
      exact depthAmong_mono (List.nodup_range.erase c) (fun _ hj => List.mem_of_mem_erase hj) hm
    · cases h

end Library

end RubyBinding
