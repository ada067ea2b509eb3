import Mathlib.Data.List.Nodup
import RubyBinding.Document
import RubyBinding.Proofs.Arena

/-!
# Walks through a tree

A declaration comes after the one around it, so every walk through a well-formed tree ends, whether
it goes towards the outside (`WellFormed.outwards`) or towards the inside (`WellFormed.inwards`).
The bounds that `scopes` and `toDocument` carry along are never met: both satisfy the equations that
they would have without them (`scopes_eq`, `qualifiedName_eq`, `toDocument_eq`). The document of the
global namespace lists each declaration once, in the order of `inside` (`heads_toDocument`,
`inside_root_perm`).
-/

namespace RubyBinding

/-! ## What a document lists -/

mutual

/-- The entries of a document, each before what is declared in it and without it. -/
def Document.heads : Document → List Document
  | ⟨name, kind, access, file, children⟩ =>
    ⟨name, kind, access, file, []⟩ :: Document.headsOf children

/-- The entries of several documents. -/
def Document.headsOf : List Document → List Document
  | [] => []
  | d :: ds => d.heads ++ Document.headsOf ds

end

theorem Document.headsOf_eq_flatMap (ds : List Document) :
    Document.headsOf ds = ds.flatMap Document.heads := by
  induction ds with
  | nil => rfl
  | cons d ds ih => rw [Document.headsOf, ih, List.flatMap_cons]

namespace DeclTree

/-- A declaration as an entry of a document. -/
def head (t : DeclTree) (i : DeclId) : Document :=
  let d := t.get i
  ⟨d.name, d.kind, d.access, d.file, []⟩

/-- A declaration and everything declared in it, each before what is declared in it. -/
def inside (t : DeclTree) (i : DeclId) : List DeclId :=
  i :: (t.children i).flatMap fun c => if _h : i < c ∧ c < t.size then inside t c else []
termination_by t.size - i
decreasing_by exact Nat.sub_lt_sub_left (Nat.lt_trans _h.1 _h.2) _h.1

variable {t : DeclTree} {i j p c : DeclId}

/-! ## Towards the outside -/

/-- Going from a declaration to the one around it ends. -/
theorem WellFormed.outwards (h : WellFormed t) : WellFounded fun p c => t.parent? c = some p :=
  Subrelation.wf (fun hp => h.parent_lt_of_eq hp) Nat.lt_wfRel.wf

theorem WellFormed.scopes_eq (h : WellFormed t) (i : DeclId) :
    t.scopes i = i :: (t.parent? i).elim [] t.scopes := by
  rw [scopes]
  cases hp : t.parent? i with
  | none => rfl
  | some p =>
    have hlt : p < i := h.parent_lt_of_eq hp
    simp only [hlt, ↓reduceIte, Option.elim_some]

theorem self_mem_scopes (t : DeclTree) (i : DeclId) : i ∈ t.scopes i := by
  rw [scopes]
  exact List.mem_cons_self

theorem WellFormed.mem_scopes_iff (h : WellFormed t) :
    j ∈ t.scopes i ↔ j = i ∨ ∃ p, t.parent? i = some p ∧ j ∈ t.scopes p := by
  rw [h.scopes_eq, List.mem_cons]
  cases t.parent? i with
  | none => simp
  | some p => simp

/-- The scopes around a declaration come before it. -/
theorem WellFormed.le_of_mem_scopes (h : WellFormed t) (hj : j ∈ t.scopes i) : j ≤ i := by
  induction i using h.outwards.induction with
  | _ i ih =>
    rcases h.mem_scopes_iff.mp hj with rfl | ⟨p, hp, hj⟩
    · exact Nat.le_refl _
    · exact Nat.le_trans (ih p hp hj) (Nat.le_of_lt (h.parent_lt_of_eq hp))

theorem WellFormed.mem_scopes_trans (h : WellFormed t) {k : DeclId} (hi : i ∈ t.scopes j)
    (hj : j ∈ t.scopes k) : i ∈ t.scopes k := by
  induction k using h.outwards.induction with
  | _ k ih =>
    rcases h.mem_scopes_iff.mp hj with rfl | ⟨p, hp, hj⟩
    · exact hi
    · exact h.mem_scopes_iff.mpr (.inr ⟨p, hp, ih p hp hj⟩)

/-- Of two scopes around a declaration, one is around the other. -/
theorem WellFormed.mem_scopes_or_mem_scopes (h : WellFormed t) {k : DeclId} (hj : j ∈ t.scopes i)
    (hk : k ∈ t.scopes i) : j ∈ t.scopes k ∨ k ∈ t.scopes j := by
  induction i using h.outwards.induction with
  | _ i ih =>
    rcases h.mem_scopes_iff.mp hj with rfl | ⟨p, hp, hjp⟩
    · exact .inr hk
    rcases h.mem_scopes_iff.mp hk with rfl | ⟨q, hq, hkq⟩
    · exact .inl hj
    rw [hp] at hq
    cases hq
    exact ih p hp hjp hkq

/-- No two members of a scope are around the same declaration. -/
theorem WellFormed.eq_of_mem_scopes (h : WellFormed t) {d : DeclId} (hc : t.parent? c = some p)
    (hd : t.parent? d = some p) (hci : c ∈ t.scopes i) (hdi : d ∈ t.scopes i) : c = d := by
  -- A member that is around another one would be around the scope they share.
  have hout : ∀ a b, t.parent? a = some p → t.parent? b = some p → a ∈ t.scopes b → a = b := by
    intro a b ha hb hab
    rcases h.mem_scopes_iff.mp hab with hab | ⟨q, hq, hab⟩
    · exact hab
    · rw [hb] at hq
      cases hq
      exact absurd (h.parent_lt_of_eq ha) (Nat.not_lt.mpr (h.le_of_mem_scopes hab))
  rcases h.mem_scopes_or_mem_scopes hci hdi with hcd | hdc
  · exact hout c d hc hd hcd
  · exact (hout d c hd hc hdc).symm

/-- The qualified name of a declaration is that of the scope around it and its own name. -/
theorem WellFormed.qualifiedName_eq (h : WellFormed t) (hp : t.parent? i = some p) :
    t.qualifiedName i =
      if p = root then (t.get i).name else t.qualifiedName p ++ "::" ++ (t.get i).name := by
  have hi : i ≠ root := by
    rintro rfl
    rw [h.parent_root] at hp
    cases hp
  have hpath : (t.scopes i).takeWhile (· != root) = i :: (t.scopes p).takeWhile (· != root) := by
    rw [h.scopes_eq, hp, Option.elim_some, List.takeWhile_cons_of_pos (by simpa using hi)]
  simp only [qualifiedName, if_neg hi, hpath, List.reverse_cons, List.map_append, List.map_cons,
    List.map_nil]
  by_cases hr : p = root
  · have hroot : (t.scopes root).takeWhile (· != root) = [] := by
      rw [h.scopes_eq, List.takeWhile_cons_of_neg (by simp)]
    rw [if_pos hr, hr, hroot]
    exact String.intercalate_singleton
  · have hne : ((t.scopes p).takeWhile (· != root)).reverse.map (fun j => (t.get j).name) ≠ [] := by
      rw [h.scopes_eq, List.takeWhile_cons_of_pos (by simpa using hr)]
      simp
    rw [if_neg hr, String.intercalate_append_of_ne_nil hne (List.cons_ne_nil _ _),
      String.intercalate_singleton, if_neg hr]

/-! ## Towards the inside -/

theorem WellFormed.lt_of_mem_children (h : WellFormed t) (hc : c ∈ t.children i) :
    i < c ∧ c < t.size := by
  have hp : t.parent? c = some i := (h.mem_children i c).mp hc
  exact ⟨h.parent_lt_of_eq hp, lt_size_of_parent hp⟩

/-- Going from a declaration to what is declared in it ends. -/
theorem WellFormed.inwards (h : WellFormed t) : WellFounded fun c p => c ∈ t.children p := by
  refine Subrelation.wf ?_ (InvImage.wf (fun i => t.size - i) Nat.lt_wfRel.wf)
  intro c p hc
  obtain ⟨hlt, hsize⟩ := h.lt_of_mem_children hc
  exact Nat.sub_lt_sub_left (Nat.lt_trans hlt hsize) hlt

theorem WellFormed.toDocument_eq (h : WellFormed t) (i : DeclId) :
    t.toDocument i =
      let d := t.get i
      ⟨d.name, d.kind, d.access, d.file, d.children.map t.toDocument⟩ := by
  rw [toDocument]
  have hmap : ((t.get i).children.filterMap fun c =>
      if _h : i < c ∧ c < t.size then some (t.toDocument c) else none) =
        (t.get i).children.map t.toDocument := by
    rw [← List.filterMap_eq_map]
    refine List.filterMap_congr fun c hc => ?_
    rw [dif_pos (h.lt_of_mem_children hc)]
    rfl
  simp only [hmap]

theorem WellFormed.inside_eq (h : WellFormed t) (i : DeclId) :
    t.inside i = i :: (t.children i).flatMap t.inside := by
  rw [inside]
  congr 1
  refine List.flatMap_congr fun c hc => ?_
  rw [dif_pos (h.lt_of_mem_children hc)]

/-- The document of a declaration has an entry for everything inside it. -/
theorem WellFormed.heads_toDocument (h : WellFormed t) (i : DeclId) :
    (t.toDocument i).heads = (t.inside i).map t.head := by
  induction i using h.inwards.induction with
  | _ i ih =>
    rw [h.toDocument_eq, h.inside_eq, Document.heads, Document.headsOf_eq_flatMap, List.map_cons,
      List.flatMap_map, List.map_flatMap]
    congr 1
    exact List.flatMap_congr fun c hc => ih c hc

/-- Whatever has its scope inside a declaration is inside it as well. -/
theorem WellFormed.mem_inside_of_parent (h : WellFormed t) (hp : t.parent? j = some p)
    (hi : p ∈ t.inside i) : j ∈ t.inside i := by
  induction i using h.inwards.induction with
  | _ i ih =>
    rw [h.inside_eq, List.mem_cons, List.mem_flatMap] at hi ⊢
    rcases hi with rfl | ⟨c, hc, hpc⟩
    · refine .inr ⟨j, (h.mem_children p j).mpr hp, ?_⟩
      rw [h.inside_eq]
      exact List.mem_cons_self
    · exact .inr ⟨c, hc, ih c hc hpc⟩

/-- What is inside a declaration is what the declaration is around. -/
theorem WellFormed.mem_inside_iff (h : WellFormed t) : j ∈ t.inside i ↔ i ∈ t.scopes j := by
  constructor
  · intro hj
    induction i using h.inwards.induction with
    | _ i ih =>
      rw [h.inside_eq, List.mem_cons, List.mem_flatMap] at hj
      rcases hj with rfl | ⟨c, hc, hj⟩
      · exact self_mem_scopes t j
      · have hp : t.parent? c = some i := (h.mem_children i c).mp hc
        have hic : i ∈ t.scopes c := h.mem_scopes_iff.mpr (.inr ⟨i, hp, self_mem_scopes t i⟩)
        exact h.mem_scopes_trans hic (ih c hc hj)
  · intro hi
    induction j using h.outwards.induction with
    | _ j ih =>
      rcases h.mem_scopes_iff.mp hi with rfl | ⟨p, hp, hi⟩
      · rw [h.inside_eq]
        exact List.mem_cons_self
      · exact h.mem_inside_of_parent hp (ih p hp hi)

/-- Nothing is inside a declaration twice. -/
theorem WellFormed.inside_nodup (h : WellFormed t) (i : DeclId) : (t.inside i).Nodup := by
  induction i using h.inwards.induction with
  | _ i ih =>
    rw [h.inside_eq, List.nodup_cons, List.nodup_flatMap]
    refine ⟨?_, ih, ?_⟩
    · intro hi
      obtain ⟨c, hc, hic⟩ := List.mem_flatMap.mp hi
      have hle : c ≤ i := h.le_of_mem_scopes (h.mem_inside_iff.mp hic)
      exact absurd (h.lt_of_mem_children hc).1 (Nat.not_lt.mpr hle)
    · -- What two members have inside, both are around, and so they are one.
      refine (h.children_nodup i).pairwise_of_forall_ne ?_
      intro c hc d hd hne j hjc hjd
      have hpc : t.parent? c = some i := (h.mem_children i c).mp hc
      have hpd : t.parent? d = some i := (h.mem_children i d).mp hd
      exact hne (h.eq_of_mem_scopes hpc hpd (h.mem_inside_iff.mp hjc) (h.mem_inside_iff.mp hjd))

/-- **Everything is inside the global namespace, once.** -/
theorem WellFormed.inside_root_perm (h : WellFormed t) : (t.inside root).Perm t.ids := by
  refine (List.perm_ext_iff_of_nodup (h.inside_nodup root) List.nodup_range).mpr fun j => ?_
  rw [h.mem_inside_iff, List.mem_range]
  constructor
  · intro hroot
    refine Nat.lt_of_not_le fun hle => ?_
    -- Beyond the array, nothing is around a position but itself.
    have hp : t.parent? j = none := by
      rw [parent?, get_of_size_le hle]
      rfl
    rcases h.mem_scopes_iff.mp hroot with rfl | ⟨p, hq, -⟩
    · exact absurd h.root_lt (Nat.not_lt.mpr hle)
    · rw [hp] at hq
      cases hq
  · exact h.root_mem_scopes

end DeclTree

end RubyBinding
