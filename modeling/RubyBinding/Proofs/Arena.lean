import RubyBinding.DeclTree

/-!
# The arena behind a tree of declarations

A `DeclTree` is an array in which scopes and declarations refer to each other by position, so most
arrays are no trees. `DeclTree.Built` are those that come about by declaring one thing after the
other; `DeclTree.WellFormed` is what every walk through a tree relies on, and what one declaration
more does not disturb (`WellFormed.add`):

* every declaration bears its own position;
* every declaration but the global namespace has a parent, which was there before it;
* the members of a scope are the declarations that have it as their parent, in order of creation.
-/

namespace RubyBinding.DeclTree

variable {t : DeclTree} {name : String} {kind : Kind} {i p c : DeclId}

/-! ## Reading a changed array -/

theorem get_of_size_le (h : t.size ≤ i) : t.get i = Decl.global := by
  unfold get
  rw [Array.getElem?_eq_none h]
  rfl

theorem get_empty (i : DeclId) : empty.get i = Decl.global := by
  cases i with
  | zero => rfl
  | succ n => exact get_of_size_le (Nat.le_add_left 1 n)

@[simp]
theorem size_add (t : DeclTree) (p : DeclId) (name : String) (kind : Kind) :
    (t.add p name kind).2.size = t.size + 1 := by
  simp [add, size]

/-- What one declaration more changes: its scope has a member more, and it is there itself. -/
theorem get_add (hp : p < t.size) (name : String) (kind : Kind) (i : DeclId) :
    (t.add p name kind).2.get i =
      if i = p then { t.get p with children := t.children p ++ [t.size] }
      else if i = t.size then { id := t.size, name, kind, parent := some p }
      else t.get i := by
  have hp' : p < t.decls.size := hp
  -- The new declaration is pushed first, and then its scope is changed, which is another one.
  simp only [add, get, children, Array.getElem?_modify, Array.getElem?_push]
  by_cases hip : i = p
  · subst hip
    have hne : i ≠ t.decls.size := Nat.ne_of_lt hp'
    simp [hne, hp', size]
  · have hpi : p ≠ i := fun h => hip h.symm
    rw [if_neg hip, if_neg hpi]
    by_cases his : i = t.size
    · have his' : i = t.decls.size := his
      rw [if_pos his, if_pos his']
      rfl
    · have his' : i ≠ t.decls.size := his
      rw [if_neg his, if_neg his']

/-! ## Trees that were built -/

/-- Trees that come about by declaring one thing after the other. -/
inductive Built : DeclTree → Prop
  | empty : Built empty
  | add {t : DeclTree} (h : Built t) {p : DeclId} (hp : p < t.size) (name : String) (kind : Kind) :
      Built (t.add p name kind).2
  | setAccess {t : DeclTree} (h : Built t) (i : DeclId) (access : Access) :
      Built (t.setAccess i access)
  | setFile {t : DeclTree} (h : Built t) (i : DeclId) (file : String) : Built (t.setFile i file)

/-- Opening a namespace keeps a tree built, whether it was there already or not. -/
theorem Built.nspace (h : Built t) (hp : p < t.size) (name : String) :
    Built (t.nspace p name).2 := by
  simp only [DeclTree.nspace]
  split
  · split
    · exact h.add hp name .nspace
    · exact h
  · exact h.add hp name .nspace

/-! ## The invariant -/

/-- What every walk through a tree relies on. -/
structure WellFormed (t : DeclTree) : Prop where
  id_get : ∀ i, i < t.size → (t.get i).id = i
  root_lt : root < t.size
  root_isNamespace : (t.get root).isNamespace
  parent_root : t.parent? root = none
  parent_lt : ∀ i, i < t.size → i ≠ root → ∃ p, p < i ∧ t.parent? i = some p
  mem_children : ∀ p c, c ∈ t.children p ↔ t.parent? c = some p
  children_sorted : ∀ p, (t.children p).Pairwise (· < ·)

theorem WellFormed.empty : WellFormed empty where
  id_get := by
    intro i hi
    rw [get_empty]
    exact (Nat.lt_one_iff.mp hi).symm
  root_lt := Nat.zero_lt_one
  root_isNamespace := rfl
  parent_root := rfl
  parent_lt := by
    intro i hi hne
    have h0 : i = 0 := Nat.lt_one_iff.mp hi
    exact absurd h0 hne
  mem_children := by
    intro p c
    simp [children, parent?, get_empty, Decl.global]
  children_sorted := by
    intro p
    simp [children, get_empty, Decl.global]

/-- What is declared in a scope has a place in the array. -/
theorem lt_size_of_parent (hc : t.parent? c = some p) : c < t.size := by
  refine Nat.lt_of_not_le fun hle => ?_
  rw [parent?, get_of_size_le hle] at hc
  cases hc

theorem WellFormed.parent_lt_of_eq (h : WellFormed t) (hc : t.parent? c = some p) : p < c := by
  have hne : c ≠ root := by
    intro hr
    rw [hr, h.parent_root] at hc
    cases hc
  obtain ⟨q, hq, hpar⟩ := h.parent_lt c (lt_size_of_parent hc) hne
  rw [hpar] at hc
  cases hc
  exact hq

theorem WellFormed.children_nodup (h : WellFormed t) (p : DeclId) : (t.children p).Nodup :=
  (h.children_sorted p).imp Nat.ne_of_lt

/-! ### One declaration more -/

theorem children_add (hp : p < t.size) (name : String) (kind : Kind) (i : DeclId) :
    (t.add p name kind).2.children i =
      if i = p then t.children p ++ [t.size] else if i = t.size then [] else t.children i := by
  rw [children, get_add hp]
  split
  · rfl
  · split <;> rfl

theorem parent?_add (hp : p < t.size) (name : String) (kind : Kind) (i : DeclId) :
    (t.add p name kind).2.parent? i = if i = t.size then some p else t.parent? i := by
  rw [parent?, get_add hp]
  by_cases hip : i = p
  · have hne : i ≠ t.size := hip ▸ Nat.ne_of_lt hp
    rw [if_pos hip, if_neg hne, hip]
    rfl
  · rw [if_neg hip]
    split <;> rfl

theorem WellFormed.add (h : WellFormed t) (hp : p < t.size) (name : String) (kind : Kind) :
    WellFormed (t.add p name kind).2 where
  id_get := by
    intro i hi
    rw [size_add] at hi
    rw [get_add hp]
    split
    · next hip => exact hip ▸ h.id_get p hp
    · split
      · next his => exact his.symm
      · next his => exact h.id_get i (Nat.lt_of_le_of_ne (Nat.le_of_lt_succ hi) his)
  root_lt := by
    rw [size_add]
    exact Nat.lt_succ_of_lt h.root_lt
  root_isNamespace := by
    rw [get_add hp]
    by_cases hr : root = p
    · rw [if_pos hr, ← hr]
      exact h.root_isNamespace
    · rw [if_neg hr, if_neg (Nat.ne_of_lt h.root_lt)]
      exact h.root_isNamespace
  parent_root := by
    rw [parent?_add hp, if_neg (Nat.ne_of_lt h.root_lt)]
    exact h.parent_root
  parent_lt := by
    intro i hi hne
    rw [size_add] at hi
    rw [parent?_add hp]
    by_cases his : i = t.size
    · exact ⟨p, his ▸ hp, if_pos his⟩
    · rw [if_neg his]
      exact h.parent_lt i (Nat.lt_of_le_of_ne (Nat.le_of_lt_succ hi) his) hne
  mem_children := by
    intro q d
    -- The new position is in no list yet, and nothing has it as its parent.
    have hnew : ∀ r, t.size ∉ t.children r := fun r hr =>
      Nat.lt_irrefl _ (lt_size_of_parent ((h.mem_children r t.size).mp hr))
    have hnone : ∀ e, t.parent? e ≠ some t.size := fun e he =>
      Nat.lt_asymm (h.parent_lt_of_eq he) (lt_size_of_parent he)
    have hd := h.mem_children q d
    have hps : t.size ≠ p := (Nat.ne_of_lt hp).symm
    rw [children_add hp, parent?_add hp]
    by_cases hds : d = t.size
    · subst hds
      by_cases hqp : q = p
      · simp [hqp]
      · have hpq : p ≠ q := fun h => hqp h.symm
        by_cases hqs : q = t.size
        · simp [hqs, hps, hps.symm]
        · simp [hqp, hqs, hpq, hnew]
    · by_cases hqp : q = p
      · subst hqp
        simp [hds, hd]
      · by_cases hqs : q = t.size
        · simp [hqs, hds, hnone, hps]
        · simp [hqp, hqs, hds, hd]
  children_sorted := by
    intro q
    rw [children_add hp]
    split
    · rw [List.pairwise_append]
      refine ⟨h.children_sorted p, List.pairwise_singleton _ _, ?_⟩
      intro d hd e he
      rw [List.mem_singleton.mp he]
      exact lt_size_of_parent ((h.mem_children p d).mp hd)
    · split
      · exact List.Pairwise.nil
      · exact h.children_sorted q

/-! ### Changes that leave every place as it is -/

/-- A tree with the same places is well formed with the other. -/
theorem WellFormed.of_same_places {u : DeclTree} (h : WellFormed t) (hsize : u.size = t.size)
    (hid : ∀ i, (u.get i).id = (t.get i).id) (hkind : ∀ i, (u.get i).kind = (t.get i).kind)
    (hparent : ∀ i, u.parent? i = t.parent? i) (hchildren : ∀ i, u.children i = t.children i) :
    WellFormed u where
  id_get := by
    intro i hi
    rw [hid]
    exact h.id_get i (hsize ▸ hi)
  root_lt := hsize ▸ h.root_lt
  root_isNamespace := by
    rw [Decl.isNamespace, hkind]
    exact h.root_isNamespace
  parent_root := by rw [hparent, h.parent_root]
  parent_lt := by
    intro i hi hne
    rw [hparent]
    exact h.parent_lt i (hsize ▸ hi) hne
  mem_children := by
    intro p c
    rw [hchildren, hparent]
    exact h.mem_children p c
  children_sorted := by
    intro p
    rw [hchildren]
    exact h.children_sorted p

/-- Reading after a change of one declaration that keeps what `f` reads. -/
theorem apply_get_modify {β : Type} (f : Decl → β) (change : Decl → Decl)
    (hf : ∀ d, f (change d) = f d) (t : DeclTree) (j i : DeclId) :
    f (DeclTree.get ⟨t.decls.modify j change⟩ i) = f (t.get i) := by
  simp only [get, Array.getElem?_modify]
  cases t.decls[i]? with
  | none => split <;> rfl
  | some d =>
    split
    · exact hf d
    · rfl

theorem WellFormed.modify (h : WellFormed t) (j : DeclId) (change : Decl → Decl)
    (hid : ∀ d, (change d).id = d.id) (hkind : ∀ d, (change d).kind = d.kind)
    (hparent : ∀ d, (change d).parent = d.parent)
    (hchildren : ∀ d, (change d).children = d.children) :
    WellFormed ⟨t.decls.modify j change⟩ :=
  h.of_same_places (by simp [size]) (apply_get_modify Decl.id change hid t j)
    (apply_get_modify Decl.kind change hkind t j)
    (apply_get_modify Decl.parent change hparent t j)
    (apply_get_modify Decl.children change hchildren t j)

/-- **Every tree that was built is well formed.** -/
theorem Built.wellFormed (h : Built t) : WellFormed t := by
  induction h with
  | empty => exact WellFormed.empty
  | add _ hp name kind ih => exact ih.add hp name kind
  | setAccess _ i access ih =>
    exact ih.modify i _ (fun _ => rfl) (fun _ => rfl) (fun _ => rfl) (fun _ => rfl)
  | setFile _ i file ih =>
    exact ih.modify i _ (fun _ => rfl) (fun _ => rfl) (fun _ => rfl) (fun _ => rfl)

/-! ## What the array lists -/

theorem toList_decls (t : DeclTree) : t.decls.toList = t.ids.map t.get := by
  refine List.ext_getElem (by simp [ids, size]) fun i hi _ => ?_
  have hi' : i < t.decls.size := hi
  simp [ids, get, hi']

theorem targetOf?_get {d : DeclId} (hd : (t.get d).id = d) :
    t.targetOf? (t.get d) = t.typedefTarget? d := by
  rw [targetOf?, hd]
  rfl

/-- Every declaration bears its own position, so the typedefs that are listed stand where they say. -/
theorem WellFormed.typedefsOf_eq (h : WellFormed t) (i : DeclId) :
    t.typedefsOf i = t.ids.filter fun d => t.typedefTarget? d = some i := by
  have hid : ∀ d ∈ t.ids, (t.get d).id = d := fun d hd => h.id_get d (List.mem_range.mp hd)
  have hsame : ∀ d ∈ t.ids,
      (decide (t.targetOf? (t.get d) = some i)) = decide (t.typedefTarget? d = some i) :=
    fun d hd => by rw [targetOf?_get (hid d hd)]
  rw [typedefsOf, toList_decls, List.filter_map, List.map_map, ← List.filter_congr hsame]
  exact (List.map_congr_left fun d hd => hid d (List.mem_filter.mp hd).1).trans (List.map_id' _)

/-! ## Walking outwards -/

/-- The walk towards the outside ends in the global namespace. -/
theorem WellFormed.root_mem_scopes (h : WellFormed t) (hi : i < t.size) : root ∈ t.scopes i := by
  induction i using Nat.strongRecOn with
  | ind i ih =>
    rw [scopes]
    by_cases hr : i = root
    · rw [hr]
      exact List.mem_cons_self
    · obtain ⟨p, hp, hpar⟩ := h.parent_lt i hi hr
      rw [hpar]
      simp only [hp, ↓reduceIte]
      exact List.mem_cons_of_mem _ (ih p hp (Nat.lt_trans hp hi))

end RubyBinding.DeclTree
