import RubyBinding.Library
import RubyBinding.Proofs.Arena

/-!
# Libraries that edits lead to

A library is annotated by one `Edit` after the other, and an edit that is refused changes nothing.
Edits leave the tree alone. Of what they make of the list of moves, everything here follows from
two facts (`MovesSound`): a declaration is in the list at most once, and it went to a class or
namespace that is not declared in it. So *where did it go* and *what came here* are two views of one
relation (`mem_movedInto_iff`).
-/

namespace RubyBinding

/-- One thing that is said about a declaration. -/
inductive Edit where
  | ignore (i : DeclId)
  | rename (i : DeclId) (name : String)
  | addCustomCode (i : DeclId) (code : CustomCode)
  | keepOwnName (i : DeclId)
  | setInstanceMethod (i : DeclId)
  | moveTo (i owner : DeclId)
  | chooseSuperclass (i candidate : DeclId)
  | chooseCtor (i candidate : DeclId)
  deriving DecidableEq, Repr

namespace Edit

/-- The declarations that an edit names. -/
def ids : Edit → List DeclId
  | ignore i | rename i _ | addCustomCode i _ | keepOwnName i | setInstanceMethod i => [i]
  | moveTo i j | chooseSuperclass i j | chooseCtor i j => [i, j]

/-- Whether an edit speaks of declarations of a tree. -/
def InTree (t : DeclTree) (e : Edit) : Prop := ∀ i ∈ e.ids, i < t.size

instance (t : DeclTree) (e : Edit) : Decidable (e.InTree t) :=
  inferInstanceAs (Decidable (∀ i ∈ e.ids, i < t.size))

/-- The library after an edit, or why it was refused. -/
def apply (lib : Library) : Edit → Except AnnotationError Library
  | ignore i => .ok (lib.ignore i)
  | rename i name => .ok (lib.rename i name)
  | addCustomCode i code => .ok (lib.addCustomCode i code)
  | keepOwnName i => .ok (lib.keepOwnName i)
  | setInstanceMethod i => .ok (lib.setInstanceMethod i)
  | moveTo i owner => lib.moveTo i owner
  | chooseSuperclass i candidate => lib.chooseSuperclass i candidate
  | chooseCtor i candidate => lib.chooseCtor i candidate

end Edit

namespace Library

/-- A library of which nothing was said. -/
def ofTree (t : DeclTree) : Library := { tree := t }

/-- The library after an edit. One that is refused changes nothing. -/
def edit (lib : Library) (e : Edit) : Library :=
  match e.apply lib with
  | .ok edited => edited
  | .error _ => lib

/-- The library after some edits. -/
def edits (lib : Library) (es : List Edit) : Library := es.foldl edit lib

variable {lib moved : Library} {i j owner : DeclId} {es : List Edit}

@[simp]
theorem edits_cons (lib : Library) (e : Edit) (es : List Edit) :
    lib.edits (e :: es) = (lib.edit e).edits es := rfl

theorem edits_concat (lib : Library) (es : List Edit) (e : Edit) :
    lib.edits (es ++ [e]) = (lib.edits es).edit e := by
  rw [edits, List.foldl_append]
  rfl

/-! ## What an edit can change -/

/-- A successful move changes the list of moves and nothing else. -/
theorem moveTo_cases (h : lib.moveTo i owner = .ok moved) :
    lib.canOwn owner i ∧
      moved = { lib with moves := lib.moves.filter (fun m => m.1 != i) ++ [(i, owner)] } := by
  unfold moveTo at h
  split at h
  · cases h
  · split at h
    · cases h
    · next hown =>
      cases h
      refine ⟨?_, rfl⟩
      simpa using hown

theorem moveTo_eq_ok (hign : lib.isIgnored i = false) (hown : lib.canOwn owner i) :
    lib.moveTo i owner =
      .ok { lib with moves := lib.moves.filter (fun m => m.1 != i) ++ [(i, owner)] } := by
  unfold moveTo
  rw [hign, hown]
  rfl

/-- A base can only be chosen for a class that has it. -/
theorem chooseSuperclass_cases {chosen : Library} (h : lib.chooseSuperclass i j = .ok chosen) :
    j ∈ lib.tree.superclasses i ∧
      chosen = lib.amend i fun a => { a with superclass := some j } := by
  unfold chooseSuperclass at h
  split at h
  · next hmem =>
    cases h
    refine ⟨?_, rfl⟩
    simpa using hmem
  · cases h

/-- A constructor can only be chosen for the class that declares it. -/
theorem chooseCtor_cases {chosen : Library} (h : lib.chooseCtor i j = .ok chosen) :
    ((lib.tree.get j).kind.isCtor ∧ lib.tree.parent? j = some i) ∧
      chosen = lib.amend i fun a => { a with ctor := some j } := by
  unfold chooseCtor at h
  split at h
  · next hctor =>
    cases h
    refine ⟨?_, rfl⟩
    simpa using hctor
  · cases h

/-- An edit is a move that went well, or it leaves tree and moves alone. -/
theorem edit_cases (lib : Library) (e : Edit) :
    (∃ i owner, e = .moveTo i owner ∧ lib.moveTo i owner = .ok (lib.edit e)) ∨
      ((lib.edit e).tree = lib.tree ∧ (lib.edit e).moves = lib.moves) := by
  rcases hres : e.apply lib with err | edited
  · -- A refused edit gives back the library itself.
    have hedit : lib.edit e = lib := by rw [edit, hres]
    exact .inr ⟨by rw [hedit], by rw [hedit]⟩
  · have hedit : lib.edit e = edited := by rw [edit, hres]
    rw [hedit]
    cases e with
    | ignore i => cases hres; exact .inr ⟨rfl, rfl⟩
    | rename i name => cases hres; exact .inr ⟨rfl, rfl⟩
    | addCustomCode i code => cases hres; exact .inr ⟨rfl, rfl⟩
    | keepOwnName i => cases hres; exact .inr ⟨rfl, rfl⟩
    | setInstanceMethod i => cases hres; exact .inr ⟨rfl, rfl⟩
    | moveTo i owner => exact .inl ⟨i, owner, rfl, hres⟩
    | chooseSuperclass i candidate =>
      obtain ⟨-, rfl⟩ := chooseSuperclass_cases hres
      exact .inr ⟨rfl, rfl⟩
    | chooseCtor i candidate =>
      obtain ⟨-, rfl⟩ := chooseCtor_cases hres
      exact .inr ⟨rfl, rfl⟩

@[simp]
theorem edit_tree (lib : Library) (e : Edit) : (lib.edit e).tree = lib.tree := by
  rcases edit_cases lib e with ⟨i, owner, rfl, hm⟩ | ⟨htree, -⟩
  · obtain ⟨-, heq⟩ := moveTo_cases hm
    rw [heq]
  · exact htree

@[simp]
theorem edits_tree (lib : Library) (es : List Edit) : (lib.edits es).tree = lib.tree := by
  induction es generalizing lib with
  | nil => rfl
  | cons e es ih => rw [edits_cons, ih, edit_tree]

/-- Whatever each edit keeps holds after any number of them. -/
theorem edits_induction {P : Library → Prop} (h : P lib)
    (step : ∀ lib' e, e ∈ es → P lib' → P (lib'.edit e)) : P (lib.edits es) := by
  induction es generalizing lib with
  | nil => exact h
  | cons e es ih =>
    exact ih (step lib e List.mem_cons_self h) fun lib' e' he' =>
      step lib' e' (List.mem_cons_of_mem _ he')

/-! ## The list of moves -/

theorem canOwn_congr {other : Library} (h : other.tree = lib.tree) (owner i : DeclId) :
    other.canOwn owner i = lib.canOwn owner i := by
  unfold canOwn
  rw [h]

/-- What holds of the list of moves, however it came about. -/
structure MovesSound (lib : Library) : Prop where
  nodup : (lib.moves.map Prod.fst).Nodup
  lt_size : ∀ m ∈ lib.moves, m.2 < lib.tree.size
  canOwn : ∀ m ∈ lib.moves, lib.canOwn m.2 m.1

theorem MovesSound.ofTree (t : DeclTree) : MovesSound (ofTree t) where
  nodup := List.nodup_nil
  lt_size := fun _ h => nomatch h
  canOwn := fun _ h => nomatch h

/-- A list of moves stays sound when a declaration moves on. -/
theorem MovesSound.moveTo (h : MovesSound lib) (ho : owner < lib.tree.size)
    (hm : lib.moveTo i owner = .ok moved) : MovesSound moved := by
  obtain ⟨hown, rfl⟩ := moveTo_cases hm
  refine ⟨?_, ?_, ?_⟩
  · -- The declaration that moves is taken out before it is put at the end.
    rw [List.map_append, List.nodup_append]
    refine ⟨(List.filter_sublist.map _).nodup h.nodup, List.pairwise_singleton _ _, ?_⟩
    intro a ha b hb hab
    obtain ⟨m, hmem, rfl⟩ := List.mem_map.mp ha
    have hne := (List.mem_filter.mp hmem).2
    rw [hab, List.mem_singleton.mp hb] at hne
    simp at hne
  · intro m hmem
    rcases List.mem_append.mp hmem with hold | hnew
    · exact h.lt_size m (List.mem_filter.mp hold).1
    · rw [List.mem_singleton.mp hnew]
      exact ho
  · intro m hmem
    rcases List.mem_append.mp hmem with hold | hnew
    · exact h.canOwn m (List.mem_filter.mp hold).1
    · rw [List.mem_singleton.mp hnew]
      exact hown

theorem MovesSound.edit (h : MovesSound lib) {e : Edit} (he : e.InTree lib.tree) :
    MovesSound (lib.edit e) := by
  rcases edit_cases lib e with ⟨i, owner, rfl, hm⟩ | ⟨htree, hmoves⟩
  · exact h.moveTo (he owner (by simp [Edit.ids])) hm
  · refine ⟨?_, ?_, ?_⟩
    · rw [hmoves]
      exact h.nodup
    · rw [hmoves, htree]
      exact h.lt_size
    · intro m hmem
      rw [hmoves] at hmem
      rw [canOwn_congr htree]
      exact h.canOwn m hmem

/-- **The list of moves is sound after any edits.** -/
theorem MovesSound.edits {t : DeclTree} (hes : ∀ e ∈ es, e.InTree t) :
    MovesSound ((Library.ofTree t).edits es) := by
  have h : ((Library.ofTree t).edits es).tree = t ∧ MovesSound ((Library.ofTree t).edits es) := by
    refine edits_induction (P := fun lib => lib.tree = t ∧ MovesSound lib) ⟨rfl, .ofTree t⟩ ?_
    rintro lib e he ⟨htree, hsound⟩
    refine ⟨by rw [edit_tree, htree], hsound.edit ?_⟩
    rw [htree]
    exact hes e he
  exact h.2

/-! ## Where a declaration went, and what came to a class or namespace -/

theorem MovesSound.movedTo?_eq_some_iff (h : MovesSound lib) :
    lib.movedTo? i = some owner ↔ (i, owner) ∈ lib.moves := by
  have hnodup := h.nodup
  unfold movedTo?
  generalize lib.moves = moves at hnodup ⊢
  induction moves with
  | nil => simp
  | cons m ms ih =>
    rw [List.map_cons, List.nodup_cons] at hnodup
    obtain ⟨k, o⟩ := m
    by_cases hik : i = k
    · subst hik
      have hout : (i, owner) ∉ ms := fun hmem =>
        hnodup.1 (List.mem_map.mpr ⟨_, hmem, rfl⟩)
      simp [hout, eq_comm]
    · have hbeq : (i == k) = false := by simp [hik]
      simp [List.lookup_cons, hbeq, hik, ih hnodup.2]

theorem mem_movedInto : i ∈ lib.movedInto owner ↔ (i, owner) ∈ lib.moves := by
  simp [movedInto]

/-- What came to a class or namespace is what went there. -/
theorem MovesSound.mem_movedInto_iff (h : MovesSound lib) :
    i ∈ lib.movedInto owner ↔ lib.movedTo? i = some owner := by
  rw [mem_movedInto, h.movedTo?_eq_some_iff]

theorem MovesSound.movedInto_nodup (h : MovesSound lib) (owner : DeclId) :
    (lib.movedInto owner).Nodup :=
  (List.filter_sublist.map _).nodup h.nodup

/-- After a move, a declaration is where it went, and every other one where it was. -/
theorem movedTo?_moveTo (hm : lib.moveTo i owner = .ok moved) (j : DeclId) :
    moved.movedTo? j = if j = i then some owner else lib.movedTo? j := by
  obtain ⟨-, rfl⟩ := moveTo_cases hm
  simp only [movedTo?]
  generalize lib.moves = moves
  induction moves with
  | nil =>
    by_cases hj : j = i
    · simp [hj]
    · have hbeq : (j == i) = false := by simp [hj]
      simp [hj, List.lookup_cons, hbeq]
  | cons m ms ih =>
    obtain ⟨k, o⟩ := m
    by_cases hki : k = i
    · -- An earlier move of the same declaration is dropped.
      subst hki
      rw [List.filter_cons_of_neg (by simp), ih]
      by_cases hj : j = k
      · rw [if_pos hj, if_pos hj]
      · have hbeq : (j == k) = false := by simp [hj]
        rw [if_neg hj, if_neg hj, List.lookup_cons, hbeq]
    · rw [List.filter_cons_of_pos (by simp [hki]), List.cons_append, List.lookup_cons, ih,
        List.lookup_cons]
      by_cases hjk : j = k
      · have hji : j ≠ i := fun h => hki (hjk ▸ h)
        simp [hjk, hki]
      · have hbeq : (j == k) = false := by simp [hjk]
        rw [hbeq]

end Library

end RubyBinding
