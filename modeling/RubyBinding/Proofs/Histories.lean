import RubyBinding.Proofs.Headers

/-!
# Trees and what was done to them

A history of a tree is a list of steps: declarations, documents that are entered, headers that are
read, and the rest that the interface offers. Whatever it is, the tree is an arena in which all walks
end (`IsArena`), and its namespaces are merged unless one was declared past `nspace`.
-/

namespace RubyBinding

namespace DeclTree

variable {t u : DeclTree} {name : String} {kind : Kind} {p : DeclId}

/-! ## Sequences of changes -/

/-- What can be done to a tree. -/
inductive Step where
  /-- Start over. -/
  | fresh
  | add (parent : DeclId) (name : String) (kind : Kind)
  | nspace (parent : DeclId) (name : String)
  | insert (parent : DeclId) (d : Document)
  | setAccess (i : DeclId) (access : Access)
  | setFile (i : DeclId) (file : String)
  /-- Take the tree of a text instead. A text that is no document is refused. -/
  | load (text : String)
  /-- Read a header, whatever it was divided into. -/
  | readHeader (path : String) (parsed : Header.Parsed)

namespace Step

/-- The tree after a step. -/
def apply (t : DeclTree) : Step → DeclTree
  | fresh => .empty
  | add p name kind => (t.add p name kind).2
  | nspace p name => (t.nspace p name).2
  | insert p d => (t.insert p d).2
  | setAccess i access => t.setAccess i access
  | setFile i file => t.setFile i file
  | load text => (read? text).getD t
  | readHeader path parsed => Header.enter t path parsed.items

/-- The scopes that a step declares something in. -/
def parents : Step → List DeclId
  | add p _ _ | nspace p _ | insert p _ => [p]
  | _ => []

/-- Whether a step opens namespaces, and does not declare them as if they were new. -/
def Tidy : Step → Prop
  | add _ _ kind => kind.isNamespace = false
  | _ => True

end Step

/-- The tree after some steps. -/
def after (t : DeclTree) (steps : List Step) : DeclTree := steps.foldl Step.apply t

/-- Whether every step declares in scopes that are there when its turn comes. -/
def Valid : DeclTree → List Step → Prop
  | _, [] => True
  | t, s :: steps => (∀ p ∈ s.parents, p < t.size) ∧ Valid (s.apply t) steps

instance Valid.decidable : (t : DeclTree) → (steps : List Step) → Decidable (Valid t steps)
  | _, [] => .isTrue trivial
  | t, s :: steps =>
    have := Valid.decidable (s.apply t) steps
    inferInstanceAs (Decidable ((∀ p ∈ s.parents, p < t.size) ∧ Valid (s.apply t) steps))

/-- A tree that was read has grown out of the empty one. -/
theorem grown_of_read? {text : String} (h : read? text = some t) : Grown empty t := by
  obtain ⟨d, -, rfl⟩ := Option.map_eq_some_iff.mp h
  exact Grown.insertAll .empty Nat.zero_lt_one d.children

/-- A step grows the tree or starts over, unless it declares a namespace that may be there already
or notes something at the global namespace. -/
theorem grown_of_step (ht : Built t) {s : Step} (hs : ∀ p ∈ s.parents, p < t.size) :
    Grown t (s.apply t) ∨ Grown empty (s.apply t) ∨
      (∃ p name, p < t.size ∧ s = .add p name .nspace) ∨
      (∃ access, s = .setAccess root access) ∨ ∃ file, s = .setFile root file := by
  cases s with
  | fresh => exact .inr (.inl .refl)
  | add p name kind =>
    have hp : p < t.size := hs p List.mem_cons_self
    cases kind with
    | nspace => exact .inr (.inr (.inl ⟨p, name, hp, rfl⟩))
    | _ => exact .inl (Grown.refl.add hp name rfl)
  | nspace p name => exact .inl (Grown.refl.nspace (hs p List.mem_cons_self) name)
  | insert p d => exact .inl (Entered.insert ht (hs p List.mem_cons_self) d).grown
  | setAccess i access =>
    by_cases hi : i = root
    · exact .inr (.inr (.inr (.inl ⟨access, by rw [hi]⟩)))
    · exact .inl (Grown.refl.setAccess hi access)
  | setFile i file =>
    by_cases hi : i = root
    · exact .inr (.inr (.inr (.inr ⟨file, by rw [hi]⟩)))
    · exact .inl (Grown.refl.setFile hi file)
  | load text =>
    rw [Step.apply]
    cases hread : read? text with
    | none => exact .inl .refl
    | some u => exact .inr (.inl (grown_of_read? hread))
  | readHeader path parsed => exact .inl (Header.grown_enter ht path parsed)

theorem Built.step (ht : Built t) {s : Step} (hs : ∀ p ∈ s.parents, p < t.size) :
    Built (s.apply t) := by
  rcases grown_of_step ht hs with h | h | ⟨p, name, hp, rfl⟩ | ⟨access, rfl⟩ | ⟨file, rfl⟩
  · exact h.built ht
  · exact h.built .empty
  · exact ht.add hp name .nspace
  · exact ht.setAccess root access
  · exact ht.setFile root file

theorem NamespacesMerged.step (hm : NamespacesMerged t) (ht : Built t) {s : Step}
    (hs : ∀ p ∈ s.parents, p < t.size) (htidy : s.Tidy) : NamespacesMerged (s.apply t) := by
  rcases grown_of_step ht hs with h | h | ⟨p, name, hp, rfl⟩ | ⟨access, rfl⟩ | ⟨file, rfl⟩
  · exact h.namespacesMerged ht hm
  · exact h.namespacesMerged .empty .empty
  · cases htidy
  · exact hm.modify root _ (fun _ => rfl) (fun _ => rfl) (fun _ => rfl)
  · exact hm.modify root _ (fun _ => rfl) (fun _ => rfl) (fun _ => rfl)

theorem Built.after (ht : Built t) {steps : List Step} (hv : Valid t steps) :
    Built (t.after steps) := by
  induction steps generalizing t with
  | nil => exact ht
  | cons s steps ih => exact ih (ht.step hv.1) hv.2

theorem NamespacesMerged.after (hm : NamespacesMerged t) (ht : Built t) {steps : List Step}
    (hv : Valid t steps) (htidy : ∀ s ∈ steps, s.Tidy) : NamespacesMerged (t.after steps) := by
  induction steps generalizing t with
  | nil => exact hm
  | cons s steps ih =>
    obtain ⟨hs, hrest⟩ := List.forall_mem_cons.mp htidy
    exact ih (hm.step ht hv.1 hs) (ht.step hv.1) hv.2 hrest

/-! ## Arenas -/

/-- An array of declarations in which positions serve as identities and every walk ends. -/
structure IsArena (t : DeclTree) : Prop extends WellFormed t where
  /-- What is declared next stands at the position that is returned for it. -/
  position : ∀ p < t.size, ∀ name kind, (t.add p name kind).1 = t.size ∧
    (t.add p name kind).2.get t.size = { id := t.size, name, kind, parent := some p }
  root_name : (t.get root).name = ""
  root_only : ∀ i < t.size, t.parent? i = none ↔ i = root
  outwards : WellFounded fun p c => t.parent? c = some p
  /-- The walk to the outside, of qualified names and of name resolution, has no bound to meet, and
  it ends in the global namespace. -/
  scopes_eq : ∀ i, t.scopes i = i :: (t.parent? i).elim [] t.scopes
  root_mem_scopes : ∀ i < t.size, root ∈ t.scopes i
  qualifiedName_eq : ∀ i p, t.parent? i = some p → t.qualifiedName i =
    if p = root then (t.get i).name else t.qualifiedName p ++ "::" ++ (t.get i).name
  inwards : WellFounded fun c p => c ∈ t.children p
  /-- Nor has the recursion that takes documents out of the tree. -/
  toDocument_eq : ∀ i, t.toDocument i =
    let d := t.get i
    ⟨d.name, d.kind, d.access, d.file, d.children.map t.toDocument⟩
  /-- The document of the global namespace has one entry for each declaration. -/
  listing : (t.toDocument root).heads = (t.inside root).map t.head ∧ (t.inside root).Perm t.ids

theorem Built.root_name (h : Built t) : (t.get root).name = "" := by
  induction h with
  | empty => rfl
  | @add t ht p hp name kind ih =>
    have hne : root ≠ t.size := Nat.ne_of_lt ht.wellFormed.root_lt
    rw [apply_get_add Decl.name (fun _ _ => rfl) hp, if_neg hne]
    exact ih
  | setAccess _ i access ih =>
    exact (apply_get_modify Decl.name (fun d => { d with access }) (fun _ => rfl) _ i root).trans ih
  | setFile _ i file ih =>
    exact (apply_get_modify Decl.name (fun d => { d with file := some file }) (fun _ => rfl) _ i
      root).trans ih

theorem Built.isArena (ht : Built t) : IsArena t where
  toWellFormed := ht.wellFormed
  position := by
    intro p hp name kind
    refine ⟨rfl, ?_⟩
    rw [get_add hp, if_neg (Nat.ne_of_gt hp), if_pos rfl]
  root_name := ht.root_name
  root_only := by
    intro i hi
    constructor
    · intro hnone
      refine Decidable.byContradiction fun hne => ?_
      obtain ⟨p, -, hp⟩ := ht.wellFormed.parent_lt i hi hne
      rw [hnone] at hp
      cases hp
    · rintro rfl
      exact ht.wellFormed.parent_root
  outwards := ht.wellFormed.outwards
  scopes_eq := ht.wellFormed.scopes_eq
  root_mem_scopes := fun _ hi => ht.wellFormed.root_mem_scopes hi
  qualifiedName_eq := fun _ _ => ht.wellFormed.qualifiedName_eq
  inwards := ht.wellFormed.inwards
  toDocument_eq := ht.wellFormed.toDocument_eq
  listing := ⟨ht.wellFormed.heads_toDocument root, ht.wellFormed.inside_root_perm⟩

/-- **Whatever is done to a tree, it stays an arena.** Only scopes have to be named that are there.
Where namespaces are opened and not declared, they are merged as well. -/
theorem isArena_after {steps : List Step} (hv : Valid empty steps) :
    IsArena (empty.after steps) ∧
      ((∀ s ∈ steps, s.Tidy) → NamespacesMerged (empty.after steps)) :=
  ⟨(Built.after .empty hv).isArena, NamespacesMerged.empty.after .empty hv⟩

/-- The tree of the declaration of a function without a result and without parameters, whose lexemes
begin at a position. -/
def functionFrom (start : Nat) : Header.Tree :=
  .part .declaration start (start + 5) [
    .part .typeSpecifier start (start + 1) [.token .primitive start (start + 1)],
    .part (.declarator .plain) (start + 1) (start + 4) [
      .part (.function .plain) (start + 1) (start + 4) [
        .part (.declarator .plain) (start + 1) (start + 2) [.token .word (start + 1) (start + 2)],
        .part .parameters (start + 2) (start + 4) [
          .token (.literal "(") (start + 2) (start + 3),
          .token (.literal ")") (start + 3) (start + 4)]]],
    .token (.literal ";") (start + 4) (start + 5)]

/-- Two functions, with something between them that follows no rule. -/
def garbledHeader : Header.Parsed where
  lexemes := #[⟨"", "void", .word⟩, ⟨" ", "f", .word⟩, ⟨"", "(", .mark⟩, ⟨"", ")", .mark⟩,
    ⟨"", ";", .mark⟩, ⟨" ", "@@@", .mark⟩, ⟨" ", "void", .word⟩, ⟨" ", "g", .word⟩,
    ⟨"", "(", .mark⟩, ⟨"", ")", .mark⟩, ⟨"", ";", .mark⟩]
  trees := [functionFrom 0, .part .garbled 5 6 [], functionFrom 6]

/-- What does not follow the grammar does not keep what stands around it from being read. -/
example : garbledHeader.items.length = 2 := by
  cbv

/-- Every kind of step once. -/
def eachStep : List Step :=
  [.fresh, .nspace root "a", .add 1 "C" (.record false []), .nspace root "a",
    .insert root ⟨"a", .nspace, .prot, some "a.h", [⟨"f", .function .void [], .pub, none, []⟩]⟩,
    .setAccess 2 .priv, .setFile 2 "c.h", .readHeader "d.h" garbledHeader,
    .load "\x7b\x7d"]

theorem isArena_after_eachStep :
    Valid empty eachStep ∧ (∀ s ∈ eachStep, s.Tidy) ∧ IsArena (empty.after eachStep) ∧
      NamespacesMerged (empty.after eachStep) := by
  have hv : Valid empty eachStep := by decide +kernel
  have htidy : ∀ s ∈ eachStep, s.Tidy := by simp [eachStep, Step.Tidy, Kind.isNamespace]
  exact ⟨hv, htidy, (isArena_after hv).1, (isArena_after hv).2 htidy⟩

end DeclTree

end RubyBinding
