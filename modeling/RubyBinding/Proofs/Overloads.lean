import RubyBinding.Config
import RubyBinding.Proofs.Lookups
import RubyBinding.Proofs.Order
import RubyBinding.Proofs.Requests

/-!
# Overload sets

The overloads of a function are found by printing its qualified name and looking that up again. So
they are what is declared beside it under its name, of whatever kind, if the printed name is read
back (`DeclTree.ReadsBack`); and if it is not, the function is not even one of its own overloads
(`Library.OverloadsSpec`). What is configured for a function is said of all of its overloads, and of
nothing else (`Library.Noted`).
-/

namespace RubyBinding

namespace DeclTree

variable {t : DeclTree} {i j p scope : DeclId} {path : List String}

/-! ## Reading names back -/

/-- The qualified name of a declaration is cut into the names on the way to it again. -/
structure ReadsBack (t : DeclTree) (i : DeclId) : Prop where
  nonempty : Text.trim (dropGlobal (t.qualifiedName i).toList) ≠ []
  segments : DeclTree.segments (Text.trim (dropGlobal (t.qualifiedName i).toList)) = t.pathTo i

/-- Names without blanks around them and without colons are read back. -/
theorem ReadsBack.of_isSegment (hne : t.pathTo i ≠ []) (hi : i ≠ root)
    (h : ∀ name ∈ t.pathTo i, IsSegment name) : t.ReadsBack i := by
  obtain ⟨hnonempty, htrim⟩ := trim_intercalate hne h
  have hdrop := dropGlobal_eq_self (after?_intercalate hne h)
  rw [← qualifiedName_eq_intercalate hi] at hnonempty htrim hdrop
  refine ⟨?_, ?_⟩
  · rwa [hdrop, htrim]
  · rw [hdrop, htrim, qualifiedName_eq_intercalate hi]
    exact segments_intercalate hne h

/-- What a path leads to is all that is declared in one scope under one name. -/
theorem WellFormed.follow_eq_named (h : WellFormed t) (hne : path ≠ [])
    (hi : i ∈ t.follow scope path) :
    ∃ p, t.parent? i = some p ∧ t.follow scope path = t.named p (t.get i).name := by
  fun_induction follow t scope path with
  | case1 scope => exact absurd rfl hne
  | case2 scope last =>
    obtain ⟨hp, hname⟩ := h.mem_named.mp hi
    exact ⟨scope, hp, by rw [hname]⟩
  | case3 scope s rest hrest next hnext ih => exact ih (fun hnil => hrest hnil) hi
  | case4 scope s rest hrest hnext => cases hi

/-- Two declarations of one scope with one name. -/
def Siblings (t : DeclTree) (i j : DeclId) : Prop :=
  t.parent? j = t.parent? i ∧ (t.get j).name = (t.get i).name

/-- A declaration that a text leads to is reached by the names on the way to it, and so are all its
siblings. -/
theorem WellFormed.mem_follow_pathTo (h : WellFormed t) (hi : i ≠ root) {text : List Char}
    (hfound : i ∈ t.lookupFrom root text) :
    t.pathTo i = segments (Text.trim text) ∧
      ∀ j, j ∈ t.follow root (t.pathTo i) ↔ t.Siblings i j := by
  have htext : Text.trim text ≠ [] := by
    intro hnil
    rw [lookupFrom, hnil] at hfound
    exact hi (List.mem_singleton.mp hfound)
  obtain ⟨hpath, hfollow⟩ := h.pathTo_of_mem_lookupFrom htext hfound
  obtain ⟨p, hp, hnamed⟩ := h.follow_eq_named (hpath ▸ segments_ne_nil _) hfollow
  refine ⟨hpath, fun j => ?_⟩
  rw [hnamed, h.mem_named, Siblings, hp]

end DeclTree

namespace Library

variable {lib next : Library} {i j : DeclId} {word name : String} {p : Kind → Bool}

theorem of_find_eq_ok (h : lib.find word p name = .ok i) :
    i ∈ lib.tree.lookupAll name ∧ p (lib.tree.get i).kind := by
  unfold find at h
  split at h
  · cases h
  · split at h
    next hfound =>
      cases h
      have hkind := List.find?_some hfound
      exact ⟨List.mem_of_find?_eq_some hfound, hkind⟩
    · cases h

/-- What a name leads to depends on the tree only. -/
theorem find_eq_of_tree (h : next.tree = lib.tree) (word : String) (p : Kind → Bool)
    (name : String) : next.find word p name = lib.find word p name := by
  rw [find, find, h]

theorem root_kind (hw : lib.tree.WellFormed) : (lib.tree.get DeclTree.root).kind = .nspace := by
  have hroot : (lib.tree.get DeclTree.root).kind.isNamespace := hw.root_isNamespace
  cases hkind : (lib.tree.get DeclTree.root).kind with
  | nspace => rfl
  | _ =>
    rw [hkind] at hroot
    cases hroot

/-! ## Overloads -/

/-- The overloads of a declaration are declarations of its kind, and it is one of them. -/
structure KeepsKind (lib : Library) (p : Kind → Bool) (i : DeclId) : Prop where
  self : i ∈ lib.overloads i
  kinds : ∀ j ∈ lib.overloads i, p (lib.tree.get j).kind

/-- What the overloads of a declaration are, if its kind satisfies `p`. -/
structure OverloadsSpec (lib : Library) (p : Kind → Bool) (i : DeclId) : Prop where
  kind : p (lib.tree.get i).kind
  self_iff : i ∈ lib.overloads i ↔ lib.tree.ReadsBack i
  readsBack : (∀ name ∈ lib.tree.pathTo i, DeclTree.IsSegment name) → lib.tree.ReadsBack i
  mem_iff : lib.tree.ReadsBack i → ∀ j, j ∈ lib.overloads i ↔ lib.tree.Siblings i j
  /-- Overloads stay within their kind if the name is read back and nothing of another kind has it
  in the same scope. -/
  keepsKind_iff : lib.KeepsKind p i ↔
    lib.tree.ReadsBack i ∧ ∀ j, lib.tree.Siblings i j → p (lib.tree.get j).kind

theorem overloads_eq_follow (h : lib.tree.ReadsBack i) :
    lib.overloads i = lib.tree.follow DeclTree.root (lib.tree.pathTo i) := by
  rw [overloads, DeclTree.lookupAll, DeclTree.lookupFrom, h.segments, if_neg]
  simpa using h.nonempty

theorem overloadsSpec_of_find (hw : lib.tree.WellFormed) (hp : p .nspace = false)
    (hfind : lib.find word p name = .ok i) : lib.OverloadsSpec p i := by
  obtain ⟨hfound, hkind⟩ := of_find_eq_ok hfind
  have hi : i ≠ DeclTree.root := by
    rintro rfl
    rw [root_kind hw, hp] at hkind
    cases hkind
  obtain ⟨hpath, hsiblings⟩ := hw.mem_follow_pathTo hi hfound
  have hne : lib.tree.pathTo i ≠ [] := hpath ▸ DeclTree.segments_ne_nil _
  have hmem : lib.tree.ReadsBack i → ∀ j, j ∈ lib.overloads i ↔ lib.tree.Siblings i j :=
    fun h j => overloads_eq_follow h ▸ hsiblings j
  -- Whatever the printed name leads to has the segments of that name on the way to it.
  have hself : i ∈ lib.overloads i ↔ lib.tree.ReadsBack i := by
    refine ⟨fun h => ⟨?_, (hw.mem_follow_pathTo hi h).1.symm⟩, fun h => (hmem h i).mpr ⟨rfl, rfl⟩⟩
    intro hnil
    rw [overloads, DeclTree.lookupAll, DeclTree.lookupFrom, hnil] at h
    exact hi (List.mem_singleton.mp h)
  refine ⟨hkind, hself, .of_isSegment hne hi, hmem, ?_⟩
  constructor
  · intro h
    have hread := hself.mp h.self
    exact ⟨hread, fun j hj => h.kinds j ((hmem hread j).mpr hj)⟩
  · rintro ⟨hread, h⟩
    exact ⟨hself.mpr hread, fun j hj => h j ((hmem hread j).mp hj)⟩

/-! ## Wishes about functions -/

/-- One library is another with changed notes on some declarations. -/
structure Renoted (lib next : Library) (f : DeclId → Annotation → Annotation)
    (about : List DeclId) : Prop where
  tree : next.tree = lib.tree
  moves : next.moves = lib.moves
  note : ∀ j, next.note j = f j (lib.note j)
  /-- What the change is not about has no new note, not even a blank one. -/
  rest : ∀ j, j ∉ about → next.notes.lookup j = lib.notes.lookup j

namespace Renoted

variable {mid : Library} {f f' : DeclId → Annotation → Annotation} {is is' : List DeclId}

theorem refl (lib : Library) (is : List DeclId) : Renoted lib lib (fun _ a => a) is :=
  ⟨rfl, rfl, fun _ => rfl, fun _ _ => rfl⟩

theorem amend (lib : Library) (i : DeclId) (g : Annotation → Annotation) :
    Renoted lib (lib.amend i g) (fun j a => if j = i then g a else a) [i] where
  tree := rfl
  moves := rfl
  note j := by
    rw [note_amend]
    split
    next hj => rw [hj]
    next => rfl
  rest j hj := by
    have hne : j ≠ i := fun heq => hj (heq ▸ List.mem_singleton_self j)
    rw [Library.amend, lookup_amendNotes, if_neg hne]

theorem trans (h : Renoted lib mid f is) (h' : Renoted mid next f' is') :
    Renoted lib next (fun j a => f' j (f j a)) (is ++ is') where
  tree := h'.tree.trans h.tree
  moves := h'.moves.trans h.moves
  note j := by rw [h'.note, h.note]
  rest j hj := by
    obtain ⟨hj, hj'⟩ := not_or.mp (mt List.mem_append.mpr hj)
    rw [h'.rest j hj', h.rest j hj]

theorem congr (h : Renoted lib next f is) (hf : ∀ j a, f j a = f' j a) :
    Renoted lib next f' is :=
  ⟨h.tree, h.moves, fun j => (h.note j).trans (hf j _), h.rest⟩

end Renoted

end Library

namespace DeclConfig

open Library (Renoted)

variable {lib next : Library} {k : DeclConfig} {ks : List DeclConfig}

/-- What a wish makes of the note on a declaration. -/
def noted (k : DeclConfig) (a : Annotation) : Annotation :=
  if k.ignore then { a with isIgnored := true }
  else match k.rename with
    | some name => { a with rename := some name }
    | none => a

/-- The declarations that a wish about a function is about. -/
def targets (lib : Library) (k : DeclConfig) : List DeclId :=
  match lib.findFunction k.name with
  | .ok i => lib.overloads i
  | .error _ => []

/-- A wish that comes true twice has come true once. -/
theorem noted_noted (k : DeclConfig) (a : Annotation) : k.noted (k.noted a) = k.noted a := by
  unfold noted
  split
  · rfl
  · split <;> rfl

theorem renoted_apply (k : DeclConfig) (lib : Library) (i : DeclId) :
    Renoted lib (k.apply lib i) (fun j a => if j = i then k.noted a else a) [i] := by
  unfold apply noted
  split
  · exact .amend lib i _
  · cases k.rename with
    | some name => exact .amend lib i _
    | none => exact (Renoted.refl lib [i]).congr fun j a => (ite_self a).symm

/-- What a wish makes of the notes on some declarations. -/
theorem renoted_foldl (k : DeclConfig) (is : List DeclId) (lib : Library) :
    Renoted lib (is.foldl k.apply lib) (fun j a => if j ∈ is then k.noted a else a) is := by
  induction is generalizing lib with
  | nil => exact (Renoted.refl lib []).congr fun j a => (if_neg List.not_mem_nil).symm
  | cons i is ih =>
    refine ((renoted_apply k lib i).trans (ih _)).congr fun j a => ?_
    -- A declaration may be named more than once.
    by_cases hj : j = i
    · by_cases hmem : j ∈ is
      · simp [hj ▸ hmem, hj, noted_noted]
      · simp [hj ▸ hmem, hj]
    · simp [hj]

/-- A wish about a function comes true if there is the function. -/
theorem applyToFunction_eq_ok_iff :
    k.applyToFunction lib = .ok next ↔
      ∃ i, lib.findFunction k.name = .ok i ∧ (lib.overloads i).foldl k.apply lib = next := by
  unfold applyToFunction
  rw [bind_eq_ok_iff]
  refine exists_congr fun i => and_congr_right fun _ => ?_
  exact ⟨Except.ok.inj, congrArg Except.ok⟩

theorem renoted_applyToFunction (h : k.applyToFunction lib = .ok next) :
    Renoted lib next (fun j a => if j ∈ k.targets lib then k.noted a else a) (k.targets lib) := by
  obtain ⟨i, hfind, rfl⟩ := applyToFunction_eq_ok_iff.mp h
  have htargets : k.targets lib = lib.overloads i := by rw [targets, hfind]
  rw [htargets]
  exact renoted_foldl k _ lib

/-- Which declarations a wish is about depends on the tree only. -/
theorem targets_eq_of_tree (h : next.tree = lib.tree) (k : DeclConfig) :
    k.targets next = k.targets lib := by
  have hoverloads : next.overloads = lib.overloads := by
    funext i
    rw [Library.overloads, Library.overloads, h]
  rw [targets, targets, Library.findFunction, Library.findFunction,
    Library.find_eq_of_tree h, hoverloads]

/-- **What wishes about functions make of a library.** Each changes the notes on its targets, in the
order of the wishes, and nothing else changes. -/
theorem renoted_foldlM (h : ks.foldlM applyToFunction lib = .ok next) :
    Renoted lib next
      (fun j a => (ks.filter fun k => j ∈ k.targets lib).foldl (fun a k => k.noted a) a)
      (ks.flatMap fun k => k.targets lib) := by
  induction ks generalizing lib with
  | nil =>
    cases h
    exact .refl _ []
  | cons k ks ih =>
    rw [List.foldlM_cons] at h
    obtain ⟨mid, hstep, hrest⟩ := bind_eq_ok_iff.mp h
    have hone := renoted_applyToFunction hstep
    have hmore := ih hrest
    simp only [targets_eq_of_tree hone.tree] at hmore
    refine (hone.trans hmore).congr fun j a => ?_
    by_cases hj : j ∈ k.targets lib
    · simp [hj]
    · simp [hj]

/-- Wishes come true if each is about a function that there is. -/
theorem foldlM_isOk_iff (ks : List DeclConfig) (lib : Library) :
    (∃ next, ks.foldlM applyToFunction lib = .ok next) ↔
      ∀ k ∈ ks, ∃ i, lib.findFunction k.name = .ok i := by
  induction ks generalizing lib with
  | nil => exact ⟨fun _ => List.forall_mem_nil _, fun _ => ⟨lib, rfl⟩⟩
  | cons k ks ih =>
    have hrest : ∀ mid, k.applyToFunction lib = .ok mid →
        ((∃ next, ks.foldlM applyToFunction mid = .ok next) ↔
          ∀ k ∈ ks, ∃ i, lib.findFunction k.name = .ok i) := by
      intro mid hstep
      have hfind : mid.findFunction = lib.findFunction :=
        funext (Library.find_eq_of_tree (renoted_applyToFunction hstep).tree _ _)
      rw [ih mid, hfind]
    rw [List.forall_mem_cons, List.foldlM_cons]
    constructor
    · rintro ⟨next, h⟩
      obtain ⟨mid, hstep, h⟩ := bind_eq_ok_iff.mp h
      obtain ⟨i, hi, -⟩ := applyToFunction_eq_ok_iff.mp hstep
      exact ⟨⟨i, hi⟩, (hrest mid hstep).mp ⟨next, h⟩⟩
    · rintro ⟨⟨i, hi⟩, h⟩
      have hstep := applyToFunction_eq_ok_iff.mpr ⟨i, hi, rfl⟩
      obtain ⟨next, hnext⟩ := (hrest _ hstep).mpr h
      exact ⟨next, bind_eq_ok_iff.mpr ⟨_, hstep, hnext⟩⟩

end DeclConfig

namespace Library

open DeclTree (overloadTree overloadTree_built)

variable {lib : Library}

/-- **Overloads, and what is said about them.** A function or method that a name leads to is one of
its overloads if its qualified name is read back, and they all are of its kind if in addition
nothing of another kind has its name in its scope. Wishes about functions come true if there are the
functions; they change the notes on the overloads of these and nothing else, and so on functions
only if the overloads stay within their kind. -/
theorem overloads_keepKind_iff (hw : lib.tree.WellFormed) :
    (∀ name i, lib.findFunction name = .ok i → lib.OverloadsSpec Kind.isFunction i) ∧
    (∀ name i, lib.findMethod name = .ok i → lib.OverloadsSpec Kind.isMethod i) ∧
    ∀ ks : List DeclConfig,
      ((∃ next, ks.foldlM DeclConfig.applyToFunction lib = .ok next) ↔
        ∀ k ∈ ks, ∃ i, lib.findFunction k.name = .ok i) ∧
      ∀ next, ks.foldlM DeclConfig.applyToFunction lib = .ok next →
        Renoted lib next
          (fun j a => (ks.filter fun k => j ∈ k.targets lib).foldl (fun a k => k.noted a) a)
          (ks.flatMap fun k => k.targets lib) ∧
        ((∀ k ∈ ks, ∀ i, lib.findFunction k.name = .ok i → lib.KeepsKind Kind.isFunction i) →
          ∀ j, (lib.tree.get j).kind.isFunction = false →
            next.notes.lookup j = lib.notes.lookup j) := by
  refine ⟨fun _ _ => overloadsSpec_of_find hw rfl, fun _ _ => overloadsSpec_of_find hw rfl,
    fun ks => ⟨DeclConfig.foldlM_isOk_iff ks lib, fun next h => ?_⟩⟩
  have hrenoted := DeclConfig.renoted_foldlM h
  refine ⟨hrenoted, fun hkinds j hj => hrenoted.rest j fun hmem => ?_⟩
  obtain ⟨k, hk, hmem⟩ := List.mem_flatMap.mp hmem
  obtain ⟨i, hfind⟩ := (DeclConfig.foldlM_isOk_iff ks lib).mp ⟨next, h⟩ k hk
  rw [DeclConfig.targets, hfind] at hmem
  rw [(hkinds k hk i hfind).kinds j hmem] at hj
  cases hj

/-- The overloads of a method of the class are methods. -/
theorem keepsKind_overloadTree :
    overloadTree.WellFormed ∧ (ofTree overloadTree).KeepsKind Kind.isMethod 4 := by
  have hw : (ofTree overloadTree).tree.WellFormed := overloadTree_built.wellFormed
  have hfind : (ofTree overloadTree).findMethod "geo::Shape::area" = .ok 4 := by cbv
  have hpath : overloadTree.pathTo 4 = ["geo", "Shape", "area"] := by cbv
  have hparent : overloadTree.parent? 4 = some 3 := by cbv
  have hchildren : overloadTree.children 3 = [4, 5, 6] := by cbv
  have hmethods : ∀ j ∈ [4, 5, 6], (overloadTree.get j).kind.isMethod := by decide
  obtain ⟨-, hmethod, -⟩ := overloads_keepKind_iff hw
  have hspec := hmethod _ _ hfind
  refine ⟨hw, hspec.keepsKind_iff.mpr ⟨hspec.readsBack ?_, ?_⟩⟩
  · rw [ofTree, hpath]
    decide
  · rintro j ⟨hj, -⟩
    have hmem : j ∈ overloadTree.children 3 := (hw.mem_children 3 j).mpr (hj.trans hparent)
    exact hmethods j (hchildren ▸ hmem)

/-- A class and a function of one name, as system headers have them. -/
def statTree : DeclTree :=
  let t := (DeclTree.empty.add DeclTree.root "stat" (.record true [])).2
  (t.add DeclTree.root "stat" (.function (.named "int") [])).2

theorem statTree_built : statTree.Built := .add (.add .empty (by decide) _ _) (by decide) _ _

/-- The class is taken for an overload of the function, and is ignored with it. -/
theorem not_keepsKind_stat :
    statTree.WellFormed ∧ (ofTree statTree).findFunction "stat" = .ok 2 ∧
      (ofTree statTree).overloads 2 = [1, 2] ∧ (statTree.get 1).isRecord ∧
      ¬ (ofTree statTree).KeepsKind Kind.isFunction 2 ∧
      ∃ next, DeclConfig.applyToFunction (ofTree statTree) { name := "stat", ignore := true } =
        .ok next ∧ next.isIgnored 1 := by
  have hfind : (ofTree statTree).findFunction "stat" = .ok 2 := by cbv
  have hoverloads : (ofTree statTree).overloads 2 = [1, 2] := by cbv
  refine ⟨statTree_built.wellFormed, hfind, hoverloads, by cbv, fun h => ?_, ?_⟩
  · have hclass := h.kinds 1 (hoverloads ▸ List.mem_cons_self)
    cases hclass
  · refine ⟨_, DeclConfig.applyToFunction_eq_ok_iff.mpr ⟨2, hfind, rfl⟩, ?_⟩
    rw [hoverloads]
    rfl

end Library

end RubyBinding
