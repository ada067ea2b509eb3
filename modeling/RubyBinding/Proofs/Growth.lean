import RubyBinding.Document.Reader
import RubyBinding.Proofs.Walks

/-!
# Trees as they grow

A tree is filled by declaring things one by one, by entering node documents and by reading headers.
Whatever the last two do comes down to the first (`Grown`): `Entered.insert` follows the recursion of
the documents, as `Proofs/Headers` follows that of the header syntax, and what is said about a tree
need only be shown for the four ways to change it. So a scope has one namespace of a name unless one
was declared past `nspace` (`NamespacesMerged`).
-/

namespace RubyBinding

namespace DeclTree

variable {t u v : DeclTree} {name : String} {kind : Kind} {p : DeclId}

/-! ## What a tree grows into -/

/-- What a tree may become when namespaces are opened by `nspace` only, and the global namespace is
given neither an access level nor a file. -/
inductive Grown (t : DeclTree) : DeclTree → Prop
  | refl : Grown t t
  | add {u : DeclTree} (h : Grown t u) {p : DeclId} (hp : p < u.size) (name : String) {kind : Kind}
      (hkind : kind.isNamespace = false) : Grown t (u.add p name kind).2
  | nspace {u : DeclTree} (h : Grown t u) {p : DeclId} (hp : p < u.size) (name : String) :
      Grown t (u.nspace p name).2
  | setAccess {u : DeclTree} (h : Grown t u) {i : DeclId} (hi : i ≠ root) (access : Access) :
      Grown t (u.setAccess i access)
  | setFile {u : DeclTree} (h : Grown t u) {i : DeclId} (hi : i ≠ root) (file : String) :
      Grown t (u.setFile i file)

theorem Grown.trans (htu : Grown t u) (huv : Grown u v) : Grown t v := by
  induction huv with
  | refl => exact htu
  | add _ hp name hkind ih => exact ih.add hp name hkind
  | nspace _ hp name ih => exact ih.nspace hp name
  | setAccess _ hi access ih => exact ih.setAccess hi access
  | setFile _ hi file ih => exact ih.setFile hi file

theorem Grown.built (h : Grown t u) (ht : Built t) : Built u := by
  induction h with
  | refl => exact ht
  | add _ hp name _ ih => exact ih.add hp name _
  | nspace _ hp name ih => exact ih.nspace hp name
  | setAccess _ _ access ih => exact ih.setAccess _ access
  | setFile _ _ file ih => exact ih.setFile _ file

@[simp]
theorem size_setAccess (t : DeclTree) (i : DeclId) (access : Access) :
    (t.setAccess i access).size = t.size := by
  simp [setAccess, size]

@[simp]
theorem size_setFile (t : DeclTree) (i : DeclId) (file : String) :
    (t.setFile i file).size = t.size := by
  simp [setFile, size]

/-- Opening a namespace finds one of the scope, or declares one as `add` does. -/
theorem nspace_cases (t : DeclTree) (p : DeclId) (name : String) :
    (∃ c ∈ t.children p, (t.get c).isNamespace ∧ (t.get c).name = name ∧ name ≠ "" ∧
      t.nspace p name = (c, t)) ∨
    ((name ≠ "" → ∀ c ∈ t.children p, (t.get c).isNamespace → (t.get c).name ≠ name) ∧
      t.nspace p name = t.add p name .nspace) := by
  simp only [nspace]
  split
  next c hfind =>
    by_cases hname : name = ""
    · exact .inr ⟨fun h => absurd hname h, by rw [if_pos (by rw [hname]; rfl)]⟩
    · have hc := List.find?_some hfind
      simp only [Bool.and_eq_true, beq_iff_eq] at hc
      have hempty : ¬name.isEmpty := by rwa [String.isEmpty_iff]
      exact .inl ⟨c, List.mem_of_find?_eq_some hfind, hc.1, hc.2, hname, by rw [if_neg hempty]⟩
  next hfind =>
    refine .inr ⟨fun _ c hc hns hcname => ?_, rfl⟩
    have hnot := List.find?_eq_none.mp hfind c hc
    simp [hns, hcname] at hnot

theorem size_le_nspace (t : DeclTree) (p : DeclId) (name : String) :
    t.size ≤ (t.nspace p name).2.size := by
  rcases nspace_cases t p name with ⟨c, -, -, -, -, h⟩ | ⟨-, h⟩
  · exact Nat.le_of_eq (by rw [h])
  · rw [h, size_add]
    exact Nat.le_succ _

/-- Nothing is ever taken out of a tree. -/
theorem Grown.size_le (h : Grown t u) : t.size ≤ u.size := by
  induction h with
  | refl => exact Nat.le_refl _
  | add _ _ _ _ ih => exact Nat.le_trans ih (by rw [size_add]; exact Nat.le_succ _)
  | nspace _ _ name ih => exact Nat.le_trans ih (size_le_nspace _ _ name)
  | setAccess _ _ _ ih => rwa [size_setAccess]
  | setFile _ _ _ ih => rwa [size_setFile]

theorem Grown.lt_size (h : Grown t u) (hp : p < t.size) : p < u.size :=
  Nat.lt_of_lt_of_le hp h.size_le

/-- A scope of a tree is one of what the tree grows into, so that steps within it follow each
other. -/
theorem Grown.then (htu : Grown t u) (hp : p < t.size) (huv : p < u.size → Grown u v) :
    Grown t v :=
  htu.trans (huv (htu.lt_size hp))

/-! ## What returns a position -/

/-- A tree has grown, and the position that comes with it is in the tree and not the first. -/
structure Entered (t : DeclTree) (r : DeclId × DeclTree) : Prop where
  grown : Grown t r.2
  lt_size : r.1 < r.2.size
  ne_root : r.1 ≠ root

theorem Entered.add (hp : p < t.size) (name : String) (hkind : kind.isNamespace = false) :
    Entered t (t.add p name kind) where
  grown := Grown.refl.add hp name hkind
  lt_size := by
    rw [size_add]
    exact Nat.lt_succ_self _
  ne_root := Nat.ne_zero_of_lt hp

theorem Entered.nspace (h : Built t) (hp : p < t.size) (name : String) :
    Entered t (t.nspace p name) where
  grown := Grown.refl.nspace hp name
  lt_size := by
    rcases nspace_cases t p name with ⟨c, hc, -, -, -, heq⟩ | ⟨-, heq⟩
    · rw [heq]
      exact (h.wellFormed.lt_of_mem_children hc).2
    · rw [heq, size_add]
      exact Nat.lt_succ_self _
  ne_root := by
    rcases nspace_cases t p name with ⟨c, hc, -, -, -, heq⟩ | ⟨-, heq⟩
    · rw [heq]
      exact Nat.ne_zero_of_lt (h.wellFormed.lt_of_mem_children hc).1
    · rw [heq]
      exact Nat.ne_zero_of_lt hp

/-- What happens behind a position that was entered leaves it in the tree. -/
theorem Entered.then {r : DeclId × DeclTree} (h : Entered t r) (hu : Grown r.2 u) :
    Entered t (r.1, u) where
  grown := h.grown.trans hu
  lt_size := hu.lt_size h.lt_size
  ne_root := h.ne_root

/-! ## Node documents -/

theorem Grown.adopt (t : DeclTree) {i : DeclId} (hi : i ≠ root) (access : Access)
    (file : Option String) : Grown t (t.adopt i access file) := by
  have haccess : Grown t (if access = .pub then t else t.setAccess i access) := by
    split
    · exact Grown.refl
    · exact Grown.refl.setAccess hi access
  cases file with
  | none => exact haccess
  | some f => exact haccess.setFile hi f

theorem Entered.declare (h : Built t) (hp : p < t.size) (name : String) (kind : Kind) :
    Entered t (t.declare p name kind) := by
  cases kind with
  | nspace => exact Entered.nspace h hp name
  | _ => exact Entered.add hp name rfl

mutual

theorem Entered.insert {t : DeclTree} {p : DeclId} (h : Built t) (hp : p < t.size) :
    (d : Document) → Entered t (t.insert p d)
  | ⟨name, kind, access, file, children⟩ => by
    rw [DeclTree.insert]
    have hdecl : Entered t (t.declare p name kind) := Entered.declare h hp name kind
    have hadopt := hdecl.then (Grown.adopt _ hdecl.ne_root access file)
    exact hadopt.then (Grown.insertAll (hadopt.grown.built h) hadopt.lt_size children)

theorem Grown.insertAll {t : DeclTree} {p : DeclId} (h : Built t) (hp : p < t.size) :
    (ds : List Document) → Grown t (t.insertAll p ds)
  | [] => by
    rw [DeclTree.insertAll]
    exact Grown.refl
  | d :: ds => by
    rw [DeclTree.insertAll]
    have hd : Entered t (t.insert p d) := Entered.insert h hp d
    exact hd.grown.then hp fun hp' => Grown.insertAll (hd.grown.built h) hp' ds

end

/-! ## One namespace of a name -/

/-- No scope has two namespaces of one name, but for those without a name. -/
def NamespacesMerged (t : DeclTree) : Prop :=
  ∀ p, ∀ c ∈ t.children p, ∀ d ∈ t.children p, (t.get c).isNamespace → (t.get d).isNamespace →
    (t.get c).name = (t.get d).name → (t.get c).name ≠ "" → c = d

/-- Reading one declaration after another was declared, where `f` does not read the members. -/
theorem apply_get_add {β : Type} (f : Decl → β)
    (hf : ∀ d cs, f { d with children := cs } = f d) (hp : p < t.size) (name : String)
    (kind : Kind) (i : DeclId) :
    f ((t.add p name kind).2.get i) =
      if i = t.size then f { id := t.size, name, kind, parent := some p } else f (t.get i) := by
  rw [get_add hp]
  by_cases hip : i = p
  · have hne : i ≠ t.size := hip ▸ Nat.ne_of_lt hp
    rw [if_pos hip, if_neg hne, hf, hip]
  · rw [if_neg hip]
    split <;> rfl

/-- No scope has two declarations of one name for which `P` holds. -/
def Unrepeated (P : String → Kind → Prop) (t : DeclTree) : Prop :=
  ∀ p, ∀ c ∈ t.children p, ∀ d ∈ t.children p, P (t.get c).name (t.get c).kind →
    P (t.get d).name (t.get d).kind → (t.get c).name = (t.get d).name → c = d

theorem Unrepeated.empty (P : String → Kind → Prop) : Unrepeated P empty := by
  intro p c hc
  rw [children, get_empty] at hc
  cases hc

/-- One declaration more, unless its scope has one for which `P` holds under the same name. -/
theorem Unrepeated.add {P : String → Kind → Prop} (hu : Unrepeated P t) (ht : WellFormed t)
    (hp : p < t.size)
    (hnew : P name kind → ∀ c ∈ t.children p, P (t.get c).name (t.get c).kind →
      (t.get c).name ≠ name) :
    Unrepeated P (t.add p name kind).2 := by
  have hkind : ∀ i, ((t.add p name kind).2.get i).kind =
      if i = t.size then kind else (t.get i).kind :=
    apply_get_add Decl.kind (fun _ _ => rfl) hp name kind
  have hname : ∀ i, ((t.add p name kind).2.get i).name =
      if i = t.size then name else (t.get i).name :=
    apply_get_add Decl.name (fun _ _ => rfl) hp name kind
  -- A member of a scope is a former one, or the new declaration, which only its scope has.
  have hmem : ∀ q c, c ∈ (t.add p name kind).2.children q →
      c ∈ t.children q ∧ c ≠ t.size ∨ c = t.size ∧ q = p := by
    intro q c hc
    have hpar := ((ht.add hp name kind).mem_children q c).mp hc
    rw [parent?_add hp] at hpar
    split at hpar
    next hcs => exact .inr ⟨hcs, (Option.some.inj hpar).symm⟩
    next hcs => exact .inl ⟨(ht.mem_children q c).mpr hpar, hcs⟩
  intro q c hc d hd
  rw [hkind, hkind, hname, hname]
  rcases hmem q c hc with ⟨hc, hcs⟩ | ⟨rfl, rfl⟩ <;> rcases hmem q d hd with ⟨hd, hds⟩ | ⟨rfl, hqp⟩
  · rw [if_neg hcs, if_neg hds, if_neg hcs, if_neg hds]
    exact hu q c hc d hd
  · rw [if_neg hcs, if_pos rfl, if_neg hcs, if_pos rfl]
    intro hcP hdP heq
    exact absurd heq (hnew hdP c (hqp ▸ hc) hcP)
  · rw [if_pos rfl, if_neg hds, if_pos rfl, if_neg hds]
    intro hcP hdP heq
    exact absurd heq.symm (hnew hcP d hd hdP)
  · intros
    rfl

/-- A change of one declaration that leaves name, kind and members. -/
theorem Unrepeated.modify {P : String → Kind → Prop} (hu : Unrepeated P t) (j : DeclId)
    (change : Decl → Decl) (hname : ∀ d, (change d).name = d.name)
    (hkind : ∀ d, (change d).kind = d.kind) (hchildren : ∀ d, (change d).children = d.children) :
    Unrepeated P ⟨t.decls.modify j change⟩ := by
  intro p c hc d hd
  rw [children, apply_get_modify Decl.children change hchildren] at hc hd
  rw [apply_get_modify Decl.kind change hkind, apply_get_modify Decl.kind change hkind,
    apply_get_modify Decl.name change hname, apply_get_modify Decl.name change hname]
  exact hu p c hc d hd

theorem namespacesMerged_iff :
    NamespacesMerged t ↔ Unrepeated (fun name kind => kind.isNamespace ∧ name ≠ "") t := by
  constructor
  · intro h p c hc d hd hcn hdn heq
    exact h p c hc d hd hcn.1 hdn.1 heq hcn.2
  · intro h p c hc d hd hcn hdn heq hne
    exact h p c hc d hd ⟨hcn, hne⟩ ⟨hdn, heq ▸ hne⟩ heq

theorem NamespacesMerged.empty : NamespacesMerged empty :=
  namespacesMerged_iff.mpr (Unrepeated.empty _)

/-- One declaration more, unless it is a namespace of a name that its scope already opened. -/
theorem NamespacesMerged.add (hm : NamespacesMerged t) (ht : WellFormed t) (hp : p < t.size)
    (hnew : kind.isNamespace → name ≠ "" →
      ∀ c ∈ t.children p, (t.get c).isNamespace → (t.get c).name ≠ name) :
    NamespacesMerged (t.add p name kind).2 :=
  namespacesMerged_iff.mpr ((namespacesMerged_iff.mp hm).add ht hp fun hk c hc hcn =>
    hnew hk.1 hk.2 c hc hcn.1)

theorem NamespacesMerged.modify (hm : NamespacesMerged t) (j : DeclId) (change : Decl → Decl)
    (hname : ∀ d, (change d).name = d.name) (hkind : ∀ d, (change d).kind = d.kind)
    (hchildren : ∀ d, (change d).children = d.children) :
    NamespacesMerged ⟨t.decls.modify j change⟩ :=
  namespacesMerged_iff.mpr ((namespacesMerged_iff.mp hm).modify j change hname hkind hchildren)

/-- Namespaces that are opened, and not declared, are merged. -/
theorem Grown.namespacesMerged (h : Grown t u) (ht : Built t) (hm : NamespacesMerged t) :
    NamespacesMerged u := by
  induction h with
  | refl => exact hm
  | add hu hp name hkind ih =>
    refine ih.add (hu.built ht).wellFormed hp fun hns => ?_
    rw [hkind] at hns
    cases hns
  | @nspace u hu p hp name ih =>
    rcases nspace_cases u p name with ⟨c, -, -, -, -, heq⟩ | ⟨hnew, heq⟩
    · rwa [heq]
    · rw [heq]
      exact ih.add (hu.built ht).wellFormed hp fun _ => hnew
  | setAccess _ _ access ih => exact ih.modify _ _ (fun _ => rfl) (fun _ => rfl) (fun _ => rfl)
  | setFile _ _ file ih => exact ih.modify _ _ (fun _ => rfl) (fun _ => rfl) (fun _ => rfl)

end DeclTree

end RubyBinding
