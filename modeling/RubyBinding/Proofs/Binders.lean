import Mathlib.Logic.Relation
import RubyBinding.Binding.Class
import RubyBinding.Proofs.Edits

/-!
# Where declarations are bound

A declaration is bound in one class or namespace at most, its *binder*: where it was moved, else
where it is declared, if it is public there. What a class or namespace exposes or adopts is what has
it as its binder and is not ignored (`mem_bound_iff`), each once (`bound_nodup`).
-/

namespace RubyBinding.Library

variable {lib : Library} {i c owner : DeclId}

/-- The class or namespace that a declaration is bound in. -/
def binder? (lib : Library) (i : DeclId) : Option DeclId :=
  match lib.movedTo? i with
  | some owner => some owner
  | none => if (lib.tree.get i).isPublic then lib.tree.parent? i else none

/-- A declaration is bound in a class or namespace. -/
def BoundIn (lib : Library) (i owner : DeclId) : Prop := lib.binder? i = some owner

/-- Being bound in one another leads from some declaration back to it. -/
def Loops (lib : Library) : Prop := ∃ i, Relation.TransGen lib.BoundIn i i

/-- What a class or namespace exposes, and then what it adopts. -/
def bound (lib : Library) (i : DeclId) : List DeclId := lib.exposed i ++ lib.adopted i

/-- Classes and namespaces, in which other declarations can be bound. -/
def isHolder (lib : Library) (i : DeclId) : Bool :=
  (lib.tree.get i).isRecord || (lib.tree.get i).isNamespace

/-- Whether a declaration is of a kind that is planned on its own, and has a name. -/
def isPlannable (lib : Library) (i : DeclId) : Bool :=
  let d := lib.tree.get i
  !d.name.isEmpty && (d.isRecord || d.kind.isEnumeration || d.isNamespace)

theorem binder?_of_movedTo? (h : lib.movedTo? i = some owner) : lib.binder? i = some owner := by
  rw [binder?, h]

theorem mem_exposed_iff (hw : lib.tree.WellFormed) :
    c ∈ lib.exposed i ↔
      lib.isIgnored c = false ∧ lib.movedTo? c = none ∧ lib.binder? c = some i := by
  rw [exposed, List.mem_filter, hw.mem_children, isExposed, isMoved, binder?]
  cases hmoved : lib.movedTo? c with
  | some owner => simp
  | none =>
    cases hpub : (lib.tree.get c).isPublic with
    | false => simp
    | true => simp [and_comm]

theorem mem_adopted_iff (hm : lib.MovesSound) :
    c ∈ lib.adopted i ↔ lib.isIgnored c = false ∧ lib.movedTo? c = some i := by
  rw [adopted, List.mem_filter, hm.mem_movedInto_iff]
  simp [and_comm]

/-- **What a class or namespace exposes or adopts is what is bound in it and not ignored.** -/
theorem mem_bound_iff (hw : lib.tree.WellFormed) (hm : lib.MovesSound) :
    c ∈ lib.bound i ↔ lib.isIgnored c = false ∧ lib.binder? c = some i := by
  rw [bound, List.mem_append, mem_exposed_iff hw, mem_adopted_iff hm]
  constructor
  · rintro (⟨hign, -, hb⟩ | ⟨hign, hmoved⟩)
    · exact ⟨hign, hb⟩
    · exact ⟨hign, binder?_of_movedTo? hmoved⟩
  · rintro ⟨hign, hb⟩
    cases hmoved : lib.movedTo? c with
    | none => exact .inl ⟨hign, rfl, hb⟩
    | some owner =>
      rw [binder?_of_movedTo? hmoved] at hb
      exact .inr ⟨hign, hb⟩

/-- Nothing is exposed and adopted, and nothing is either twice. -/
theorem bound_nodup (hw : lib.tree.WellFormed) (hm : lib.MovesSound) (i : DeclId) :
    (lib.bound i).Nodup := by
  rw [bound, List.nodup_append]
  refine ⟨(hw.children_nodup i).filter _, (hm.movedInto_nodup i).filter _, ?_⟩
  intro c hc d hd hcd
  subst hcd
  have hnone := ((mem_exposed_iff hw).mp hc).2.1
  have hsome := ((mem_adopted_iff hm).mp hd).2
  rw [hnone] at hsome
  cases hsome

/-- What was moved is not exposed anywhere. -/
theorem not_mem_exposed_of_mem_adopted (h : c ∈ lib.adopted i) : c ∉ lib.exposed owner := by
  have hmoved : lib.isMoved c = true := by
    obtain ⟨m, hm, rfl⟩ := List.mem_map.mp (List.mem_filter.mp h).1
    rw [isMoved, movedTo?, List.lookup_isSome_iff]
    exact ⟨m, (List.mem_filter.mp hm).1, beq_self_eq_true _⟩
  intro hexposed
  have hshown := (List.mem_filter.mp hexposed).2
  rw [isExposed, hmoved, Bool.not_true, Bool.and_false, Bool.false_and] at hshown
  cases hshown

/-- The global namespace is bound nowhere: it can be moved into nothing, since everything is
declared in it. -/
theorem binder?_root (hw : lib.tree.WellFormed) (hm : lib.MovesSound) :
    lib.binder? DeclTree.root = none := by
  unfold binder?
  cases hmoved : lib.movedTo? DeclTree.root with
  | some owner =>
    have hmem := hm.movedTo?_eq_some_iff.mp hmoved
    have hwithin : lib.tree.isWithin owner DeclTree.root = true :=
      List.contains_iff_mem.mpr (hw.root_mem_scopes (hm.lt_size _ hmem))
    have hown := hm.canOwn _ hmem
    simp [canOwn, hwithin] at hown
  | none =>
    dsimp only
    rw [hw.parent_root]
    split <;> rfl

end RubyBinding.Library
