import RubyBinding.Session

/-!
# Superclasses first

Ruby needs to know a class before its subclasses, so parts are registered by *depth*: the length of
the longest chain of superclasses above a class. What is no class has depth zero. Parts of one depth
keep their order.
-/

namespace RubyBinding.Library

variable (lib : Library)

/-- The depth of a class, if its superclasses are found among `unseen` and no class is its own
superclass. -/
def depthAmong (unseen : List DeclId) (i : DeclId) : Except GenError Nat :=
  if !(lib.tree.get i).isRecord then .ok 0
  else if _h : i ∈ unseen then do
    let above ← (lib.effectiveSuperclasses i).mapM fun s => depthAmong (unseen.erase i) s
    return (above.map (· + 1)).foldl max 0
  else .error (.inheritanceCycle (lib.tree.qualifiedName i))
termination_by unseen.length
decreasing_by
  have := List.length_erase_of_mem _h
  have := List.length_pos_of_mem _h
  omega

/-- The length of the longest chain of superclasses above a class. -/
def depth (i : DeclId) : Except GenError Nat := lib.depthAmong lib.tree.ids i

/-- The depth that something registered for a declaration is sorted by. -/
def rank : Option DeclId → Except GenError Nat
  | none => .ok 0
  | some i => lib.depth i

/-- Sort by the depth of the declarations that things are registered for. -/
def byDepth {α : Type} (node : α → Option DeclId) (items : List α) : Except GenError (List α) := do
  let ranked ← items.mapM fun a => return (← lib.rank (node a), a)
  return (ranked.mergeSort fun a b => a.1 ≤ b.1).map Prod.snd

end RubyBinding.Library
