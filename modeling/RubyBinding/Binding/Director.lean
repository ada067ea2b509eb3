import RubyBinding.Plan
import RubyBinding.Session

/-!
# Directors

A class with virtual methods is bound through a director, so that a method overridden in Ruby is
called when C++ calls it. A director overrides the virtual methods of the class itself, and those
pure virtual methods of its ancestors that nothing between them and the class implements: of all
ancestors that declare a method of some name, the nearest one decides, in breadth-first order.
-/

namespace RubyBinding

open Code (Definition Director Override Fallback Slot)

/-- A virtual method that a director overrides. -/
structure Virtual where
  method : DeclId
  ruby : String
  /-- The member that reaches the implementation. -/
  fallback : String
  /-- Whether it is a pure virtual method of an ancestor. -/
  isInherited : Bool
  deriving DecidableEq, Repr, Inhabited

namespace Library

variable (lib : Library)

def methods (i : DeclId) : List DeclId := lib.tree.membersOf i Kind.isMethod

/-- The ancestors of a class among `unseen`, breadth first, starting with those that are pending. -/
def ancestorsAmong (unseen pending : List DeclId) : List DeclId :=
  match pending with
  | [] => []
  | c :: rest =>
    if _h : c ∈ unseen then
      c :: ancestorsAmong (unseen.erase c) (rest ++ lib.tree.superclasses c)
    else ancestorsAmong unseen rest
termination_by (unseen.length, pending.length)
decreasing_by
  · have := List.length_erase_of_mem _h
    have := List.length_pos_of_mem _h
    exact Prod.Lex.left _ _ (by omega)
  · exact Prod.Lex.right _ (by simp)

/-- All ancestors of a class, each once, nearest first. -/
def ancestors (i : DeclId) : List DeclId :=
  lib.ancestorsAmong (lib.tree.ids.erase i) (lib.tree.superclasses i)

/-- The virtual methods of a class itself that are bound, with their Ruby names. -/
def ownVirtuals (i : DeclId) : List (DeclId × String) :=
  (lib.methods i).filterMap fun m =>
    if (lib.tree.get m).kind.isVirtual && !lib.isIgnored m then
      (lib.memberName? m).map fun ruby => (m, ruby)
    else none

/-- The pure virtual methods of some classes, each of a name that neither `implemented` nor a class
before its own declares. -/
def pureVirtuals (implemented : List String) : List DeclId → List (DeclId × String)
  | [] => []
  | c :: cs =>
    let found := (lib.methods c).filterMap fun m =>
      let d := lib.tree.get m
      if d.kind.isPureVirtual && !implemented.contains d.name then
        (lib.memberName? m).map fun ruby => (m, ruby)
      else none
    found ++ pureVirtuals (implemented ++ (lib.methods c).map fun m => (lib.tree.get m).name) cs

/-- The virtual methods that a director of a class overrides, its own first. -/
def virtuals (i : DeclId) : List Virtual :=
  let own := lib.ownVirtuals i
  let names := (lib.methods i).map fun m => (lib.tree.get m).name
  let inherited := lib.pureVirtuals names (lib.ancestors i)
  let all := own.map (·, false) ++ inherited.map (·, true)
  let fallbacks := (({} : Fresh).pickAll (all.map fun e =>
    "default_" ++ identifier (lib.tree.get e.1.1).name)).1
  all.zipWith (fun e fallback => ⟨e.1.1, e.1.2, fallback, e.2⟩) fallbacks

/-- Parameters with resolved types, where no conversion is needed for them. -/
def slots (scope : DeclId) (params : List Param) : List Slot :=
  params.zipIdx.map fun (p, i) => ⟨lib.resolve scope p.ty, p.nameAt i⟩

/-- How the implementation of a virtual method is reached. -/
def fallbackOf (v : Virtual) (isPublic isPure : Bool) : Fallback :=
  if !isPublic && !v.isInherited then .hidden
  else if isPure || v.isInherited then .raises v.fallback
  else .calls v.fallback

/-- The override of a virtual method. -/
def override? (v : Virtual) : Option Override :=
  let d := lib.tree.get v.method
  match d.kind with
  | .method result params flags =>
    let scope := lib.tree.scopeOf v.method
    some {
      result := lib.resolve scope result
      name := d.name
      slots := lib.slots scope params
      isConst := flags.isConst
      ruby := v.ruby
      fallback := fallbackOf v d.isPublic flags.isPure }
  | _ => none

end Library

/-- The registration of a director for a class whose handle and C++ type are given. The constructor
takes the Ruby object before the parameters of the class's own constructor. -/
def Setting.directorPlan (g : Setting) (name : String) (i : DeclId) (cpp handle : String)
    (ctor : Option (List Param)) (virtuals : List Virtual) : Run Plan := do
  let director : Director := {
    name, cpp
    ctor := ctor.map (g.library.slots i)
    overrides := virtuals.filterMap g.library.override? }
  let construct ← match ctor with
    | none => pure []
    | some params => do
      let types ← params.mapM fun p => g.resolveParam i p.ty
      pure [Code.Statement.defineConstructor handle
        (name :: "Rice::Object" :: types.map Ty.spell)]
  return Draft.toPlan {
    includes := ["#include <rice/Director.hpp>"]
    definitions := [.director director]
    body := .defineDirector handle name :: construct } name none ""

end RubyBinding
