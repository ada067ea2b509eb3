import RubyBinding.Binding.Class
import RubyBinding.Binding.Enumeration

/-!
# Modules

A Ruby module holds what a namespace holds: functions are bound in the module itself, classes,
enumerations and nested namespaces have plans of their own. Modules are also declared explicitly,
with a name of their own, for a namespace or for none, and with further modules inside.

A namespace or class can be moved, over others, into itself. Planning it would then never end, so
`planOf` keeps the declarations that are not being planned yet, and it is an error if one of the
others is met again.
-/

namespace RubyBinding

open Code (Statement Place)

/-- An explicitly declared module. -/
structure ModuleSpec where
  name : String
  /-- The namespace that the module holds. -/
  nspace : Option DeclId := none
  modules : List ModuleSpec := []
  deriving Repr, Inhabited

/-- Where the functions of a namespace are bound, and what is nested in it stands under. -/
inductive Holder where
  /-- The whole program. -/
  | program
  /-- The module with this handle. -/
  | moduleAt (handle : String)
  deriving DecidableEq, Repr

namespace Holder

def handle? : Holder → Option String
  | program => none
  | moduleAt handle => some handle

def place : Holder → Place
  | program => .global
  | moduleAt handle => .moduleFunction handle

/-- What binding a function there needs to include. -/
def includes : Holder → List String
  | program => ["#include <rice/global_function.hpp>"]
  | moduleAt _ => []

end Holder

/-- Free functions and static methods, which a module can hold. -/
def Kind.isHeldFunction : Kind → Bool
  | function _ _ => true
  | method _ _ flags => flags.isStatic
  | _ => false

namespace Setting

variable (g : Setting)

/-- What a namespace binds: what is exposed in it, then what was moved into it. Of the global
namespace, only what comes from the library's headers is bound. -/
def namespaceItems (ns : DeclId) : List DeclId :=
  let exposed := g.library.exposed ns
  (if ns = DeclTree.root then exposed.filter g.isFromSources else exposed) ++ g.library.adopted ns

/-- The functions that a namespace binds, with their Ruby names. -/
def heldFunctions (ns : DeclId) : List Named :=
  let functions := (g.namespaceItems ns).filter fun i => (g.library.tree.get i).kind.isHeldFunction
  (Library.distinct {} (g.library.withNames functions)).1

/-- Bind a function in a module. -/
def bindHeld (holder : Holder) (f : Named) : Gen Draft := do
  let bound ← g.bindForward f.1 .ignored holder.place f.2
  return { bound with includes := g.includesFor f.1 ++ holder.includes }

/-- Bind one of the things that a namespace binds. Methods of objects have no place in a module,
and a namespace that was left to a module of its own is not bound again. -/
def bindItem (nested : Nested) (holder : Holder) (functions : List Named) (i : DeclId) :
    Gen Draft := do
  match (g.library.tree.get i).kind with
  | .function _ _ | .method _ _ _ =>
    match functions.lookup i with
    | some ruby => g.bindHeld holder (i, ruby)
    | none => return {}
  | .nspace =>
    if (← getThe Session).claimed.contains i then return {}
    else return { parts := (← nested holder.handle? i).toList }
  | _ => return { parts := (← nested holder.handle? i).toList }

/-- Bind everything in a namespace. -/
def bindNamespace (nested : Nested) (holder : Holder) (ns : DeclId) : Gen Draft := do
  return Draft.join (← (g.namespaceItems ns).mapM (g.bindItem nested holder (g.heldFunctions ns)))

/-- The start of a module's plan: a handle, and the statement that defines the module. -/
def openModule (name ruby : String) (parent : Option String) : Run (String × Draft) := do
  let handle ← freshName ("rb_m" ++ identifier name)
  return (handle, {
    includes := ["#include <rice/Module.hpp>"]
    body := [.defineModule handle ruby parent] })

/-- The plan of the module for a namespace. -/
def namespacePlan (nested : Nested) (parent : Option String) (ns : DeclId) : Gen Plan := do
  let lib := g.library
  let name := lib.tree.qualifiedName ns
  let ruby := constantName ((lib.renamed? ns).getD (lib.tree.get ns).name)
  let (handle, head) ← openModule name ruby parent
  let inside ← g.bindNamespace nested (.moduleAt handle) ns
  return (head ++ inside).toPlan name (some ns) handle

/-- The plan of a declaration under the module or class with the handle `parent`. Only namespaces,
classes and enumerations with a name have one. What is being planned already is not in `unplanned`.
-/
def planOf (unplanned : List DeclId) (parent : Option String) (i : DeclId) : Gen (Option Plan) :=
  let d := g.library.tree.get i
  if d.name.isEmpty then return none
  else if d.kind.isEnumeration then do return some (← g.enumPlan parent i)
  else if d.isRecord || d.isNamespace then
    if _h : i ∈ unplanned then
      let nested : Nested := fun p c => planOf (unplanned.erase i) p c
      if d.isRecord then some <$> g.classPlan nested parent i
      else some <$> g.namespacePlan nested parent i
    else throw (.ownershipCycle (g.library.tree.qualifiedName i))
  else return none
termination_by unplanned.length
decreasing_by
  have := List.length_erase_of_mem _h
  have := List.length_pos_of_mem _h
  omega

/-- The plan of a declaration where nothing else is being planned. -/
def plan (parent : Option String) (i : DeclId) : Gen (Option Plan) :=
  g.planOf g.library.tree.ids parent i

mutual

/-- The plan of an explicit module. -/
def modulePlan (parent : Option String) : ModuleSpec → Gen Plan
  | ⟨name, nspace, modules⟩ => do
    let (handle, head) ← openModule name (constantName name) parent
    let inside ← match nspace with
      | some ns => g.bindNamespace g.plan (.moduleAt handle) ns
      | none => pure {}
    let submodules ← modulePlans (some handle) modules
    let draft := head ++ inside ++ { parts := submodules }
    return draft.toPlan name nspace handle

/-- The plans of several explicit modules. -/
def modulePlans (parent : Option String) : List ModuleSpec → Gen (List Plan)
  | [] => return []
  | m :: ms => do
    let first ← modulePlan parent m
    return first :: (← modulePlans parent ms)

end

end Setting

end RubyBinding
