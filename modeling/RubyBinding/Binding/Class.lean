import RubyBinding.Binding.Forward
import RubyBinding.Binding.Director
import RubyBinding.Text.Replace

/-!
# Classes

A class is bound with one constructor, its public methods and fields, the functions and methods that
were moved into it, and the classes and enumerations nested in it. Ruby names of members are chosen
for all members together and before any code is generated, so that no binding hides another and the
director asks Ruby for the names that the class binds.
-/

namespace RubyBinding

open Code (Statement Place Definition)

/-- How a declaration nested in a region with the given handle is planned. Declarations that are
not bound on their own have no plan. -/
abbrev Nested := Option String → DeclId → Gen (Option Plan)

/-- A declaration with the name it is bound under. -/
abbrev Named := DeclId × String

/-- The members of a class that are bound under Ruby names. -/
structure Members where
  methods : List Named
  fields : List Named
  /-- Functions and methods that were moved into the class. -/
  adopted : List Named
  deriving DecidableEq, Repr, Inhabited

namespace Library

variable (lib : Library)

/-- The exposed declarations in a scope. -/
def exposed (i : DeclId) : List DeclId := (lib.tree.children i).filter lib.isExposed

/-- What was moved into a class or namespace and is not ignored. -/
def adopted (i : DeclId) : List DeclId := (lib.movedInto i).filter fun m => !lib.isIgnored m

/-- Declarations with the Ruby names they ask for, less those that have none. -/
def withNames (is : List DeclId) : List Named :=
  is.filterMap fun i => (lib.memberName? i).map fun ruby => (i, ruby)

/-- Declarations with distinct names, as close as possible to those they ask for. -/
def distinct (fresh : Fresh) (wanted : List Named) : List Named × Fresh :=
  let (names, fresh) := fresh.pickAll (wanted.map Prod.snd)
  ((wanted.map Prod.fst).zip names, fresh)

/-- The members of a class with their Ruby names. -/
def members (i : DeclId) : Members :=
  let ofKind := fun p => fun m => (p : Kind → Bool) (lib.tree.get m).kind
  let exposed := lib.exposed i
  let (methods, fresh) := distinct {} (lib.withNames (exposed.filter (ofKind Kind.isMethod)))
  let (fields, fresh) := distinct fresh (lib.withNames (exposed.filter (ofKind Kind.isReadable)))
  let callable := fun k => (k : Kind).isFunction || k.isMethod
  let (adopted, _) := distinct fresh (lib.withNames ((lib.adopted i).filter (ofKind callable)))
  ⟨methods, fields, adopted⟩

/-- The Ruby name of a class: the one it was given, else made from its typedef or its own name. -/
def className (i : DeclId) : String :=
  constantName ((lib.renamed? i).getD (lib.tree.get ((lib.humanizingTypedef? i).getD i)).name)

/-- The superclass of a class in Ruby, which has at most one. -/
def superclass? (i : DeclId) : Except GenError (Option DeclId) :=
  match lib.effectiveSuperclasses i with
  | [] => .ok none
  | [only] => .ok (some only)
  | several => .error (.ambiguousSuperclass (lib.tree.qualifiedName i)
      (several.map lib.tree.qualifiedName))

/-- The parameters of the constructor that Ruby sees: the chosen one's, else those of the last one
that is exposed. A class that declares no constructor has one without parameters. -/
def ctorParams? (i : DeclId) : Option (List Param) :=
  let paramsOf := fun c => (lib.tree.get c).kind.params
  match lib.chosenCtor? i with
  | some chosen => some (paramsOf chosen)
  | none =>
    match lib.tree.membersOf i Kind.isCtor with
    | [] => some []
    | declared => (declared.filter lib.isExposed).getLast?.map paramsOf

/-- The virtual methods of a class, under the names that the class binds. -/
def boundVirtuals (i : DeclId) (methods : List Named) : List Virtual :=
  (lib.virtuals i).map fun v => { v with ruby := (methods.lookup v.method).getD v.ruby }

end Library

namespace Setting

variable (g : Setting)

/-- The lines that include the headers of a declaration. -/
def includesFor (i : DeclId) : List String := (g.headers i).map fun h => "#include \"" ++ h ++ "\""

/-- The lines that include the further headers. -/
def furtherIncludes : List String := g.includes.map fun h => "#include \"" ++ h ++ "\""

/-- A class that is being bound. -/
structure Target where
  id : DeclId
  cpp : String
  handle : String

/-- Bind a function or method under a Ruby name. -/
def bindForward (i : DeclId) (receiver : Receiver) (place : Place) (ruby : String) : Gen Draft := do
  let f ← g.forward i receiver
  return { definitions := f.definitions, body := [.bind place ruby f.name] }

/-- Bind a method of a class. What a director overrides is bound to the director's member. -/
def bindMethod (c : Target) (director : Option (String × List Virtual)) (m : Named) :
    Gen Draft := do
  match (g.library.tree.get m.1).kind with
  | .method _ _ flags =>
    match director, flags.isVirtual with
    | some (name, virtuals), true =>
      match virtuals.find? fun v => v.method == m.1 with
      | some v =>
        return .statement (.bind (.method c.handle) m.2 (name ++ "::" ++ v.fallback))
      | none => return {}
    | _, _ =>
      if flags.isStatic then g.bindForward m.1 .ignored (.singleton c.handle) m.2
      else g.bindForward m.1 (.object c.cpp) (.method c.handle) m.2
  | _ => return {}

/-- Bind the accessors of a field. -/
def bindField (c : Target) (f : Named) : Run Draft := do
  let place := match (g.library.tree.get f.1).kind with
    | .field _ true _ => Place.singleton c.handle
    | _ => Place.method c.handle
  match ← g.accessors f.1 c.cpp with
  | none => return {}
  | some a =>
    let setter := a.setter.toList.map fun s => Statement.bind place (f.2 ++ "=") s
    return { definitions := a.definitions, body := .bind place f.2 a.getter :: setter }

/-- Bind a function or method that was moved into a class. A method is called through the class
that declares it. -/
def bindAdopted (c : Target) (m : Named) : Gen Draft := do
  let lib := g.library
  let onClass := Place.singleton c.handle
  let onObjects := Place.method c.handle
  let (receiver, place) := match (lib.tree.get m.1).kind with
    | .method _ _ flags =>
      if flags.isStatic then (.ignored, onClass)
      else (.object (((lib.tree.parent? m.1).map lib.classType).getD c.cpp), onObjects)
    | _ =>
      if (lib.note m.1).isInstanceMethod then (.argument c.cpp, onObjects) else (.ignored, onClass)
  let bound ← g.bindForward m.1 receiver place m.2
  return { bound with includes := g.includesFor m.1 }

/-- What is nested in a class, or was moved into it: classes and enumerations have plans of their
own, functions and methods are bound here. -/
def bindInside (nested : Nested) (c : Target) (adopted : List Named) (i : DeclId) : Gen Draft := do
  let d := g.library.tree.get i
  if d.kind.isRecord || d.kind.isEnumeration then
    return { parts := (← nested (some c.handle) i).toList }
  match adopted.lookup i with
  | some ruby => g.bindAdopted c (i, ruby)
  | none => return {}

/-- The constructor of a class that has no director. -/
def bindCtor (c : Target) : Option (List Param) → Run Draft
  | none => return {}
  | some params => do
    let types ← params.mapM fun p => g.resolveParam c.id p.ty
    return .statement (.defineConstructor c.handle (c.cpp :: types.map Ty.spell))

/-- The plan of a class under the module or class with the handle `parent`. -/
def classPlan (nested : Nested) (parent : Option String) (i : DeclId) : Gen Plan := do
  let lib := g.library
  let superclass ← lib.superclass? i
  let cpp := lib.classType i
  let handle ← freshName ("rb_c" ++ identifier cpp)
  let c : Target := ⟨i, cpp, handle⟩
  let head : Draft := {
    includes := ["#include <rice/Class.hpp>", "#include <rice/Data_Type.hpp>",
      "#include <rice/Constructor.hpp>"] ++ g.includesFor i
    body := [.defineClass handle cpp (superclass.map lib.classType) parent (lib.className i)] }
  let members := lib.members i
  let virtuals := lib.boundVirtuals i members.methods
  let ctor := lib.ctorParams? i
  let (director, construct) ←
    if virtuals.isEmpty then do
      pure (none, ← g.bindCtor c ctor)
    else do
      let name ← freshName (identifier cpp ++ "Director")
      let plan ← g.directorPlan name i cpp handle ctor virtuals
      pure (some (name, virtuals), { parts := [plan] })
  let methods ← members.methods.mapM (g.bindMethod c director)
  let fields ← members.fields.mapM fun f => g.bindField c f
  let inside ← (lib.exposed i ++ lib.adopted i).mapM (g.bindInside nested c members.adopted)
  let code := (lib.note i).customCode
  let custom : Draft := {
    definitions := code.declarations.map .custom
    body := code.wrappings.map fun text => .custom ("\t" ++ Text.replaced "<class>" handle text) }
  let draft := Draft.join ([head, construct] ++ methods ++ fields ++ inside ++ [custom])
  return draft.toPlan (lib.tree.qualifiedName i) (some i) handle

end Setting

end RubyBinding
