import RubyBinding.DeclTree

/-!
# Annotated libraries

A binding need not follow the headers word for word. An `Annotation` says what is to be different
about one declaration: that it is left out, what it is called in Ruby, which of its bases Ruby sees,
which constructor, what hand-written code goes with it. A declaration can also be moved, so that
another class or namespace binds it. A `Library` is a tree of declarations together with all of
this; each operation either gives an annotated library or says why it cannot.

Moves are kept in the order in which they were last made, so that where a declaration went and what
came to a class or namespace are two views of one list.
-/

namespace RubyBinding

/-- A piece of hand-written code of a class: C++ definitions, and a statement for its registration. -/
structure CustomCode where
  declaration : String
  wrapping : String
  deriving DecidableEq, Repr, Inhabited

/-- The hand-written code of a class. The two parts of its pieces are kept in lists of their own. -/
structure CodeLists where
  declarations : List String := []
  wrappings : List String := []
  deriving DecidableEq, Repr, Inhabited

/-- Put a piece of code at the end. -/
def CodeLists.add (l : CodeLists) (code : CustomCode) : CodeLists where
  declarations := l.declarations ++ [code.declaration]
  wrappings := l.wrappings ++ [code.wrapping]

/-- What is to be different about a declaration. -/
structure Annotation where
  isIgnored : Bool := false
  /-- The name to use in Ruby. -/
  rename : Option String := none
  /-- The base that Ruby sees. -/
  superclass : Option DeclId := none
  /-- The constructor that Ruby sees. -/
  ctor : Option DeclId := none
  customCode : CodeLists := {}
  /-- A class is called by its own name even if a typedef gives it another one. -/
  keepsOwnName : Bool := false
  /-- A function that was moved into a class takes the receiver as its first argument. -/
  isInstanceMethod : Bool := false
  deriving DecidableEq, Repr, Inhabited

/-- Why an annotation was refused. -/
inductive AnnotationError where
  | notFound (kind name : String)
  | wrongKind (name expected : String)
  | alreadyIgnored (name : String)
  | invalidMoveTarget (name target : String)
  | notASuperclass (subclass candidate : String)
  | notACtor (owner candidate : String)
  deriving DecidableEq, Repr

/-- A name as it is set off in messages. -/
def ticked (name : String) : String := "`" ++ name ++ "`"

def AnnotationError.message : AnnotationError → String
  | notFound kind name => "no " ++ kind ++ " named " ++ ticked name ++ " in the parsed headers"
  | wrongKind name expected => ticked name ++ " is not a " ++ expected
  | alreadyIgnored name => "cannot move " ++ ticked name ++ ": it is ignored"
  | invalidMoveTarget name target => "cannot move " ++ ticked name ++ " into " ++ ticked target
  | notASuperclass subclass candidate =>
    ticked candidate ++ " is not a superclass of " ++ ticked subclass
  | notACtor owner candidate => ticked candidate ++ " is not a constructor of " ++ ticked owner

/-- A tree of declarations with what was said about them. -/
structure Library where
  tree : DeclTree
  notes : List (DeclId × Annotation) := []
  /-- Moved declarations with their new owners, in the order of the last move of each. -/
  moves : List (DeclId × DeclId) := []
  deriving Repr, Inhabited

namespace Library

/-- Change the note on a declaration, which is blank until there is one. -/
def amendNotes (i : DeclId) (f : Annotation → Annotation) :
    List (DeclId × Annotation) → List (DeclId × Annotation)
  | [] => [(i, f {})]
  | (j, a) :: notes => if j = i then (j, f a) :: notes else (j, a) :: amendNotes i f notes

variable (lib : Library)

/-! ## Queries -/

/-- What was said about a declaration. -/
def note (i : DeclId) : Annotation := (lib.notes.lookup i).getD {}

def isIgnored (i : DeclId) : Bool := (lib.note i).isIgnored

def renamed? (i : DeclId) : Option String := (lib.note i).rename

def chosenSuperclass? (i : DeclId) : Option DeclId := (lib.note i).superclass

def chosenCtor? (i : DeclId) : Option DeclId := (lib.note i).ctor

/-- The class or namespace that a declaration was moved into. -/
def movedTo? (i : DeclId) : Option DeclId := lib.moves.lookup i

def isMoved (i : DeclId) : Bool := (lib.movedTo? i).isSome

/-- The declarations that were moved into a class or namespace, in the order of their moves. -/
def movedInto (owner : DeclId) : List DeclId :=
  (lib.moves.filter fun m => m.2 == owner).map Prod.fst

/-- Whether a declaration is bound where it is declared. -/
def isExposed (i : DeclId) : Bool :=
  !lib.isIgnored i && !lib.isMoved i && (lib.tree.get i).isPublic

/-- The Ruby name of a function, method or field. Destructors and operators need to be renamed to
have one. -/
def memberName? (i : DeclId) : Option String :=
  match lib.renamed? i with
  | some name => some name
  | none =>
    let name := (lib.tree.get i).name
    if isSpecialMember name then none else some (methodName name)

/-- The bases of a class as Ruby sees them: the chosen one, else all that are not ignored. -/
def effectiveSuperclasses (i : DeclId) : List DeclId :=
  match lib.chosenSuperclass? i with
  | some s => [s]
  | none => (lib.tree.superclasses i).filter fun s => !lib.isIgnored s

/-! ## Annotating -/

/-- Change what is said about a declaration. -/
def amend (i : DeclId) (f : Annotation → Annotation) : Library :=
  { lib with notes := amendNotes i f lib.notes }

def ignore (i : DeclId) : Library := lib.amend i fun a => { a with isIgnored := true }

def rename (i : DeclId) (name : String) : Library :=
  lib.amend i fun a => { a with rename := some name }

def addCustomCode (i : DeclId) (code : CustomCode) : Library :=
  lib.amend i fun a => { a with customCode := a.customCode.add code }

def keepOwnName (i : DeclId) : Library := lib.amend i fun a => { a with keepsOwnName := true }

def setInstanceMethod (i : DeclId) : Library :=
  lib.amend i fun a => { a with isInstanceMethod := true }

/-- A class or namespace can take in whatever does not contain it. -/
def canOwn (owner i : DeclId) : Bool :=
  let d := lib.tree.get owner
  (d.isRecord || d.isNamespace) && !lib.tree.isWithin owner i

/-- Let another class or namespace bind a declaration. A second move undoes the first. -/
def moveTo (i owner : DeclId) : Except AnnotationError Library :=
  if lib.isIgnored i then .error (.alreadyIgnored (lib.tree.qualifiedName i))
  else if !lib.canOwn owner i then
    .error (.invalidMoveTarget (lib.tree.qualifiedName i) (lib.tree.qualifiedName owner))
  else .ok { lib with moves := lib.moves.filter (fun m => m.1 != i) ++ [(i, owner)] }

/-- Choose the base that Ruby sees. -/
def chooseSuperclass (i candidate : DeclId) : Except AnnotationError Library :=
  if (lib.tree.superclasses i).contains candidate then
    .ok (lib.amend i fun a => { a with superclass := some candidate })
  else
    .error (.notASuperclass (lib.tree.qualifiedName i) (lib.tree.qualifiedName candidate))

/-- Choose the constructor that Ruby sees. -/
def chooseCtor (i candidate : DeclId) : Except AnnotationError Library :=
  if (lib.tree.get candidate).kind.isCtor && lib.tree.parent? candidate = some i then
    .ok (lib.amend i fun a => { a with ctor := some candidate })
  else .error (.notACtor (lib.tree.qualifiedName i) (lib.tree.qualifiedName candidate))

end Library

end RubyBinding
