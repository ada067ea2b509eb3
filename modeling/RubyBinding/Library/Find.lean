import RubyBinding.Library

/-!
# Annotating by name

People name declarations, not positions. A name that leads to nothing and a name that leads to
declarations of other kinds only are told apart; of several overloads the first one counts.
-/

namespace RubyBinding.Library

variable (lib : Library)

/-- The first declaration of a qualified name whose kind satisfies `p`. -/
def find (word : String) (p : Kind → Bool) (name : String) : Except AnnotationError DeclId :=
  match lib.tree.lookupAll name with
  | [] => .error (.notFound word name)
  | candidates =>
    match candidates.find? fun i => p (lib.tree.get i).kind with
    | some i => .ok i
    | none => .error (.wrongKind name word)

/-- The class or struct of a name. -/
def findClass : String → Except AnnotationError DeclId := lib.find "class" Kind.isRecord

def findFunction : String → Except AnnotationError DeclId := lib.find "function" Kind.isFunction

def findMethod : String → Except AnnotationError DeclId := lib.find "method" Kind.isMethod

def findEnumeration : String → Except AnnotationError DeclId :=
  lib.find "enumeration" Kind.isEnumeration

/-- The namespace of a name; `::` is the global namespace. -/
def findNamespace (name : String) : Except AnnotationError DeclId :=
  if name = "::" then .ok DeclTree.root else lib.find "namespace" Kind.isNamespace name

/-- A position, if there is a class at it. -/
def asClass (i : DeclId) : Except AnnotationError DeclId :=
  if (lib.tree.get i).isRecord then .ok i
  else .error (.wrongKind (lib.tree.qualifiedName i) "class")

/-- Everything that has the qualified name of a declaration. -/
def overloads (i : DeclId) : List DeclId := lib.tree.lookupAll (lib.tree.qualifiedName i)

/-- The constructors that a class declares. -/
def ctors (i : DeclId) : List DeclId := lib.tree.membersOf i Kind.isCtor

/-- Choose the base that Ruby sees by a name as it would be written beside the class. -/
def useSuperclass (i : DeclId) (name : String) : Except AnnotationError Library :=
  match lib.tree.resolve? (lib.tree.scopeOf i) name with
  | some candidate => lib.chooseSuperclass i candidate
  | none => .error (.notFound "class" name)

/-- Choose the constructor that Ruby sees by its position among the declared ones. -/
def useCtor (i : DeclId) (index : Nat) : Except AnnotationError Library :=
  match (lib.ctors i)[index]? with
  | some ctor => lib.chooseCtor i ctor
  | none =>
    .error (.notFound "constructor" (lib.tree.qualifiedName i ++ "#" ++ toString index))

/-- Move a function into a class as a method whose receiver is the function's first argument. -/
def includeAsInstanceMethod (owner i : DeclId) : Except AnnotationError Library :=
  if (lib.tree.get i).kind.isFunction then do
    let moved ← lib.moveTo i owner
    return moved.setInstanceMethod i
  else .error (.wrongKind (lib.tree.qualifiedName i) "function")

end RubyBinding.Library
