import RubyBinding.Ty

/-!
# Declarations

The entities of a C++ library that a binding can be made for: namespaces, classes, functions,
methods, constructors, fields, enumerations and typedefs. A declaration is a name, a `Kind` with
what is particular to it, and an access level; `DeclTree` puts declarations into scopes.
-/

namespace RubyBinding

/-- Access level of a class member. -/
inductive Access where
  | pub
  | prot
  | priv
  deriving DecidableEq, Repr, Inhabited

/-- A parameter, with its name if the declaration spells one. -/
structure Param where
  name : Option String
  ty : Ty
  deriving Repr, Inhabited, BEq

/-- The name of a parameter at a position. One without a name is numbered. -/
def Param.nameAt (p : Param) (position : Nat) : String := p.name.getD ("arg" ++ toString position)

/-- A base class as written in the head of a class. Its name may be qualified. -/
structure Base where
  name : String
  access : Access
  isVirtual : Bool
  deriving Repr, Inhabited, DecidableEq

/-- A value of an enumeration, with its number where the declaration spells one that is readable. -/
structure Enumerator where
  name : String
  value : Option Int
  deriving Repr, Inhabited, DecidableEq

/-- What a method is beyond its signature. -/
structure MethodFlags where
  isStatic : Bool := false
  isVirtual : Bool := false
  isPure : Bool := false
  isConst : Bool := false
  deriving Repr, Inhabited, DecidableEq

/-- The kinds of declaration. -/
inductive Kind where
  | nspace
  | record (isStruct : Bool) (bases : List Base)
  | function (result : Ty) (params : List Param)
  | method (result : Ty) (params : List Param) (flags : MethodFlags)
  | ctor (params : List Param)
  | field (ty : Ty) (isStatic isConst : Bool)
  | enumeration (isScoped : Bool) (values : List Enumerator)
  | typedef (underlying : Ty)
  deriving Repr, Inhabited, BEq

namespace Kind

def isNamespace : Kind → Bool
  | nspace => true
  | _ => false

/-- Classes and structs. -/
def isRecord : Kind → Bool
  | record _ _ => true
  | _ => false

def isFunction : Kind → Bool
  | function _ _ => true
  | _ => false

def isMethod : Kind → Bool
  | method _ _ _ => true
  | _ => false

def isCtor : Kind → Bool
  | ctor _ => true
  | _ => false

def isField : Kind → Bool
  | field _ _ _ => true
  | _ => false

def isEnumeration : Kind → Bool
  | enumeration _ _ => true
  | _ => false

def isVirtual : Kind → Bool
  | method _ _ flags => flags.isVirtual
  | _ => false

def isPureVirtual : Kind → Bool
  | method _ _ flags => flags.isPure
  | _ => false

/-- Kinds whose name is the name of a type. -/
def isType : Kind → Bool
  | record _ _ | enumeration _ _ | typedef _ => true
  | _ => false

/-- Kinds whose members a qualified name can reach into. -/
def isScope : Kind → Bool
  | nspace | record _ _ | enumeration _ _ => true
  | _ => false

/-- The word for a kind in messages. -/
def describe : Kind → String
  | nspace => "namespace"
  | record true _ => "struct"
  | record false _ => "class"
  | function _ _ => "function"
  | method _ _ _ => "method"
  | ctor _ => "constructor"
  | field _ _ _ => "field"
  | enumeration _ _ => "enumeration"
  | typedef _ => "typedef"

/-- Parameters of whatever can be called. -/
def params : Kind → List Param
  | function _ ps | method _ ps _ | ctor ps => ps
  | _ => []

/-- Result type of functions and methods. -/
def result? : Kind → Option Ty
  | function t _ | method t _ _ => some t
  | _ => none

end Kind

/-- Position of a declaration in its tree. -/
abbrev DeclId := Nat

/-- A declaration in its place. -/
structure Decl where
  /-- The position it was given. -/
  id : DeclId
  /-- Unqualified; empty for the global namespace and for what has no name. -/
  name : String
  kind : Kind
  access : Access := .pub
  /-- The namespace or class around it; none for the global namespace only. -/
  parent : Option DeclId := none
  children : List DeclId := []
  /-- The header it was read from. -/
  file : Option String := none
  deriving Repr, Inhabited

namespace Decl

def isPublic (d : Decl) : Bool := d.access = .pub

def isNamespace (d : Decl) : Bool := d.kind.isNamespace

def isRecord (d : Decl) : Bool := d.kind.isRecord

/-- The global namespace before anything is declared in it. -/
def global : Decl := { id := 0, name := "", kind := .nspace }

end Decl

end RubyBinding
