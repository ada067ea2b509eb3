/-!
# C++ types

A type as it stands in a declaration: builtin types, names, and pointers, references and function
types over them. Nothing is known of a name but its spelling; what it denotes is decided by the
scope it is read in (`DeclTree.resolve?`).
-/

namespace RubyBinding

/-- The integer types by width; each comes signed and unsigned. -/
inductive Width where
  | char
  | short
  | int
  | long
  | longLong
  deriving DecidableEq, Repr

/-- A C++ type. `isConst` says that what is pointed or referred to is constant. -/
inductive Ty where
  | void
  | bool
  | float
  | double
  | integer (width : Width) (isSigned : Bool)
  | pointer (pointee : Ty) (isConst : Bool)
  | reference (referent : Ty) (isConst isRvalue : Bool)
  | named (name : String)
  | function (result : Ty) (params : List Ty)
  deriving Repr, Inhabited

namespace Ty

def isVoid : Ty → Bool
  | void => true
  | _ => false

def isPointer : Ty → Bool
  | pointer _ _ => true
  | _ => false

def isReference : Ty → Bool
  | reference _ _ _ => true
  | _ => false

/-- What a pointer points to. -/
def pointee? : Ty → Option Ty
  | pointer t _ => some t
  | _ => none

/-- Result and parameters of the function that a function pointer, or a reference to one, calls. -/
def callback? : Ty → Option (Ty × List Ty)
  | pointer (function result params) _ => some (result, params)
  | reference t _ _ => callback? t
  | _ => none

/-- A function pointer, or a reference to one. -/
def isCallback (t : Ty) : Bool := t.callback?.isSome

/-- The name below all pointers and references. -/
def baseName? : Ty → Option String
  | named name => some name
  | pointer t _ => baseName? t
  | reference t _ _ => baseName? t
  | _ => none

mutual

/-- Whether two types are written alike. -/
protected def beq : Ty → Ty → Bool
  | void, void | bool, bool | float, float | double, double => true
  | integer w s, integer w' s' => w == w' && s == s'
  | pointer t c, pointer t' c' => Ty.beq t t' && c == c'
  | reference t c r, reference t' c' r' => Ty.beq t t' && c == c' && r == r'
  | named name, named name' => name == name'
  | function result params, function result' params' =>
    Ty.beq result result' && Ty.beqList params params'
  | _, _ => false

/-- Whether two lists of types are written alike. -/
protected def beqList : List Ty → List Ty → Bool
  | [], [] => true
  | t :: ts, t' :: ts' => Ty.beq t t' && Ty.beqList ts ts'
  | _, _ => false

end

instance : BEq Ty := ⟨Ty.beq⟩

mutual

/-- Change every name in a type. -/
def mapNames (f : String → String) : Ty → Ty
  | void => void
  | bool => bool
  | float => float
  | double => double
  | integer w s => integer w s
  | pointer t c => pointer (mapNames f t) c
  | reference t c r => reference (mapNames f t) c r
  | named name => named (f name)
  | function result params => function (mapNames f result) (mapNamesList f params)

/-- Change every name in a list of types. -/
def mapNamesList (f : String → String) : List Ty → List Ty
  | [] => []
  | t :: ts => mapNames f t :: mapNamesList f ts

end

end Ty

end RubyBinding
