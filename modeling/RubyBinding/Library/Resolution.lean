import RubyBinding.Library
import RubyBinding.Ty.Spelling

/-!
# Types as generated code spells them

Generated code stands outside every namespace, so each name in a type is replaced by what it denotes
in the scope where the type was written. A class is spelled by the typedef that stands for it if
there is exactly one: `Vector` rather than `VectorImpl`.
-/

namespace RubyBinding.Library

variable (lib : Library)

/-- The typedef that gives a class its name, if exactly one stands for it. -/
def humanizingTypedef? (i : DeclId) : Option DeclId :=
  if !(lib.tree.get i).isRecord || (lib.note i).keepsOwnName then none
  else match lib.tree.typedefsOf i with
    | [only] => some only
    | _ => none

/-- How generated code spells a class. -/
def classType (i : DeclId) : String :=
  lib.tree.qualifiedName ((lib.humanizingTypedef? i).getD i)

/-- How generated code spells a name that was written in a scope. A name that denotes nothing stays
as it was written. -/
def resolveName (scope : DeclId) (name : String) : String :=
  match lib.tree.resolve? scope name with
  | some i => lib.classType i
  | none => name

/-- How generated code spells a type that was written in a scope. -/
def resolve (scope : DeclId) (t : Ty) : Ty := t.mapNames (lib.resolveName scope)

/-- Whether a declaration is a class, or a typedef that stands for one. -/
def denotesClass (i : DeclId) : Bool :=
  match (lib.tree.get i).kind with
  | .record _ _ => true
  | .typedef (.named target) =>
    match lib.tree.resolve? (lib.tree.scopeOf i) target with
    | some c => (lib.tree.get c).isRecord
    | none => false
  | _ => false

/-- The name of the class that a resolved type points to, and whether it is constant there. -/
def wrappedClass? : Ty → Option (String × Bool)
  | .pointer (.named name) isConst =>
    match lib.tree.lookup? name with
    | some i => if lib.denotesClass i then some (name, isConst) else none
    | none => none
  | _ => none

end RubyBinding.Library
