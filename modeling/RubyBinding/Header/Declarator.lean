import RubyBinding.Header.Syntax
import RubyBinding.Ty

/-!
# What a declarator declares

`Declarator.declare` walks a declarator from the outside in. Pointers, references and function types
met on the way are wrapped around the type that the specifiers name, so the part next to the name is
outermost in the type. A `const` among the specifiers qualifies what the first pointer or reference
is over.

A parameter list makes a function type where it follows parentheses, as in `void (*cb)(int)`, and
otherwise declares a function.
-/

namespace RubyBinding.Header

/-- A declared function: its parameters, and the qualifiers after its parameter list. -/
structure Signature where
  params : List Param
  isConst : Bool
  isOverride : Bool

/-- What a declarator declares. -/
structure Declared where
  name : Option String := none
  /-- A destructor or an operator. -/
  isSpecial : Bool := false
  ty : Ty
  signature : Option Signature := none

mutual

/-- What a declarator declares with a type. `pendingConst` says that what the next pointer or
reference is over is constant. -/
def Declarator.declare (ty : Ty) (pendingConst : Bool) : Declarator → Declared
  | .unnamed => { ty }
  | .name text => { name := some text, ty }
  | .special text => { name := some text, isSpecial := true, ty }
  | .pointer inner => inner.declare (.pointer ty pendingConst) false
  | .reference isRvalue inner => inner.declare (.reference ty pendingConst isRvalue) false
  | .grouped inner => inner.declare ty pendingConst
  | .function (.grouped inner) params _ _ =>
    inner.declare (.function ty ((readParams params).map Param.ty)) false
  | .function inner params isConst isOverride =>
    { inner.declare ty false with
      signature := some ⟨readParams params, isConst, isOverride⟩ }

/-- The parameters that a parameter list declares. One that names no type is left out, and so is
`void` alone. -/
def readParams : List Parameter → List Param
  | [] => []
  | .mk base isConst declarator :: ps =>
    match base, declarator with
    | none, _ => readParams ps
    | some ty, some d =>
      let declared := d.declare ty isConst
      ⟨declared.name, declared.ty⟩ :: readParams ps
    | some .void, none => readParams ps
    | some ty, none => ⟨none, ty⟩ :: readParams ps

end

end RubyBinding.Header
