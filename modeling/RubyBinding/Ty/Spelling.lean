import RubyBinding.Ty
import RubyBinding.Text.Blank

/-!
# Types as C++ text

`Ty.spell` writes a type, `Ty.declare` writes the declaration of a name of that type, and
`Ty.ofSpelling` reads the simple spellings that occur in headers and interchange documents.

Reading never fails: a text is cut into a base and a run of declarators (`*`, `&`) at its end, and a
base that is no builtin type is taken as a name. The reader is therefore a left inverse of the
writer only for names that do not themselves look like a builtin type, a qualifier or a declarator.
-/

namespace RubyBinding

/-! ## Writing -/

/-- The words of an integer type without its sign. -/
def Width.spell : Width → String
  | char => "char"
  | short => "short"
  | int => "int"
  | long => "long"
  | longLong => "long long"

namespace Ty

/-- The qualifier in front of a constant pointee or referent. -/
def constPart (isConst : Bool) : String := if isConst then "const " else ""

mutual

/-- Spell a type as C++ source. A qualifier stands in front of the whole spelling it applies to. -/
def spell : Ty → String
  | void => "void"
  | bool => "bool"
  | float => "float"
  | double => "double"
  | integer w isSigned => (if isSigned then "" else "unsigned ") ++ w.spell
  | pointer (function result params) _ =>
    spell result ++ " (*)(" ++ String.intercalate ", " (spellList params) ++ ")"
  | pointer t isConst => constPart isConst ++ spell t ++ "*"
  | reference t isConst isRvalue =>
    constPart isConst ++ spell t ++ (if isRvalue then "&&" else "&")
  | named name => name
  | function result params =>
    spell result ++ " (" ++ String.intercalate ", " (spellList params) ++ ")"

/-- Spell each type of a list. -/
def spellList : List Ty → List String
  | [] => []
  | t :: ts => spell t :: spellList ts

end

/-- Spell the types of a parameter list. -/
def spellParams (params : List Ty) : String := String.intercalate ", " (spellList params)

/-- Spell a declaration of `name`, such as `int x` or `void (*cb)(int)`. -/
def declare (t : Ty) (name : String) : String :=
  match t.callback? with
  | some (result, params) => result.spell ++ " (*" ++ name ++ ")(" ++ spellParams params ++ ")"
  | none => t.spell ++ " " ++ name

/-! ## Reading -/

/-- Characters of which the declarator part of a spelling consists, blanks apart. -/
def isDeclarator (c : Char) : Bool := c == '*' || c == '&'

/-- The builtin type that some words spell once the sign is taken off. -/
def builtinWords (isSigned : Bool) : List String → Option Ty
  | [] => some (integer .int isSigned)
  | ["void"] => some void
  | ["bool"] => some bool
  | ["char"] => some (integer .char isSigned)
  | ["short"] => some (integer .short isSigned)
  | ["int"] => some (integer .int isSigned)
  | ["long"] => some (integer .long isSigned)
  | ["long", "long"] => some (integer .longLong isSigned)
  | ["float"] => some float
  | ["double"] => some double
  | _ => none

/-- Beside other words, `int` says nothing. -/
def dropInt (ws : List String) : List String :=
  if ws.length = 1 then ws else ws.filter (· != "int")

/-- The builtin type that a text spells. A sign is recognised as the first word only. -/
def builtin? (text : List Char) : Option Ty :=
  if text.isEmpty then none
  else match (Text.words text).map String.ofList with
    | "unsigned" :: ws => builtinWords false (dropInt ws)
    | "signed" :: ws => builtinWords true (dropInt ws)
    | ws => builtinWords true (dropInt ws)

/-- Wrap a type in declarators, read from left to right. Only the innermost one can be over a
constant. -/
def wrap (t : Ty) (isConst : Bool) : List Char → Ty
  | [] => t
  | '*' :: r => wrap (pointer t isConst) false r
  | [_] => reference t isConst false
  | _ :: d :: r =>
    if d = '&' then wrap (reference t isConst true) false r
    else wrap (reference t isConst false) false (d :: r)

/-- Take off a `const` that stands last and belongs to the declared thing itself, which is of no
interest to a caller. -/
def dropOuterConst (text : List Char) : List Char :=
  match Text.before? "const".toList text with
  | none => text
  | some rest =>
    match rest.getLast? with
    | none => text
    | some c => if Text.isBlank c || isDeclarator c then Text.trimEnd rest else text

/-- Take a leading `const` off a base, and say whether there was one. -/
def dropLeadingConst (base : List Char) : Bool × List Char :=
  match Text.after? "const ".toList base with
  | some rest => (true, Text.trim rest)
  | none => (false, base)

/-- Take a trailing `const` off a base, and say whether there was one. -/
def dropTrailingConst (base : List Char) : Bool × List Char :=
  match Text.before? " const".toList base with
  | some rest => (true, Text.trim rest)
  | none => (false, base)

/-- The declarators at the end of a text, and the base before them. -/
def splitDeclarators (text : List Char) : List Char × List Char :=
  let inTail := fun c => isDeclarator c || Text.isBlank c
  (Text.dropEndWhile inTail text, (text.reverse.takeWhile inTail).reverse.filter isDeclarator)

/-- The type of a base: a builtin type, else a name. -/
def ofBase (base : List Char) : Ty := (builtin? base).getD (named (String.ofList base))

/-- Read a spelling such as `const Foo&`, `unsigned int` or `char **`. -/
def ofSpelling (text : String) : Ty :=
  let (base, declarators) := splitDeclarators (dropOuterConst (Text.trim text.toList))
  let (constBefore, base) := dropLeadingConst (Text.trim base)
  let (constAfter, base) := dropTrailingConst base
  wrap (ofBase base) (constBefore || constAfter) declarators

end Ty

end RubyBinding
