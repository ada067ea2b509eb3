import RubyBinding.Text.Blank
import RubyBinding.Text.Casing

/-!
# Names in generated code

Three rules turn a C++ name into another name: `identifier` squeezes a qualified name into a C
identifier, `methodName` and `constantName` give the names a Ruby programmer expects. The first is
many to one, so identifiers of one run are drawn from `Fresh`, which numbers a name that was taken.
-/

namespace RubyBinding

/-! ## Rules -/

/-- The text without any `::` at its start. -/
def dropGlobal : List Char → List Char
  | ':' :: ':' :: r => dropGlobal r
  | cs => cs

/-- `::` becomes an underscore, `*` becomes `Ptr`, and what else is no ASCII letter or digit
becomes an underscore. -/
def identifierChars : List Char → List Char
  | [] => []
  | ':' :: ':' :: r => '_' :: identifierChars r
  | '*' :: r => 'P' :: 't' :: 'r' :: identifierChars r
  | c :: r => (if Text.isAsciiAlphanumeric c then c else '_') :: identifierChars r

/-- A C identifier (up to its first character) for a C++ name: `math_Vector` for `math::Vector`. -/
def identifier (name : String) : String :=
  String.ofList (identifierChars (dropGlobal name.toList))

/-- The Ruby name of a C++ function or member: `get_length` for `getLength`. -/
def methodName (name : String) : String := Text.snakeCase name

/-- The Ruby name of a C++ class, enumeration or namespace. A name that starts with an ASCII capital
stays as it is; any other is put into camel case. -/
def constantName (name : String) : String :=
  match name.toList with
  | [] => Text.camelCase name
  | c :: _ => if c.toNat < 0x80 && Text.isCapital c then name else Text.camelCase name

/-- Destructors and operators have no Ruby name of their own. -/
def isSpecialMember (name : String) : Bool :=
  (Text.after? ['~'] name.toList).isSome || (Text.after? "operator".toList name.toList).isSome

/-! ## Fresh names -/

/-- The names handed out so far, latest first. -/
structure Fresh where
  taken : List String := []
  deriving Repr, DecidableEq

namespace Fresh

/-- The candidates for a name: the name itself, then `name_1`, `name_2` and so on. -/
def numbered (name : String) : Nat → String
  | 0 => name
  | k + 1 => name ++ "_" ++ toString (k + 1)

/-- The first candidate that is not taken. Candidates differ from each other, so one of the first
`taken.length + 1` is free. -/
def candidate (taken : List String) (name : String) : String :=
  match (List.range (taken.length + 1)).find? fun k => !taken.contains (numbered name k) with
  | some k => numbered name k
  | none => name

/-- Hand out the first free candidate for `name`. -/
def pick (fresh : Fresh) (name : String) : String × Fresh :=
  let chosen := candidate fresh.taken name
  (chosen, ⟨chosen :: fresh.taken⟩)

/-- Hand out a name for each entry, in order. -/
def pickAll (fresh : Fresh) : List String → List String × Fresh
  | [] => ([], fresh)
  | name :: names =>
    let (chosen, fresh) := fresh.pick name
    let (others, fresh) := fresh.pickAll names
    (chosen :: others, fresh)

end Fresh

end RubyBinding
