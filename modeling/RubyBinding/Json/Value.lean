/-!
# JSON values and their text

A value keeps the members of an object in the order they were given, repeated keys included: what
a repeated key means is for the reader of a particular document to say.

Numbers are integers where they fit 64 bits; every other number is kept as it was written, because
nothing here computes with it. `Value.compact` writes a value on one line, `Value.pretty` with one
member or element a line and two blanks of indentation a level.
-/

namespace RubyBinding.Json

/-- A JSON value. -/
inductive Value where
  | null
  | bool (b : Bool)
  | integer (n : Int)
  | decimal (text : String)
  | string (s : String)
  | array (items : List Value)
  | object (members : List (String × Value))
  deriving Repr, Inhabited, BEq

/-! ## Strings -/

/-- The hexadecimal digit of a number below sixteen. -/
def hexDigit (n : Nat) : Char := Nat.digitChar n

/-- How a character is written inside a string: quotes, backslashes and control characters are
escaped, all else stands for itself. -/
def escapeChar (c : Char) : List Char :=
  if c = '"' then ['\\', '"']
  else if c = '\\' then ['\\', '\\']
  else if c = '\n' then ['\\', 'n']
  else if c = '\r' then ['\\', 'r']
  else if c = '\t' then ['\\', 't']
  else if c.toNat = 8 then ['\\', 'b']
  else if c.toNat = 12 then ['\\', 'f']
  else if c.toNat < 0x20 then
    ['\\', 'u', '0', '0', hexDigit (c.toNat / 16), hexDigit (c.toNat % 16)]
  else [c]

/-- A string with its quotes. -/
def quoted (s : String) : String :=
  String.ofList ('"' :: (s.toList.flatMap escapeChar ++ ['"']))

/-! ## Writing -/

/-- A line break and the indentation of a level. -/
def newline (level : Nat) : String := "\n" ++ String.ofList (List.replicate (2 * level) ' ')

namespace Value

mutual

/-- The value on one line, without blanks. -/
def compact : Value → String
  | null => "null"
  | bool b => if b then "true" else "false"
  | integer n => toString n
  | decimal text => text
  | string s => quoted s
  | array items => "[" ++ String.intercalate "," (compactItems items) ++ "]"
  | object members => "\x7b" ++ String.intercalate "," (compactMembers members) ++ "\x7d"

def compactItems : List Value → List String
  | [] => []
  | v :: vs => compact v :: compactItems vs

def compactMembers : List (String × Value) → List String
  | [] => []
  | (k, v) :: ms => (quoted k ++ ":" ++ compact v) :: compactMembers ms

end

mutual

/-- The value as it is written at an indentation level. -/
def prettyAt (level : Nat) : Value → String
  | null => "null"
  | bool b => if b then "true" else "false"
  | integer n => toString n
  | decimal text => text
  | string s => quoted s
  | array [] => "[]"
  | array (v :: vs) =>
    "[" ++ newline (level + 1) ++ prettyAt (level + 1) v ++ prettyItems level vs ++
      newline level ++ "]"
  | object [] => "\x7b\x7d"
  | object ((k, v) :: ms) =>
    "\x7b" ++ newline (level + 1) ++ quoted k ++ ": " ++ prettyAt (level + 1) v ++
      prettyMembers level ms ++ newline level ++ "\x7d"

/-- The items of an array after its first. -/
def prettyItems (level : Nat) : List Value → String
  | [] => ""
  | v :: vs => "," ++ newline (level + 1) ++ prettyAt (level + 1) v ++ prettyItems level vs

/-- The members of an object after its first. -/
def prettyMembers (level : Nat) : List (String × Value) → String
  | [] => ""
  | (k, v) :: ms =>
    "," ++ newline (level + 1) ++ quoted k ++ ": " ++ prettyAt (level + 1) v ++
      prettyMembers level ms

end

/-- The value over several lines, two blanks of indentation a level. -/
def pretty (v : Value) : String := prettyAt 0 v

end Value

end RubyBinding.Json
