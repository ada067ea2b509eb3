import RubyBinding.Text.Digits

/-!
# Integers in the arguments of commands

How commands read integers: blanks and a sign may stand in front. What follows an integer is returned,
so that each command decides itself what it makes of it. Integers have 64 bits; one beyond them is the
nearest that is not.
-/

namespace RubyBinding.Shell.Numeral

/-- Blanks in front of an integer or behind it. -/
def isBlank (c : Char) : Bool := c == ' ' || (0x09 ≤ c.toNat && c.toNat ≤ 0x0D)

/-- The number that the digits at the beginning of a text write behind `n`, and the rest. -/
def digits (base n : Nat) : List Char → Nat × List Char
  | [] => (n, [])
  | c :: r =>
    match (Text.hexValue? c).filter (· < base) with
    | some d => digits base (n * base + d) r
    | none => (n, c :: r)

/-- The number at the beginning of a text in a base; none if there is no digit. -/
def natural? (base : Nat) (cs : List Char) : Option (Nat × List Char) :=
  let (n, rest) := digits base 0 cs
  if rest.length = cs.length then none else some (n, rest)

/-- The number at the beginning of a text, hexadecimal behind `0x` and octal behind `0`. -/
def literal? : List Char → Option (Nat × List Char)
  | '0' :: 'x' :: r => (natural? 16 r).orElse fun _ => some (0, 'x' :: r)
  | '0' :: 'X' :: r => (natural? 16 r).orElse fun _ => some (0, 'X' :: r)
  | '0' :: r => natural? 8 ('0' :: r)
  | cs => natural? 10 cs

/-- The integer at the beginning of a text, and the rest. -/
def integer? (number? : List Char → Option (Nat × List Char)) (text : List Char) :
    Option (Int × List Char) :=
  match text.dropWhile isBlank with
  | '-' :: r => (number? r).map fun (n, rest) => (-(n : Int), rest)
  | '+' :: r => (number? r).map fun (n, rest) => ((n : Int), rest)
  | cs => (number? cs).map fun (n, rest) => ((n : Int), rest)

def smallest : Int := -Int.pow 2 63

def largest : Int := Int.pow 2 63 - 1

/-- Whether 64 bits hold an integer. -/
def isInRange (n : Int) : Bool := smallest ≤ n && n ≤ largest

/-- The nearest integer that 64 bits hold. -/
def clamp (n : Int) : Int := max smallest (min n largest)

/-- The integer that a text writes. -/
def ofText? (text : String) : Option Int :=
  match integer? (natural? 10) text.toList with
  | some (n, rest) => if (rest.dropWhile isBlank).isEmpty && isInRange n then some n else none
  | none => none

/-- The number that a text of nothing but digits writes. -/
def ofDigits? (text : String) : Option Nat :=
  if text.isEmpty then none else Text.ofDigits? 10 text.toList

end RubyBinding.Shell.Numeral
