import RubyBinding.Json.Value
import RubyBinding.Text.Blank
import RubyBinding.Text.Digits

/-!
# JSON tokens

`Token.scan?` cuts a text into punctuation and scalars. Between tokens only the four JSON blanks
may stand. A string ends at the first quote that is not escaped and may not hold a raw control
character or half of a surrogate pair; a number follows the JSON grammar and may not exceed the
range of a 64-bit float.
-/

namespace RubyBinding.Json

/-- Punctuation, or a scalar value. -/
inductive Token where
  | openBrace
  | closeBrace
  | openBracket
  | closeBracket
  | comma
  | colon
  | scalar (v : Value)
  deriving Repr

namespace Token

/-- Blank, horizontal tab, line feed and carriage return. -/
def isSpace (c : Char) : Bool := c == ' ' || c == '\t' || c == '\n' || c == '\r'

/-! ## Strings -/

/-- The number that four hexadecimal digits write. -/
def hexUnit? (a b c d : Char) : Option Nat := Text.ofDigits? 16 [a, b, c, d]

/-- The character that a backslash and `c` stand for. -/
def unescape? (c : Char) : Option Char :=
  if c = '"' ∨ c = '\\' ∨ c = '/' then some c
  else if c = 'n' then some '\n'
  else if c = 'r' then some '\r'
  else if c = 't' then some '\t'
  else if c = 'b' then some (Char.ofNat 8)
  else if c = 'f' then some (Char.ofNat 12)
  else none

/-- First half of a surrogate pair. -/
def isLead (n : Nat) : Bool := 0xD800 ≤ n && n ≤ 0xDBFF

/-- Second half of a surrogate pair. -/
def isTrail (n : Nat) : Bool := 0xDC00 ≤ n && n ≤ 0xDFFF

/-- The character of a surrogate pair. -/
def ofPair (lead trail : Nat) : Char :=
  Char.ofNat (0x10000 + (lead - 0xD800) * 0x400 + (trail - 0xDC00))

/-- The characters up to the closing quote, and what follows it. -/
def stringBody? : List Char → Option (List Char × List Char)
  | [] => none
  | '"' :: r => some ([], r)
  | '\\' :: 'u' :: a :: b :: c :: d :: r => do
    let n ← hexUnit? a b c d
    if isLead n then
      match r with
      | '\\' :: 'u' :: e :: f :: g :: h :: r' => do
        let m ← hexUnit? e f g h
        if isTrail m then
          let (cs, rest) ← stringBody? r'
          return (ofPair n m :: cs, rest)
        else none
      | _ => none
    else if isTrail n then none
    else
      let (cs, rest) ← stringBody? r
      return (Char.ofNat n :: cs, rest)
  | '\\' :: c :: r => do
    let u ← unescape? c
    let (cs, rest) ← stringBody? r
    return (u :: cs, rest)
  | c :: r => do
    if c.toNat < 0x20 ∨ c = '\\' then none
    else
      let (cs, rest) ← stringBody? r
      return (c :: cs, rest)

/-! ## Numbers -/

/-- Characters that occur in numbers and literals. -/
def isWordChar (c : Char) : Bool :=
  c.isAlphanum || c == '+' || c == '-' || c == '.'

/-- The parts of a number: sign, integer digits, fraction digits, exponent sign and digits. -/
structure Parts where
  isNegative : Bool
  whole : List Char
  fraction : List Char
  exponentNegative : Bool
  exponent : List Char

/-- Split a word into the parts of a number by the JSON grammar. -/
def parts? (word : List Char) : Option Parts :=
  let (isNegative, body) := match word with
    | '-' :: r => (true, r)
    | _ => (false, word)
  let whole := body.takeWhile Char.isDigit
  let afterWhole := body.dropWhile Char.isDigit
  let (hasPoint, afterPoint) := match afterWhole with
    | '.' :: r => (true, r)
    | _ => (false, afterWhole)
  let fraction := if hasPoint then afterPoint.takeWhile Char.isDigit else []
  let afterFraction := if hasPoint then afterPoint.dropWhile Char.isDigit else afterPoint
  let wholeOk := match whole with
    | [] => false
    | '0' :: r => r.isEmpty
    | _ => true
  if !wholeOk || (hasPoint && fraction.isEmpty) then none
  else match afterFraction with
    | [] => some ⟨isNegative, whole, fraction, false, []⟩
    | e :: r =>
      let (exponentNegative, exponent) := match r with
        | '-' :: s => (true, s)
        | '+' :: s => (false, s)
        | _ => (false, r)
      if (e == 'e' || e == 'E') && !exponent.isEmpty && exponent.all Char.isDigit then
        some ⟨isNegative, whole, fraction, exponentNegative, exponent⟩
      else none

/-- A number as far as it is kept: a significand of at most 64 bits and a power of ten. -/
structure Kept where
  significand : Nat := 0
  exponent : Int := 0

/-- The significand with one more digit, if 64 bits hold it. -/
def Kept.grow? (k : Kept) (d : Char) : Option Nat :=
  let n := k.significand * 10 + (d.toNat - 0x30)
  if n < Nat.pow 2 64 then some n else none

/-- Keep the digits of a whole number. From the first that does not fit on, each is one power. -/
def Kept.addWhole (k : Kept) : List Char → Kept
  | [] => k
  | d :: ds =>
    match k.grow? d with
    | some n => Kept.addWhole { k with significand := n } ds
    | none => { k with exponent := k.exponent + (d :: ds).length }

/-- Keep the digits of a fraction, up to the first that does not fit. -/
def Kept.addFraction (k : Kept) : List Char → Kept
  | [] => k
  | d :: ds =>
    match k.grow? d with
    | some n => Kept.addFraction ⟨n, k.exponent - 1⟩ ds
    | none => k

/-- Whether a number lies within the range of a 64-bit float. What is kept of its digits and its
power of ten are each rounded to a float, and so is their product. -/
def Parts.inRange (p : Parts) : Bool :=
  let written : Int := Text.digitsValue p.exponent
  let kept := (({} : Kept).addWhole p.whole).addFraction p.fraction
  let exponent := kept.exponent + if p.exponentNegative then -written else written
  if kept.significand = 0 || exponent < 0 then true
  else if exponent > 308 then false
  else Text.isFinite (Text.significant 53 kept.significand *
    Text.significant 53 (Nat.pow 10 exponent.toNat)) 0

/-- The number a word writes. Integers beyond 64 bits, and a negative zero, are no integers. -/
def number? (word : List Char) : Option Value := do
  let p ← parts? word
  if !p.inRange then none
  else if '.' ∈ word ∨ 'e' ∈ word ∨ 'E' ∈ word then return .decimal (String.ofList word)
  else
    let n := Text.digitsValue p.whole
    if p.isNegative then
      if 0 < n ∧ n ≤ Nat.pow 2 63 then return .integer (-n) else return .decimal (String.ofList word)
    else if n < Nat.pow 2 64 then return .integer n
    else return .decimal (String.ofList word)

/-- The scalar a word writes. -/
def word? (word : List Char) : Option Value :=
  if word = "null".toList then some .null
  else if word = "true".toList then some (.bool true)
  else if word = "false".toList then some (.bool false)
  else number? word

/-! ## Scanning -/

/-- The punctuation mark that a character is. -/
def mark? (c : Char) : Option Token :=
  if c = '\x7b' then some openBrace
  else if c = '\x7d' then some closeBrace
  else if c = '[' then some openBracket
  else if c = ']' then some closeBracket
  else if c = ',' then some comma
  else if c = ':' then some colon
  else none

theorem length_le_of_stringBody? {cs body rest : List Char}
    (h : stringBody? cs = some (body, rest)) : rest.length < cs.length := by
  fun_induction stringBody? cs generalizing body rest <;> simp_all [bind, Option.bind] <;> grind

/-- The tokens of a text. -/
def scan? : List Char → Option (List Token)
  | [] => some []
  | c :: r =>
    if isSpace c then scan? r
    else match mark? c with
      | some t => (scan? r).map (t :: ·)
      | none =>
        if c = '"' then
          match h : stringBody? r with
          | none => none
          | some (body, rest) =>
            have := length_le_of_stringBody? h
            (scan? rest).map (scalar (.string (String.ofList body)) :: ·)
        else
          match word? (c :: r.takeWhile isWordChar) with
          | none => none
          | some v =>
            have := Text.length_dropWhile_le isWordChar r
            (scan? (r.dropWhile isWordChar)).map (scalar v :: ·)
termination_by cs => cs.length

end Token

end RubyBinding.Json
