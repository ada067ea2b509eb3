import RubyBinding.Text.Blank
import RubyBinding.Text.Digits
import RubyBinding.Toml.Value

/-!
# Numbers, dates and truth values in TOML

A scalar without quotes is one word; only a date and a time may be apart by a blank. `scalar?` says
what a word writes. Integers have 64 bits, numbers with a fraction or exponent are refused where
they would round to infinity, and dates and times have to exist.
-/

namespace RubyBinding.Toml

/-! ## Numbers -/

/-- Digits of a base with single underscores between them, without the underscores. -/
def grouped? (isDigit : Char → Bool) : List Char → Option (List Char)
  | [] => none
  | [c] => if isDigit c then some [c] else none
  | c :: '_' :: r => if isDigit c then (grouped? isDigit r).map (c :: ·) else none
  | c :: r => if isDigit c then (grouped? isDigit r).map (c :: ·) else none

/-- The digits of a decimal number before its point, which has no needless zero in front. -/
def whole? (cs : List Char) : Option (List Char) :=
  match cs with
  | '0' :: _ :: _ => none
  | _ => grouped? Char.isDigit cs

/-- A sign, and what follows it. -/
def splitSign : List Char → Bool × List Char
  | '-' :: r => (true, r)
  | '+' :: r => (false, r)
  | cs => (false, cs)

/-- A word is an integer if it fits 64 bits. -/
def sized? (n : Int) : Option Value :=
  if -Int.pow 2 63 ≤ n ∧ n < Int.pow 2 63 then some (.integer n) else none

/-- An integer in a base other than ten. -/
def based? (base : Nat) (cs : List Char) : Option Value := do
  let ds ← grouped? (fun c => (Text.hexValue? c).isSome) cs
  sized? (← Text.ofDigits? base ds)

/-- An integer. -/
def integer? (cs : List Char) : Option Value :=
  match cs with
  | '0' :: 'x' :: r => based? 16 r
  | '0' :: 'o' :: r => based? 8 r
  | '0' :: 'b' :: r => based? 2 r
  | _ => do
    let (isNegative, body) := splitSign cs
    let n : Int := Text.digitsValue (← whole? body)
    sized? (if isNegative then -n else n)

/-- The exponent of a number. -/
def exponent? (cs : List Char) : Option Int := do
  let (isNegative, body) := splitSign cs
  let n : Int := Text.digitsValue (← grouped? Char.isDigit body)
  return if isNegative then -n else n

/-- A number with a fraction or an exponent. -/
def decimal? (cs : List Char) : Option Value := do
  let (isNegative, body) := splitSign cs
  let text := Value.decimal (String.ofList cs)
  if body = "inf".toList ∨ body = "nan".toList then return text
  let isE := fun c => c == 'e' || c == 'E'
  if !body.any fun c => isE c || c == '.' then none
  let number := body.takeWhile fun c => !isE c
  let exponent ← match body.dropWhile fun c => !isE c with
    | [] => some 0
    | _ :: r => exponent? r
  let whole ← whole? (number.takeWhile (· != '.'))
  let fraction ← match number.dropWhile (· != '.') with
    | [] => some []
    | _ :: r => grouped? Char.isDigit r
  let scale := exponent - fraction.length
  if isNegative || Text.isFinite (Text.digitsValue (whole ++ fraction)) scale then return text
  else none

/-! ## Dates and times -/

/-- Two digits that write a number within bounds, and what follows them. -/
def pair? (low high : Nat) : List Char → Option (Nat × List Char)
  | a :: b :: r =>
    let n := Text.digitsValue [a, b]
    if a.isDigit && b.isDigit && low ≤ n && n ≤ high then some (n, r) else none
  | _ => none

/-- Number of days in a month. -/
def daysIn (year month : Nat) : Nat :=
  if month = 2 then
    if year % 4 = 0 ∧ (year % 100 ≠ 0 ∨ year % 400 = 0) then 29 else 28
  else if month = 4 ∨ month = 6 ∨ month = 9 ∨ month = 11 then 30
  else 31

/-- What follows a date. -/
def afterDate? (cs : List Char) : Option (List Char) := do
  let (century, r) ← pair? 0 99 cs
  let (year, r) ← pair? 0 99 r
  let (month, r) ← pair? 1 12 (← Text.after? ['-'] r)
  let (_, r) ← pair? 1 (daysIn (century * 100 + year) month) (← Text.after? ['-'] r)
  return r

/-- What follows a time of the day. -/
def afterTime? (cs : List Char) : Option (List Char) := do
  let (_, r) ← pair? 0 23 cs
  let (_, r) ← pair? 0 59 (← Text.after? [':'] r)
  let (_, r) ← pair? 0 60 (← Text.after? [':'] r)
  match r with
  | '.' :: d :: s => if d.isDigit then return s.dropWhile Char.isDigit else none
  | _ => return r

/-- Whether a text is a distance from universal time, or empty. -/
def isOffset : List Char → Bool
  | [] => true
  | ['Z'] | ['z'] => true
  | s :: r =>
    (s == '+' || s == '-') && (do
      let (_, r) ← pair? 0 23 r
      let (_, r) ← pair? 0 59 (← Text.after? [':'] r)
      if r.isEmpty then some () else none).isSome

/-- A date, a time, or both, the latter with or without an offset. -/
def moment? (cs : List Char) : Option Value :=
  let isMoment := match afterDate? cs with
    | some [] => true
    | some (d :: r) => (d == 'T' || d == 't' || d == ' ') && (afterTime? r).any isOffset
    | none => afterTime? cs == some []
  if isMoment then some (.moment (String.ofList cs)) else none

/-! ## Scalars -/

/-- What a word writes. -/
def scalar? (cs : List Char) : Option Value :=
  if cs = "true".toList then some (.boolean true)
  else if cs = "false".toList then some (.boolean false)
  else (moment? cs).or ((integer? cs).or (decimal? cs))

end RubyBinding.Toml
