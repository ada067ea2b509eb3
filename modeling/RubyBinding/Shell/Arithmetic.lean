import RubyBinding.Shell.Numeral

/-!
# Expressions of integers

The expressions between `$((` and `))`. Integers have 64 bits. An expression may set variables, and
of `&&`, `||` and `?:` only the operands that count are evaluated.
-/

namespace RubyBinding.Shell.Arithmetic

/-- Why an expression has no value. -/
inductive Fault where
  | expected (what : String)
  | divisionByZero
  | notInteger (text : String)
  deriving DecidableEq, Repr

/-- An expression, as far as it could be read. -/
inductive Expression where
  | number (n : Int)
  | named (name : String)
  | unary (operator : Char) (e : Expression)
  | binary (operator : String) (e f : Expression)
  | also (e f : Expression)
  | orElse (e f : Expression)
  | choice (test e f : Expression)
  /-- Set a variable, to the value of an operator with what it was if there is an operator. -/
  | assign (name operator : String) (e : Expression)
  /-- Nothing that could be read. -/
  | missing (what : String)
  /-- An expression behind which something is missing. -/
  | cut (e : Expression) (what : String)
  deriving Repr, Inhabited

/-! ## Tokens -/

inductive Token where
  | number (n : Int)
  | name (text : String)
  | mark (text : String)
  deriving DecidableEq, Repr

/-- An integer as 64 bits hold it. -/
def wrap (n : Int) : Int := Int.bmod n (Nat.pow 2 64)

/-- The number at the beginning of a text that begins with a digit, and the rest. -/
def literal (cs : List Char) : Int × List Char :=
  let (n, rest) := (Numeral.literal? cs).getD (0, [])
  (Numeral.clamp n, rest)

/-- The marks, longer ones first. -/
def marks : List String :=
  ["<<=", ">>=", "<<", ">>", "<=", ">=", "==", "!=", "&&", "||", "*=", "/=", "%=", "+=", "-=", "&=",
    "^=", "|=", "=", "<", ">", "+", "-", "*", "/", "%", "&", "|", "^", "!", "~", "?", ":", "(", ")"]

def isNameStart (c : Char) : Bool := c.isAlpha || c == '_'

/-- The tokens of an expression; `fuel` bounds their number. A character that begins none is a mark
without a meaning. -/
def tokens : Nat → List Char → List Token
  | 0, _ => []
  | _ + 1, [] => []
  | fuel + 1, c :: r =>
    if c == ' ' || c == '\t' || c == '\n' then tokens fuel r
    else if c.isDigit then
      let (n, rest) := literal (c :: r)
      .number n :: tokens fuel rest
    else if isNameStart c then
      let isNameChar := fun (d : Char) => d.isAlphanum || d == '_'
      .name (String.ofList (c :: r.takeWhile isNameChar)) :: tokens fuel (r.dropWhile isNameChar)
    else
      match marks.find? fun m => m.toList.isPrefixOf (c :: r) with
      | some m => .mark m :: tokens fuel ((c :: r).drop m.length)
      | none => .mark (String.singleton c) :: tokens fuel r

/-! ## Reading -/

/-- How tightly an operator between two operands holds them. -/
def level? : String → Option Nat
  | "||" => some 0
  | "&&" => some 1
  | "|" => some 2
  | "^" => some 3
  | "&" => some 4
  | "==" => some 5
  | "!=" => some 5
  | "<" => some 6
  | ">" => some 6
  | "<=" => some 6
  | ">=" => some 6
  | "<<" => some 7
  | ">>" => some 7
  | "+" => some 8
  | "-" => some 8
  | "*" => some 9
  | "/" => some 9
  | "%" => some 9
  | _ => none

/-- The operator that a mark of assignment ends in an equals sign. -/
def assignment? : String → Option String
  | "=" => some ""
  | "*=" => some "*"
  | "/=" => some "/"
  | "%=" => some "%"
  | "+=" => some "+"
  | "-=" => some "-"
  | "<<=" => some "<<"
  | ">>=" => some ">>"
  | "&=" => some "&"
  | "^=" => some "^"
  | "|=" => some "|"
  | _ => none

/-- Two operands with an operator between. -/
def combine (operator : String) (e f : Expression) : Expression :=
  match operator with
  | "&&" => .also e f
  | "||" => .orElse e f
  | _ => .binary operator e f

mutual

/-- The operand at the beginning of tokens, and what follows. -/
def operand : Nat → List Token → Expression × List Token
  | 0, _ => (.missing "primary", [])
  | fuel + 1, ts =>
    match ts with
    | .number n :: r => (.number n, r)
    | .name x :: r => (.named x, r)
    | .mark "(" :: r =>
      match whole fuel r with
      | (e, .mark ")" :: rest) => (e, rest)
      | (e, _) => (.cut e "')'", [])
    | .mark m :: r =>
      if m == "+" || m == "-" || m == "!" || m == "~" then
        let (e, rest) := operand fuel r
        (.unary (m.toList.headD '+') e, rest)
      else (.missing "primary", [])
    | [] => (.missing "primary", [])

/-- What follows an operand, as far as operators hold it as tightly as a level. -/
def climb (lowest : Nat) (e : Expression) : Nat → List Token → Expression × List Token
  | 0, ts => (e, ts)
  | fuel + 1, ts =>
    match ts with
    | .mark m :: r =>
      match level? m with
      | some n =>
        if n < lowest then (e, ts)
        else
          let (f, rest) := operand fuel r
          let (f, rest) := climb (n + 1) f fuel rest
          climb lowest (combine m e f) fuel rest
      | none => (e, ts)
    | _ => (e, ts)
termination_by structural fuel => fuel

/-- An expression without an assignment in front. -/
def choosing : Nat → List Token → Expression × List Token
  | 0, _ => (.missing "primary", [])
  | fuel + 1, ts =>
    let (e, rest) := operand fuel ts
    let (e, rest) := climb 0 e fuel rest
    match rest with
    | .mark "?" :: r =>
      match whole fuel r with
      | (f, .mark ":" :: rest) =>
        let (g, rest) := choosing fuel rest
        (.choice e f g, rest)
      | (f, _) => (.choice e (.cut f "':'") (.number 0), [])
    | _ => (e, rest)

/-- An expression. -/
def whole : Nat → List Token → Expression × List Token
  | 0, _ => (.missing "primary", [])
  | fuel + 1, ts =>
    let assigned := match ts with
      | .name x :: .mark m :: r => (assignment? m).map fun operator => (x, operator, r)
      | _ => none
    match assigned with
    | some (x, operator, r) =>
      let (e, rest) := whole fuel r
      (.assign x operator e, rest)
    | none => choosing fuel ts

end

/-- Read an expression. -/
def read (text : String) : Expression :=
  let ts := tokens (text.length + 1) text.toList
  match whole (8 * ts.length + 8) ts with
  | (e, []) => e
  | (e, _) => .cut e "EOF"

/-! ## Values -/

/-- The bits of an integer. -/
def bits (n : Int) : Nat := (n % Int.pow 2 64).toNat

/-- The value of an operator between two values. -/
def apply (operator : String) (a b : Int) : Except Fault Int :=
  let truth := fun (p : Bool) => if p then (1 : Int) else 0
  match operator with
  | "+" => .ok (wrap (a + b))
  | "-" => .ok (wrap (a - b))
  | "*" => .ok (wrap (a * b))
  | "/" => if b = 0 then .error .divisionByZero else .ok (wrap (Int.tdiv a b))
  | "%" => if b = 0 then .error .divisionByZero else .ok (wrap (Int.tmod a b))
  | "<<" => .ok (wrap (a * Int.pow 2 (bits b % 64)))
  | ">>" => .ok (wrap (Int.fdiv a (Int.pow 2 (bits b % 64))))
  | "<" => .ok (truth (a < b))
  | ">" => .ok (truth (b < a))
  | "<=" => .ok (truth (a ≤ b))
  | ">=" => .ok (truth (b ≤ a))
  | "==" => .ok (truth (a = b))
  | "!=" => .ok (truth (a ≠ b))
  | "&" => .ok (wrap (bits a &&& bits b : Nat))
  | "|" => .ok (wrap (bits a ||| bits b : Nat))
  | "^" => .ok (wrap (bits a ^^^ bits b : Nat))
  | _ => .ok b

/-- The integer that the value of a variable writes; a missing or blank one counts as zero. -/
def ofText? (text : String) : Except Fault Int :=
  let isBlank := fun (cs : List Char) => (cs.dropWhile Numeral.isBlank).isEmpty
  match Numeral.integer? Numeral.literal? text.toList with
  | some (n, rest) =>
    if isBlank rest && Numeral.isInRange n then .ok n else .error (.notInteger text)
  | none => if isBlank text.toList then .ok 0 else .error (.notInteger text)

/-- What an expression reads and sets: variables by their names. -/
abbrev Variables := List (String × String)

abbrev Evaluation := StateT Variables (Except Fault)

/-- The value of an expression. One that is skipped sets nothing and has no value of its own, but what
it lacks is missed all the same. -/
def Expression.evaluate (isSkipped : Bool) : Expression → Evaluation Int
  | number n => return n
  | named name => do
    if isSkipped then return 0
    ofText? (((← get).lookup name).getD "")
  | unary operator e => do
    let n ← e.evaluate isSkipped
    match operator with
    | '-' => return wrap (-n)
    | '!' => return if n = 0 then 1 else 0
    | '~' => return -n - 1
    | _ => return n
  | binary operator e f => do
    let a ← e.evaluate isSkipped
    let b ← f.evaluate isSkipped
    if isSkipped then return b
    apply operator a b
  | also e f => do
    let a ← e.evaluate isSkipped
    let b ← f.evaluate (isSkipped || a = 0)
    return if a = 0 || b = 0 then 0 else 1
  | orElse e f => do
    let a ← e.evaluate isSkipped
    let b ← f.evaluate (isSkipped || a ≠ 0)
    return if a = 0 && b = 0 then 0 else 1
  | choice test e f => do
    let a ← test.evaluate isSkipped
    let b ← e.evaluate (isSkipped || a = 0)
    let c ← f.evaluate (isSkipped || a ≠ 0)
    return if a = 0 then c else b
  | assign name operator e => do
    let b ← e.evaluate isSkipped
    if isSkipped then return b
    let a ← if operator.isEmpty then pure 0 else ofText? (((← get).lookup name).getD "")
    let n ← apply operator a b
    modify fun vs => (name, toString n) :: vs
    return n
  | missing what => throw (.expected what)
  | cut e what => do
    let _ ← e.evaluate isSkipped
    throw (.expected what)

end RubyBinding.Shell.Arithmetic
