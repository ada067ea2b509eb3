import RubyBinding.Shell.Numeral

/-!
# Conditions

The conditions that `test` decides. A condition is a list of words, and whether a word is an operator
or an operand depends on its neighbours. What it asks about files is answered by `fact`.

A condition is decided while it is read, so operands are looked at even if the answer does not depend
on them any more.
-/

namespace RubyBinding.Shell.Condition

/-- What is asked about one path, or about two. -/
inductive Query where
  | one (operator path : String)
  | two (operator first second : String)
  deriving DecidableEq, Repr

/-- How many operands an operator has, and where. -/
inductive Arity where
  | unary
  | binary
  | negation
  | joint
  | parenthesis
  deriving DecidableEq, Repr

/-- What kind of operator a word can be. -/
def arity? (word : String) : Option Arity :=
  if ["-r", "-w", "-x", "-e", "-f", "-d", "-c", "-b", "-p", "-u", "-g", "-k", "-s", "-t", "-z", "-n",
      "-h", "-L", "-O", "-G", "-S"].contains word then some .unary
  else if ["=", "!=", "<", ">", "-eq", "-ne", "-ge", "-gt", "-le", "-lt", "-nt", "-ot",
      "-ef"].contains word then some .binary
  else if word == "!" then some .negation
  else if word == "-a" || word == "-o" then some .joint
  else if word == "(" || word == ")" then some .parenthesis
  else none

/-- What a word is where it stands. -/
inductive Role where
  | ending
  | operand
  | operator (word : String) (arity : Arity)
  deriving DecidableEq, Repr

variable {m : Type → Type} [Monad m]

section

variable (words : Array String)

/-- What the word at a position is. An operator in front of a single operand is an operand itself if
it has none, or if a binary operator comes next. -/
def roleAt (i : Nat) : Role :=
  match words[i]? with
  | none => .ending
  | some word =>
    match arity? word with
    | none => .operand
    | some a =>
      let next := words[i + 1]?
      let isOperand :=
        (a == .unary && (next.isNone ||
          (words[i + 2]?).isSome && next.any (arity? · == some .binary))) ||
        (word == "(" && next.isNone)
      if isOperand then .operand else .operator word a

/-- Deciding: the position of the word at hand, and the answer or a report. -/
abbrev Decision (m : Type → Type) := StateT Nat (ExceptT String m)

def report {α : Type} (text : String) : Decision m α := throw text

/-- The integer that an operand is. -/
def integer (text : String) : Decision m Int :=
  match Numeral.ofText? text with
  | some n => return n
  | none => report ("Illegal number: " ++ text)

/-- What an operator between two operands says of them. -/
def compare (fact : Query → m Bool) (operator first second : String) : Decision m Bool :=
  let order := fun (p : Int → Int → Bool) => do
    let a ← integer first
    let b ← integer second
    return p a b
  match operator with
  | "=" => return first == second
  | "!=" => return first != second
  | "<" => return first < second
  | ">" => return second < first
  | "-eq" => order (· == ·)
  | "-ne" => order (· != ·)
  | "-ge" => order (· ≥ ·)
  | "-gt" => order (· > ·)
  | "-le" => order (· ≤ ·)
  | "-lt" => order (· < ·)
  | _ => fact (.two operator first second)

/-- What an operator in front of an operand says of it. -/
def examine (fact : Query → m Bool) (operator operand : String) : Decision m Bool :=
  match operator with
  | "-z" => return operand.isEmpty
  | "-n" => return !operand.isEmpty
  | "-t" => do
    let _ ← integer operand
    return false
  | _ => fact (.one operator operand)

/-- Go on to the next word; what it is. -/
def advance : Decision m Role := do
  modify (· + 1)
  return roleAt words (← get)

mutual

/-- Alternatives. `r` is what the word at hand is. -/
def alternatives (fact : Query → m Bool) (r : Role) (sofar : Bool) : Nat → Decision m Bool
  | 0 => return sofar
  | fuel + 1 => do
    let holds := (← conjunction fact r true fuel) || sofar
    if roleAt words ((← get) + 1) = .operator "-o" .joint then
      modify (· + 1)
      alternatives fact (← advance words) holds fuel
    else return holds

/-- Conditions all of which are to hold. -/
def conjunction (fact : Query → m Bool) (r : Role) (sofar : Bool) : Nat → Decision m Bool
  | 0 => return sofar
  | fuel + 1 => do
    let holds := (← negation fact r fuel) && sofar
    if roleAt words ((← get) + 1) = .operator "-a" .joint then
      modify (· + 1)
      conjunction fact (← advance words) holds fuel
    else return holds

/-- A condition, or the opposite of one. -/
def negation (fact : Query → m Bool) (r : Role) : Nat → Decision m Bool
  | 0 => return false
  | fuel + 1 => do
    if r = .operator "!" .negation then
      let next := roleAt words ((← get) + 1)
      if next != .ending then modify (· + 1)
      return !(← negation fact next fuel)
    else single fact r fuel

/-- A condition without joints. -/
def single (fact : Query → m Bool) (r : Role) : Nat → Decision m Bool
  | 0 => return false
  | fuel + 1 => do
    match r with
    | .ending => return false
    | .operator "(" _ =>
      let inner ← advance words
      if inner = .operator ")" .parenthesis then return false
      let holds ← alternatives fact inner false fuel
      if (← advance words) != .operator ")" .parenthesis then report "closing paren expected"
      return holds
    | .operator word .unary =>
      modify (· + 1)
      match words[← get]? with
      | some operand => examine fact word operand
      | none => report (word ++ ": argument expected")
    | _ =>
      let first := (words[← get]?).getD ""
      match roleAt words ((← get) + 1) with
      | .operator word .binary =>
        modify (· + 2)
        match words[← get]? with
        | some second => compare fact word first second
        | none => report (word ++ ": argument expected")
      | _ => return !first.isEmpty

end

/-- Decide all the words; `first` is what the first of them is. -/
def decideAll (fact : Query → m Bool) (first : Role) : ExceptT String m Bool := do
  let (holds, last) ← (alternatives words fact first false (8 * words.size + 8)).run 0
  match words[last]?, words[last + 1]? with
  | some word, some _ =>
    throw ((if word.isEmpty then "" else word ++ ": ") ++ "unexpected operator")
  | _, _ => return holds

end

/-- Decide the words of a condition. Of three words a binary operator in the middle is one, whatever the
others are; else an exclamation mark in front of two or three words, or parentheses around one or two,
are what they seem. `isNegated` says that there was an exclamation mark. -/
def ofWords (fact : Query → m Bool) (isNegated : Bool) (words : List String) :
    ExceptT String m Bool := do
  let whole := fun (ws : List String) (first : Option Role) => do
    let ws := ws.toArray
    let holds ← decideAll ws fact (first.getD (roleAt ws 0))
    return holds != isNegated
  match words with
  | [] => return false
  | "(" :: rest =>
    if isBinary words then whole words (some .operand)
    else if hasFew words && rest.getLast? = some ")" then whole rest.dropLast none
    else whole words none
  | "!" :: rest =>
    if isBinary words then whole words (some .operand)
    else if hasFew words then ofWords fact true rest
    else whole words none
  | _ => whole words (if isBinary words then some .operand else none)
where
  isBinary : List String → Bool
    | [_, operator, _] => arity? operator == some .binary
    | _ => false
  hasFew (ws : List String) : Bool := ws.length = 3 || ws.length = 4

end RubyBinding.Shell.Condition
