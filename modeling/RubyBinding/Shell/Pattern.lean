/-!
# Patterns

A pattern matches whole texts. `*` stands for any stretch, `?` for any character, and brackets for one
of the characters in them; what is quoted stands for itself. `atoms` reads a pattern and `accepts` is
its meaning.
-/

namespace RubyBinding.Shell

/-- What may stand in the brackets of a pattern. -/
inductive Member where
  | range (first last : Char)
  | group (name : String)
  deriving DecidableEq, Repr

inductive Atom where
  | char (c : Char)
  | any
  | stretch
  | oneOf (isNegated : Bool) (members : List Member)
  deriving DecidableEq, Repr

namespace Pattern

/-! ## Meaning -/

/-- The characters that a class name in brackets stands for. -/
def inGroup (name : String) (c : Char) : Bool :=
  match name with
  | "alpha" => c.isAlpha
  | "digit" => c.isDigit
  | "alnum" => c.isAlphanum
  | "upper" => c.isUpper
  | "lower" => c.isLower
  | "space" => c == ' ' || (0x09 ≤ c.toNat && c.toNat ≤ 0x0D)
  | "blank" => c == ' ' || c == '\t'
  | "punct" => 0x21 ≤ c.toNat && c.toNat ≤ 0x7E && !c.isAlphanum
  | "print" => 0x20 ≤ c.toNat && c.toNat ≤ 0x7E
  | "graph" => 0x21 ≤ c.toNat && c.toNat ≤ 0x7E
  | "cntrl" => c.toNat < 0x20 || c.toNat = 0x7F
  | "xdigit" => c.isDigit || ('a' ≤ c && c ≤ 'f') || ('A' ≤ c && c ≤ 'F')
  | _ => false

/-- Whether a character is one of those that a member of brackets stands for. -/
def has (c : Char) : Member → Bool
  | .range first last => first ≤ c && c ≤ last
  | .group name => inGroup name c

/-- The parts of a text from each of its positions on. -/
def tails {α : Type} : List α → List (List α)
  | [] => [[]]
  | a :: as => (a :: as) :: tails as

/-- Whether a pattern matches a text. -/
def accepts : List Atom → List Char → Bool
  | [], s => s.isEmpty
  | .stretch :: ps, s => (tails s).any (accepts ps)
  | .any :: ps, _ :: s => accepts ps s
  | .char c :: ps, d :: s => c == d && accepts ps s
  | .oneOf isNegated members :: ps, d :: s => (members.any (has d) != isNegated) && accepts ps s
  | _ :: _, [] => false

/-! ## Reading -/

/-- The name of a class up to `:]`, and the rest. -/
def groupName? : List (Char × Bool) → Option (List Char × List (Char × Bool))
  | (':', false) :: (']', false) :: r => some ([], r)
  | (c, _) :: r => if c.isAlpha then (groupName? r).map fun (n, rest) => (c :: n, rest) else none
  | [] => none

/-- The members up to a closing bracket, and the rest; none if there is no such bracket. -/
def members? : Nat → List (Char × Bool) → Option (List Member × List (Char × Bool))
  | 0, _ => none
  | _ + 1, [] => none
  | fuel + 1, ('[', false) :: (':', false) :: r =>
    match groupName? r with
    | some (name, rest) => do
      let (ms, rest) ← closing? fuel rest
      return (.group (String.ofList name) :: ms, rest)
    | none => do
      let (ms, rest) ← closing? fuel ((':', false) :: r)
      return (.range '[' '[' :: ms, rest)
  | fuel + 1, (c, _) :: ('-', false) :: (d, q) :: r =>
    if d == ']' && !q then do
      let (ms, rest) ← closing? fuel (('-', false) :: (d, q) :: r)
      return (.range c c :: ms, rest)
    else do
      let (ms, rest) ← closing? fuel r
      return (.range c d :: ms, rest)
  | fuel + 1, (c, _) :: r => do
    let (ms, rest) ← closing? fuel r
    return (.range c c :: ms, rest)
where
  /-- The end of the brackets, or more members. -/
  closing? : Nat → List (Char × Bool) → Option (List Member × List (Char × Bool))
    | 0, _ => none
    | _ + 1, (']', false) :: r => some ([], r)
    | fuel + 1, cs => members? fuel cs

/-- The atoms of a pattern, whose characters are quoted or not. -/
def atoms : Nat → List (Char × Bool) → List Atom
  | 0, _ => []
  | _ + 1, [] => []
  | fuel + 1, ('*', false) :: r => .stretch :: atoms fuel r
  | fuel + 1, ('?', false) :: r => .any :: atoms fuel r
  | fuel + 1, ('[', false) :: r =>
    let (isNegated, inner) := match r with
      | ('!', false) :: s => (true, s)
      | _ => (false, r)
    match members? (2 * inner.length + 2) inner with
    | some (ms, rest) => .oneOf isNegated ms :: atoms fuel rest
    | none => .char '[' :: atoms fuel r
  | fuel + 1, ('\\', false) :: (c, _) :: r => .char c :: atoms fuel r
  | fuel + 1, (c, _) :: r => .char c :: atoms fuel r

/-- Read a pattern. -/
def read (cs : List (Char × Bool)) : List Atom := atoms (cs.length + 1) cs

/-- Whether a pattern has marks that stand for something else. -/
def hasMarks (cs : List (Char × Bool)) : Bool :=
  cs.any fun (c, isQuoted) => !isQuoted && (c == '*' || c == '?' || c == '[')

/-- A text up to a null character, which can only stand between arguments. -/
def upToNull (s : List Char) : List Char := s.takeWhile (· != '\x00')

/-- A text without what a pattern matches at its beginning, as little or as much as can be. -/
def trimStart (p : List Atom) (isLongest : Bool) (s : List Char) : List Char :=
  let sizes := (List.range (s.length + 1)).filter fun n => accepts p (upToNull (s.take n))
  match (if isLongest then sizes.getLast? else sizes.head?) with
  | some n => s.drop n
  | none => s

/-- A text without what a pattern matches at its end, as little or as much as can be. The most is looked
for from the start, and only in the first argument. -/
def trimEnd (p : List Atom) (isLongest : Bool) (s : List Char) : List Char :=
  let last := if isLongest then (upToNull s).length else s.length
  let sizes := (List.range (last + 1)).filter fun n => accepts p (upToNull (s.drop n))
  match (if isLongest then sizes.head? else sizes.getLast?) with
  | some n => s.take n
  | none => s

end Pattern

end RubyBinding.Shell
