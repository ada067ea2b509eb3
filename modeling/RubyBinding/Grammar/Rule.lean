/-!
# Rules of a grammar

A grammar names the *parts* that a text is made of and gives a rule for each: the tokens and parts
it consists of, in sequence or by choice. `T` is the type of tokens and `P` that of parts.

Two marks say which reading is meant where a text has several. A rule that is *bound* at a level
holds its operands against rules of lower levels, and one bound to a side settles a run of equals:
to the left, `a - b - c` is `(a - b) - c`. Where no binding decides, all readings are followed, and
of those that reach the end the one of the greatest *weight* is taken.
-/

namespace RubyBinding.Grammar

/-- The side to which a run of equal operators is grouped. -/
inductive Side where
  | left
  | right
  deriving DecidableEq, Repr, Inhabited

/-- What a part consists of. -/
inductive Rule (T P : Type) where
  | token (t : T)
  | part (p : P)
  | seq (rules : List (Rule T P))
  | choice (rules : List (Rule T P))
  /-- One or more times. -/
  | many1 (rule : Rule T P)
  | bind (level : Int) (side : Option Side) (rule : Rule T P)
  | weigh (weight : Int) (rule : Rule T P)
  deriving Inhabited

namespace Rule

variable {T P : Type}

/-- Nothing at all. -/
def empty : Rule T P := seq []

/-- Once or not at all. -/
def optional (r : Rule T P) : Rule T P := choice [r, empty]

/-- Any number of times. -/
def many (r : Rule T P) : Rule T P := optional (many1 r)

/-- One or more times, with a mark between. -/
def separated1 (mark r : Rule T P) : Rule T P := seq [r, many (seq [mark, r])]

/-- Any number of times, with a mark between. -/
def separated (mark r : Rule T P) : Rule T P := optional (separated1 mark r)

/-- Bound at the level of rules that say nothing, and grouped to the left. -/
def leftward (r : Rule T P) : Rule T P := bind 0 (some .left) r

/-- Bound at the level of rules that say nothing, and grouped to the right. -/
def rightward (r : Rule T P) : Rule T P := bind 0 (some .right) r

/-- Bound at a level, with no side. -/
def level (n : Int) (r : Rule T P) : Rule T P := bind n none r

mutual

/-- The tokens that a rule is written with. -/
def tokens : Rule T P → List T
  | .token t => [t]
  | .part _ => []
  | .seq rs => tokensOf rs
  | .choice rs => tokensOf rs
  | .many1 r => r.tokens
  | .bind _ _ r => r.tokens
  | .weigh _ r => r.tokens

/-- The tokens that some rules are written with. -/
def tokensOf : List (Rule T P) → List T
  | [] => []
  | r :: rs => r.tokens ++ tokensOf rs

end

end Rule

/-- What a text consists of: tokens and parts, each with the stretch of lexemes that it covers. -/
inductive Tree (T P : Type) where
  | token (t : T) (start stop : Nat)
  | part (p : P) (start stop : Nat) (children : List (Tree T P))
  deriving Inhabited

end RubyBinding.Grammar
