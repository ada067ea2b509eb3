import RubyBinding.Grammar.Automaton

/-!
# Derivations and stacks

A *derivation* is a symbol with the derivations of the symbols that it consists of, and the weight
of the productions used. A *stack* holds the derivations read so far, each with the state that it led
to. Stacks share what they have in common, and two stacks share a cell if it has the same serial
number.

Stacks with one state on top go on in the same way, so they are kept together as a *version*. Of two
that differ only in how they derive the same symbols from the same stretches of text, one is kept.
-/

namespace RubyBinding.Grammar

/-- A derivation of a stretch of text, with its weight. -/
inductive Derivation where
  | mk (symbol : Nat) (weight : Int) (start stop : Nat) (children : List Derivation)
  deriving Inhabited

namespace Derivation

def symbol : Derivation → Nat
  | mk s _ _ _ _ => s

def weight : Derivation → Int
  | mk _ w _ _ _ => w

def start : Derivation → Nat
  | mk _ _ a _ _ => a

def stop : Derivation → Nat
  | mk _ _ _ b _ => b

def children : Derivation → List Derivation
  | mk _ _ _ _ cs => cs

/-- Whether two derivations derive the same symbol from the same stretch with as many children. -/
def isAlike (d e : Derivation) : Bool :=
  d.symbol == e.symbol && d.start == e.start && d.stop == e.stop &&
    d.children.length == e.children.length

mutual

/-- The order that decides between derivations of equal weight: by symbol, by the number of
children, and then by the children. -/
def order : Derivation → Derivation → Ordering
  | mk s _ _ _ cs, mk t _ _ _ ds =>
    (compare s t).then ((compare cs.length ds.length).then (orderOf cs ds))

/-- The order of lists of derivations of one length: by the first difference. -/
def orderOf : List Derivation → List Derivation → Ordering
  | c :: cs, d :: ds => (c.order d).then (orderOf cs ds)
  | _, _ => .eq

end

/-- The derivation to keep of two: the heavier one, and of equals the first in order. -/
def better (d e : Derivation) : Derivation :=
  if d.weight < e.weight then e
  else if e.weight < d.weight then d
  else if d.order e = .gt then e else d

/-- The derivation of a production's result from derivations of its symbols. A production without
symbols derives the empty stretch at a position. -/
def ofProduction (p : Production) (position : Nat) (children : List Derivation) : Derivation :=
  mk p.result (children.foldl (fun w d => w + d.weight) p.weight)
    ((children.head?.map start).getD position) ((children.getLast?.map stop).getD position) children

end Derivation

/-! ## Stacks -/

/-- Derivations read one after the other, the last on top. A cell has a serial number, the state that
its derivation led to, the derivation, and the weight of the stack up to here. -/
inductive Stack where
  | bottom
  | cell (serial state : Nat) (top : Derivation) (weight : Int) (below : Stack)
  deriving Inhabited

namespace Stack

def serial : Stack → Nat
  | bottom => 0
  | cell n _ _ _ _ => n

def state : Stack → Nat
  | bottom => 0
  | cell _ s _ _ _ => s

def weight : Stack → Int
  | bottom => 0
  | cell _ _ _ w _ => w

/-- Put a derivation on a stack. -/
def push (s : Stack) (serial state : Nat) (d : Derivation) : Stack :=
  cell serial state d (s.weight + d.weight) s

/-- Take some derivations off a stack, and put them in front of others. -/
def pop : Nat → Stack → List Derivation → Option (Stack × List Derivation)
  | 0, s, ds => some (s, ds)
  | n + 1, cell _ _ d _ below, ds => below.pop n (d :: ds)
  | _ + 1, bottom, _ => none

/-- How two stacks differ. -/
inductive Difference where
  | none
  /-- Only in how the same is derived; these are the lowest derivations that differ. -/
  | derivations (d e : Derivation)
  | symbols

/-- The difference between two stacks. -/
def difference : Stack → Stack → Difference
  | bottom, bottom => .none
  | cell n s d _ below, cell m t e _ under =>
    if n = m then .none
    else if s = t && d.isAlike e then
      match difference below under with
      | .none => .derivations d e
      | other => other
    else .symbols
  | _, _ => .symbols

/-- Add a stack to others. Where it differs from one only in how the same is derived, the heavier one
is kept. -/
def addTo (s : Stack) : List Stack → List Stack
  | [] => [s]
  | r :: rs =>
    match difference r s with
    | .none => r :: rs
    | .derivations d e => if d.weight < e.weight then s :: rs else r :: rs
    | .symbols => r :: s.addTo rs

end Stack

/-! ## Versions -/

/-- Stacks with the same state on top, and the token that they go on with, once it is chosen: its
number and how many lexemes it takes. -/
structure Version where
  state : Nat
  members : List Stack
  token : Option (Nat × Nat) := none
  deriving Inhabited

namespace Version

/-- The weight of the heaviest stack. -/
def weight (v : Version) : Int :=
  match v.members.map Stack.weight with
  | [] => 0
  | w :: ws => ws.foldl max w

def add (v : Version) (s : Stack) : Version := { v with members := s.addTo v.members }

/-- Add a stack to the first version with its state that goes on with a token or has not chosen one;
none if there is no such version. -/
def addTo? (s : Stack) (token : Option (Nat × Nat)) : List Version → Option (List Version)
  | [] => none
  | v :: vs =>
    if v.state = s.state ∧ (v.token = none ∨ v.token = token) then some (v.add s :: vs)
    else (addTo? s token vs).map (v :: ·)

end Version

end RubyBinding.Grammar
