import RubyBinding.Grammar.Production

/-!
# The states of a reader

A *state* says how far the productions have come that may be under way at a point of a text, and
which tokens may follow each of them. A token is read on from a state, or a production that has come
to its end is replaced by its result; `State.actions` gives what there is to do at a token, after the
bindings have had their say.

States are made when they are first reached and then known by their number.
-/

namespace RubyBinding.Grammar

open Std (HashMap)

/-- A place that has been reached, with the tokens that may follow its production. -/
structure Item where
  place : Nat
  followers : Nat
  deriving DecidableEq, Hashable, Repr, Inhabited

structure State where
  items : Array Item := #[]
  /-- The tokens with which it can go on. -/
  accepted : Nat := 0
  deriving Inhabited

/-- What a state does at a token. -/
inductive Action where
  /-- Read the token. -/
  | shift
  /-- Replace a production by its result. -/
  | reduce (production : Nat)
  /-- The whole text has been read. -/
  | accept
  deriving DecidableEq, Repr, Inhabited

/-! ## Making a state -/

/-- Items gathered so far, in the order in which they came, and where each place is. -/
structure Gathering where
  items : Array Item := #[]
  index : HashMap Nat Nat := ∅

/-- Add an item, or the tokens that may follow it. -/
def Gathering.add (g : Gathering) (i : Item) : Gathering :=
  match g.index[i.place]? with
  | none => ⟨g.items.push i, g.index.insert i.place g.items.size⟩
  | some n => { g with items := g.items.modify n fun old =>
      { old with followers := old.followers ||| i.followers } }

section Layout

variable {T P : Type} [BEq T] [Hashable T] [BEq P] [Hashable P] (l : Layout T P)

namespace Layout

def placeAt (n : Nat) : Place := l.places.getD n default

def productionAt (n : Nat) : Production := l.productions.getD n default

/-- The symbol that a place contributes to. -/
def resultAt (p : Place) : Nat := (l.productionAt p.production).result

/-- Whether a symbol can begin with a token. -/
def canBegin (symbol token : Nat) : Bool := (l.first.getD symbol 0).testBit token

end Layout

/-- Add what opens where an item expects a part. -/
def Gathering.open (g : Gathering) (i : Item) : Gathering :=
  let place := l.placeAt i.place
  match place.next with
  | none => g
  | some symbol =>
    if symbol < l.numbering.firstPart then g
    else
      let behind := match place.following with
        | some s => l.first.getD s 0
        | none => i.followers
      match l.openings[symbol - l.numbering.firstPart]? with
      | none => g
      | some openings => openings.get.foldl (fun g o =>
          g.add ⟨o.place, if o.inherits then o.followers ||| behind else o.followers⟩) g

namespace State

/-- The state in which some items have been reached. -/
def ofKernel (kernel : List Item) : State :=
  let items := (kernel.foldl (fun g i => (g.add i).open l i) ({} : Gathering)).items
  { items
    accepted := items.foldl (fun set i =>
      match (l.placeAt i.place).next with
      | none => set ||| i.followers
      | some s => if s < l.numbering.firstPart then set ||| 1 <<< s else set) 0 }

/-- The items that are reached by going on over a symbol, by the numbers of their places. -/
def kernelAfter (s : State) (symbol : Nat) : List Item :=
  let reached := s.items.toList.filterMap fun i =>
    if (l.placeAt i.place).next = some symbol then some ⟨i.place + 1, i.followers⟩ else none
  reached.mergeSort fun i j => i.place ≤ j.place

end State

/-! ## What to do at a token -/

/-- Productions that may be replaced at a token. They are of one level. -/
structure Reductions where
  level : Int
  places : List Place

/-- Add a production that has come to its end; one of a lower level than others gives way. -/
def Reductions.add (found : Option Reductions) (p : Place) : Option Reductions :=
  match found with
  | none => some ⟨p.level, [p]⟩
  | some r =>
    if r.level < p.level then some ⟨p.level, [p]⟩
    else if r.level = p.level then some { r with places := r.places ++ [p] }
    else some r

namespace State

/-- What may be replaced at a token. -/
def reductions (s : State) (token : Nat) : Option Reductions :=
  s.items.foldl (fun found i =>
    let place := l.placeAt i.place
    if place.next.isNone && i.followers.testBit token then Reductions.add found place
    else found) none

/-- The places past their beginning that go on with a token. -/
def continuations (s : State) (token : Nat) : List Place :=
  s.items.toList.filterMap fun i =>
    let place := l.placeAt i.place
    match place.next with
    | some symbol => if 0 < place.position && l.canBegin symbol token then some place else none
    | none => none

/-- Whether a token can be read. -/
def canShift (s : State) (token : Nat) : Bool :=
  s.items.any fun i => (l.placeAt i.place).next == some token

/-- Whether some places are all within runs of one thing, so that there is one run to go on with. -/
def inOneRun (places : List Place) : Bool :=
  match places with
  | [] => false
  | p :: ps => l.isRun (l.resultAt p) && ps.all fun q => l.resultAt q == l.resultAt p

/-- Whether the token is read, and whether productions are replaced, where both could be. The higher
level goes first, then the side that all of them are bound to. -/
def settle (s : State) (token : Nat) (r : Reductions) : Bool × Bool :=
  let continuing := s.continuations l token
  if inOneRun l ((continuing.filter fun p => p.production != l.whole) ++ r.places) then
    (false, true)
  else
    let higher := continuing.any fun p => r.level < p.level
    let lower := continuing.any fun p => p.level < r.level
    if higher && !lower then (true, false)
    else if lower && !higher then (false, true)
    else if higher then (true, true)
    else if r.places.all fun p => p.side = some .left then (false, true)
    else if r.places.all fun p => p.side = some .right then (true, false)
    else (true, true)

/-- What a state does at a token: replacements first. -/
def actions (s : State) (token : Nat) : List Action :=
  let read := s.canShift l token
  match s.reductions l token with
  | none => if read then [.shift] else []
  | some r =>
    let (read, replace) := if read then s.settle l token r else (false, true)
    let replacements := r.places.map fun p =>
      if p.production = l.whole then .accept else .reduce p.production
    (if replace then replacements else []) ++ (if read then [.shift] else [])

end State

end Layout

/-! ## The automaton -/

/-- The states made so far, and the steps between them. -/
structure Automaton where
  states : Array State := #[]
  numbers : HashMap (List Item) Nat := ∅
  moves : HashMap (Nat × Nat) Nat := ∅
  actions : HashMap (Nat × Nat) (List Action) := ∅

namespace Automaton

variable {T P : Type} [BEq T] [Hashable T] [BEq P] [Hashable P] (l : Layout T P)

def stateAt (a : Automaton) (n : Nat) : State := a.states.getD n default

/-- The number of the state in which some items have been reached. -/
def enter (kernel : List Item) (a : Automaton) : Nat × Automaton :=
  match a.numbers[kernel]? with
  | some n => (n, a)
  | none => (a.states.size, { a with
      states := a.states.push (State.ofKernel l kernel)
      numbers := a.numbers.insert kernel a.states.size })

/-- The automaton with the state of a text of which nothing has been read. It has the number 0. -/
def start : Automaton :=
  let place := (l.places.findIdx? fun p => p.production = l.whole).getD 0
  (enter l [⟨place, 1 <<< l.numbering.endMark⟩] {}).2

/-- The state that is reached from a state over a symbol. -/
def move (state symbol : Nat) (a : Automaton) : Nat × Automaton :=
  match a.moves[(state, symbol)]? with
  | some n => (n, a)
  | none =>
    let (n, a) := enter l ((a.stateAt state).kernelAfter l symbol) a
    (n, { a with moves := a.moves.insert (state, symbol) n })

/-- What a state does at a token. -/
def actionsAt (state token : Nat) (a : Automaton) : List Action × Automaton :=
  match a.actions[(state, token)]? with
  | some found => (found, a)
  | none =>
    let found := (a.stateAt state).actions l token
    (found, { a with actions := a.actions.insert (state, token) found })

end Automaton

end RubyBinding.Grammar
