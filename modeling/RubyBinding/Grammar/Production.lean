import RubyBinding.Grammar.Rule
import Std.Data.HashMap

/-!
# Productions

The rules of a grammar are laid out as *productions*, each a part and one sequence of symbols that
it may consist of. Symbols are numbered: first the tokens in the order in which the rules mention
them, then the end of the text, then the parts in the order of their rules, then the *runs*, which
stand for one or more of something. A run is a run followed by a run, or the thing itself; runs of
the same thing are one symbol.

A *place* is a production with a position in it. Places are numbered so that the next number is the
next position.
-/

namespace RubyBinding.Grammar

open Std (HashMap)

/-- A symbol in a production, with the binding of the rule that it stands in. -/
structure Step where
  symbol : Nat
  level : Int := 0
  side : Option Side := none
  deriving DecidableEq, Repr, Inhabited

/-- One way through a rule. -/
structure Sequence where
  steps : List Step := []
  weight : Int := 0
  deriving DecidableEq, Repr, Inhabited

/-- The weight that counts of two: that of greater size, and of equals the first. -/
def weightier (v w : Int) : Int := if v.natAbs < w.natAbs then w else v

namespace Sequence

/-- One way after the other. -/
def append (s t : Sequence) : Sequence := ⟨s.steps ++ t.steps, weightier s.weight t.weight⟩

/-- The binding of a rule ends with it: the last step, if more follows it, has the binding of the
rule around. -/
def release (level : Int) (side : Option Side) (s : Sequence) : Sequence :=
  match s.steps.reverse with
  | [] => s
  | last :: before => { s with steps := (⟨last.symbol, level, side⟩ :: before).reverse }

end Sequence

/-! ## The ways through a rule -/

/-- Things numbered by their first mention. -/
structure Numbered (α : Type) [BEq α] [Hashable α] where
  list : Array α := #[]
  number : HashMap α Nat := ∅

/-- Number what a list holds. -/
def Numbered.ofList {α : Type} [BEq α] [Hashable α] (as : List α) : Numbered α :=
  as.foldl (fun (n : Numbered α) a =>
    if n.number.contains a then n else ⟨n.list.push a, n.number.insert a n.list.size⟩) {}

/-- The numbers of tokens, parts and runs. -/
structure Numbering (T P : Type) [BEq T] [Hashable T] [BEq P] [Hashable P] where
  tokens : Numbered T
  parts : Numbered P

namespace Numbering

variable {T P : Type} [BEq T] [Hashable T] [BEq P] [Hashable P] (n : Numbering T P)

/-- The number that stands for the end of the text. -/
def endMark : Nat := n.tokens.list.size

def firstPart : Nat := n.endMark + 1

def firstRun : Nat := n.firstPart + n.parts.list.size

def token? (t : T) : Option Nat := n.tokens.number[t]?

def token (t : T) : Nat := (n.token? t).getD n.endMark

def part (p : P) : Nat := n.firstPart + n.parts.number.getD p 0

/-- The numbers that the rules of a grammar give. -/
def ofRules (rules : List (P × Rule T P)) : Numbering T P :=
  ⟨.ofList (Rule.tokensOf (rules.map Prod.snd)), .ofList (rules.map Prod.fst)⟩

end Numbering

/-- The runs met so far, each by the ways through what it is a run of. -/
abbrev Runs := StateM (Array (List Sequence))

/-- The number of the run of something. -/
def Runs.of (ways : List Sequence) : Runs Nat := do
  let runs ← get
  match runs.findIdx? (· == ways) with
  | some i => return i
  | none =>
    set (runs.push ways)
    return runs.size

mutual

/-- The ways through a rule that stands in a binding; `atEnd` says that nothing follows it there. -/
def Rule.ways {T P : Type} [BEq T] [Hashable T] [BEq P] [Hashable P]
    (n : Numbering T P) (level : Int) (side : Option Side) (atEnd : Bool) : Rule T P → Runs (List Sequence)
  | .token t => return [⟨[⟨n.token t, level, side⟩], 0⟩]
  | .part p => return [⟨[⟨n.part p, level, side⟩], 0⟩]
  | .seq rs => waysThrough n level side atEnd rs
  | .choice rs => waysAmong n level side atEnd rs
  | .many1 r => do
    let i ← Runs.of (← r.ways n 0 none true)
    return [⟨[⟨n.firstRun + i, level, side⟩], 0⟩]
  | .bind inner own r => do
    let ways ← r.ways n inner (own <|> side) atEnd
    return if atEnd then ways else ways.map (Sequence.release level side)
  | .weigh weight r => do
    let ways ← r.ways n level side atEnd
    return ways.map fun s => { s with weight := weightier weight s.weight }

/-- The ways through one rule after the other. -/
def waysThrough {T P : Type} [BEq T] [Hashable T] [BEq P] [Hashable P]
    (n : Numbering T P) (level : Int) (side : Option Side) (atEnd : Bool) : List (Rule T P) → Runs (List Sequence)
  | [] => return [{}]
  | r :: rs => do
    let first ← r.ways n level side (atEnd && rs.isEmpty)
    let rest ← waysThrough n level side atEnd rs
    return first.flatMap fun s => rest.map s.append

/-- The ways through one of some rules. -/
def waysAmong {T P : Type} [BEq T] [Hashable T] [BEq P] [Hashable P]
    (n : Numbering T P) (level : Int) (side : Option Side) (atEnd : Bool) : List (Rule T P) → Runs (List Sequence)
  | [] => return []
  | r :: rs => do
    let first ← r.ways n level side atEnd
    let rest ← waysAmong n level side atEnd rs
    return first ++ rest

end

/-! ## Productions and places -/

/-- A symbol and a sequence of symbols that it may consist of. -/
structure Production where
  result : Nat
  steps : Array Step
  weight : Int
  deriving Repr, Inhabited

/-- A production with a position in it: the symbol behind the position and the one behind that, and
the binding of the step in front. -/
structure Place where
  production : Nat
  position : Nat
  next : Option Nat
  following : Option Nat
  level : Int
  side : Option Side
  deriving Repr, Inhabited

namespace Production

def ofSequence (result : Nat) (s : Sequence) : Production := ⟨result, s.steps.toArray, s.weight⟩

/-- The places in the production with a number. -/
def places (p : Production) (number : Nat) : List Place :=
  (List.range (p.steps.size + 1)).map fun i =>
    let before := if i = 0 then none else p.steps[i - 1]?
    { production := number
      position := i
      next := p.steps[i]?.map Step.symbol
      following := p.steps[i + 1]?.map Step.symbol
      level := (before.map Step.level).getD 0
      side := before.bind Step.side }

/-- The productions of symbols that are numbered one after the other. -/
def ofWays (firstSymbol : Nat) (ways : List (List Sequence)) : List Production :=
  (List.zipIdx ways).flatMap fun (ways, i) =>
    ways.eraseDups.map (ofSequence (firstSymbol + i))

/-- The productions of a grammar: those of its parts, of the runs in them, and last that of the
whole text, which is the first part. -/
def ofRules {T P : Type} [BEq T] [Hashable T] [BEq P] [Hashable P] (n : Numbering T P)
    (rules : List (P × Rule T P)) : Array Production :=
  let read : Runs (List (List Sequence)) := rules.mapM fun r => r.2.ways n 0 none true
  let (ofParts, runs) := read.run #[]
  let ofRuns := (List.zipIdx runs.toList).map fun (ways, i) =>
    let run : Step := { symbol := n.firstRun + i }
    Sequence.mk [run, run] 0 :: ways
  let text : Sequence := ⟨[{ symbol := n.firstPart }], 0⟩
  (ofWays n.firstPart ofParts ++ ofWays n.firstRun ofRuns ++
    [ofSequence (n.firstRun + runs.size) text]).toArray

end Production

/-! ## What begins and follows symbols -/

/-- The tokens that the symbols can begin with, one round better than given. -/
def improveFirst (productions : Array Production) (first : Array Nat) : Array Nat :=
  productions.foldl (fun first p =>
    match p.steps[0]? with
    | none => first
    | some s => first.modify p.result (· ||| first.getD s.symbol 0)) first

/-- The tokens that the symbols can begin with, after at most so many rounds. -/
def firstAfter (productions : Array Production) : Nat → Array Nat → Array Nat
  | 0, first => first
  | rounds + 1, first =>
    let better := improveFirst productions first
    if better == first then first else firstAfter productions rounds better

/-- A symbol that another can begin with: the tokens that may follow it there, and whether it may be
all of the other, so that what follows the other may follow it. -/
structure Beginning where
  symbol : Nat
  followers : Nat
  inherits : Bool
  deriving Repr, Inhabited

/-- The symbol that a production begins with. -/
def Production.beginning? (first : Array Nat) (p : Production) : Option Beginning :=
  match p.steps[0]?, p.steps[1]? with
  | none, _ => none
  | some s, none => some ⟨s.symbol, 0, true⟩
  | some s, some t => some ⟨s.symbol, first.getD t.symbol 0, false⟩

/-- Beginnings found so far, in the order in which they were found, and where each symbol is. -/
structure Beginnings where
  list : Array Beginning := #[]
  index : HashMap Nat Nat := ∅

namespace Beginnings

/-- Add a beginning, and say whether that is news. -/
def add (found : Beginnings) (b : Beginning) : Bool × Beginnings :=
  match found.index[b.symbol]? with
  | none => (true, ⟨found.list.push b, found.index.insert b.symbol found.list.size⟩)
  | some i =>
    let old := found.list.getD i default
    let new := { b with
      followers := old.followers ||| b.followers, inherits := old.inherits || b.inherits }
    if new.followers == old.followers && new.inherits == old.inherits then (false, found)
    else (true, { found with list := found.list.set! i new })

/-- Follow beginnings of beginnings. `table` gives what the productions of a symbol begin with, and
`work` are the symbols to look at. -/
def close (table : Nat → List Beginning) : Nat → List Nat → Beginnings → Beginnings
  | 0, _, found => found
  | _ + 1, [], found => found
  | fuel + 1, symbol :: work, found =>
    let outer := found.list.getD (found.index.getD symbol 0) default
    let (work, found) := (table symbol).foldl (fun (work, found) b =>
      let b := if b.inherits then
        { b with followers := outer.followers, inherits := outer.inherits } else b
      let (isNew, found) := Beginnings.add found b
      (if isNew then b.symbol :: work else work, found)) (work, found)
    close table fuel work found

end Beginnings

/-! ## The layout of a grammar -/

/-- A place that is opened where a symbol is expected, with what may follow its production. -/
structure Opening where
  place : Nat
  followers : Nat
  inherits : Bool
  deriving Repr, Inhabited

/-- A grammar laid out in productions. Sets of tokens are numbers, with one bit for each token. -/
structure Layout (T P : Type) [BEq T] [Hashable T] [BEq P] [Hashable P] where
  numbering : Numbering T P
  productions : Array Production
  places : Array Place
  /-- The tokens that each symbol can begin with. -/
  first : Array Nat
  /-- What a state opens where it expects a symbol, counted from the first part. -/
  openings : Array (Thunk (Array Opening))

namespace Layout

variable {T P : Type} [BEq T] [Hashable T] [BEq P] [Hashable P]

/-- Lay out the rules of a grammar. -/
def ofRules (rules : List (P × Rule T P)) : Layout T P :=
  let n := Numbering.ofRules rules
  let productions := Production.ofRules n rules
  let symbols := (productions.foldl (fun m p => max m p.result) 0) + 1
  let numbered := List.zipIdx productions.toList
  let places := (numbered.flatMap fun (p, i) => p.places i).toArray
  let first := firstAfter productions symbols <|
    (Array.range symbols).map fun s => if s < n.firstPart then 1 <<< s else 0
  let byResult {α : Type} (entries : List (Nat × α)) : Array (List α) :=
    entries.reverse.foldl (fun table (s, a) => table.modify s (a :: ·))
      (Array.replicate symbols [])
  let beginnings := byResult <| productions.toList.filterMap fun p =>
    (p.beginning? first).bind fun b =>
      if b.symbol < n.firstPart then none else some (p.result, b)
  let starts := byResult <| (List.zipIdx places.toList).filterMap fun (p, i) =>
    if p.position = 0 then some ((productions.getD p.production default).result, i) else none
  let openings := (Array.range (symbols - n.firstPart)).map fun i => Thunk.mk fun _ =>
    let symbol := n.firstPart + i
    let self : Beginnings := (Beginnings.add {} ⟨symbol, 0, true⟩).2
    let found := self.close (fun s => beginnings.getD s []) (symbols * symbols) [symbol]
    found.list.flatMap fun b =>
      ((starts.getD b.symbol []).map fun place =>
        Opening.mk place b.followers b.inherits).toArray
  { numbering := n, productions, places, first, openings }

/-- The production of the whole text. -/
def whole (l : Layout T P) : Nat := l.productions.size - 1

/-- Whether a symbol is a run. -/
def isRun (l : Layout T P) (symbol : Nat) : Bool :=
  l.numbering.firstRun ≤ symbol && symbol < (l.productions.getD l.whole default).result

end Layout

end RubyBinding.Grammar
