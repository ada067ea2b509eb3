import RubyBinding.Grammar.Stack

/-!
# Reading a text

`Layout.read` derives a whole text by a grammar. The text is given by its length and by what could be
read at each position: a token may be chosen by what the state there accepts, and may take several
lexemes. Where a state can do several things at a token, all are done, so several versions may be
under way at a position.

A version takes its token at the position and keeps it while productions are replaced, until the
token is read. Positions are gone through in order. The number of replacements at one is bounded by
`patience`, which only a grammar that derives a part from itself alone could exhaust.
-/

namespace RubyBinding.Grammar

/-- What reading has come to: the states met, the next serial number, the versions waiting at each
position, and the best derivation of the whole text. -/
structure Reading where
  automaton : Automaton
  fresh : Nat := 1
  waiting : Array (List Version)
  result : Option Derivation := none

/-- Steps of reading. -/
abbrev Read := StateM Reading

namespace Read

variable {T P : Type} [BEq T] [Hashable T] [BEq P] [Hashable P] (l : Layout T P)

/-- The state that is reached over a symbol. -/
def move (state symbol : Nat) : Read Nat :=
  modifyGet fun ⟨automaton, fresh, waiting, result⟩ =>
    let (n, automaton) := automaton.move l state symbol
    (n, ⟨automaton, fresh, waiting, result⟩)

/-- What a state does at a token. -/
def actionsAt (state token : Nat) : Read (List Action) :=
  modifyGet fun ⟨automaton, fresh, waiting, result⟩ =>
    let (actions, automaton) := automaton.actionsAt l state token
    (actions, ⟨automaton, fresh, waiting, result⟩)

/-- Put a derivation on a stack and go on to the state reached by it. -/
def push (s : Stack) (d : Derivation) : Read Stack := do
  let state ← move l s.state d.symbol
  modifyGet fun r => (s.push r.fresh state d, { r with fresh := r.fresh + 1 })

/-- Let a stack wait at a position. -/
def wait (position : Nat) (s : Stack) : Read Unit :=
  modify fun r => { r with waiting := r.waiting.modify position fun vs =>
    (Version.addTo? s none vs).getD (vs ++ [⟨s.state, [s], none⟩]) }

/-- Read a token of some lexemes at a position. -/
def shift (v : Version) (position token size : Nat) : Read Unit := do
  for s in v.members do
    let s ← push l s ⟨token, 0, position, position + size, []⟩
    wait (position + size) s

/-- Take the derivation on top of the stacks for one of the whole text. -/
def accept (v : Version) : Read Unit :=
  modify fun r => v.members.foldl (fun r s =>
    match s with
    | .bottom => r
    | .cell _ _ d _ _ => { r with result := some ((r.result.map (·.better d)).getD d) }) r

/-- Add a result of a replacement to others: where two come to stand on the same stack, the better
one is kept. -/
def addResult (base : Stack) (d : Derivation) :
    List (Stack × Derivation) → List (Stack × Derivation)
  | [] => [(base, d)]
  | (s, e) :: rest =>
    if s.serial = base.serial then (s, e.better d) :: rest else (s, e) :: addResult base d rest

/-- The stacks after a production on top of those of a version has been replaced. -/
def replace (v : Version) (position : Nat) (p : Production) : Read (List Stack) := do
  let results := v.members.foldl (fun results s =>
    match s.pop p.steps.size [] with
    | none => results
    | some (base, children) =>
      addResult base (Derivation.ofProduction p position children) results) []
  results.mapM fun (base, d) => push l base d

/-- The versions still to be looked at: those made by the last replacement, and the others. -/
structure Agenda where
  made : List Version := []
  later : List Version

/-- Add the stacks that a replacement has left. One that falls in with a version still to be looked
at joins it, and the others make new versions, which come first. -/
def Agenda.add (a : Agenda) (token : Nat × Nat) (added : List Stack) : Agenda :=
  let (made, a) := added.foldl (fun (made, a) s =>
    match Version.addTo? s (some token) made with
    | some made => (made, a)
    | none =>
      match Version.addTo? s (some token) a.later with
      | some later => (made, { a with later })
      | none =>
        match Version.addTo? s (some token) a.made with
        | some older => (made, { a with made := older })
        | none => (made ++ [⟨s.state, [s], some token⟩], a)) ([], a)
  if made.isEmpty then a else ⟨made, a.later ++ a.made⟩

/-- Do what the state of a version does at its token. Gives what is still to be looked at. -/
def advance (v : Version) (position : Nat) (token : Nat × Nat) (later : List Version) :
    Read (List Version) := do
  let actions ← actionsAt l v.state token.1
  let mut agenda : Agenda := { later }
  for action in actions do
    match action with
    | .shift => shift l v position token.1 token.2
    | .accept => accept v
    | .reduce n => agenda := agenda.add token (← replace l v position (l.productionAt n))
  -- a version that has read the token is done; otherwise what it became goes on at once
  if actions.contains .shift then return agenda.later ++ agenda.made
  match agenda.made with
  | [] => return agenda.later
  | first :: others => return first :: (agenda.later ++ others)

/-- Look at the versions at a position until none is left. `tokens` gives what may be read there in a
state. -/
def settle (tokens : State → List (Nat × Nat)) (position : Nat) : Nat → List Version → Read Unit
  | 0, _ => return
  | _ + 1, [] => return
  | patience + 1, v :: later =>
    match v.token with
    | none => do
      let state := (← get).automaton.stateAt v.state
      let chosen := (tokens state).map fun t => { v with token := some t }
      settle tokens position patience (chosen ++ later)
    | some token => do
      let later ← advance l v position token later
      settle tokens position patience later

end Read

namespace Layout

variable {T P : Type} [BEq T] [Hashable T] [BEq P] [Hashable P] (l : Layout T P)

/-- Whether a state accepts a token. -/
def accepts (s : State) (t : T) : Bool :=
  match l.numbering.token? t with
  | none => false
  | some n => s.accepted.testBit n

/-- Follow a text of `size` lexemes to its end, or as far as it follows the grammar. `choose` gives
the tokens to be read at a position, each with the number of lexemes that it takes, from the tokens
that are accepted there. -/
def follow (size : Nat) (choose : (T → Bool) → Nat → List (T × Nat)) : Reading :=
  let patience := 1000 * (size + 8)
  let waiting := (Array.replicate (size + 1) []).set! 0 [⟨0, [.bottom], none⟩]
  let run : Read Unit := (List.range (size + 1)).forM fun position => do
    let versions := (← get).waiting.getD position []
    let tokens := fun (s : State) =>
      if position = size then [(l.numbering.endMark, 0)]
      else (choose (l.accepts s) position).filterMap fun (t, n) =>
        (l.numbering.token? t).map fun token => (token, n)
    Read.settle l tokens position patience
      (versions.mergeSort fun v w => w.weight ≤ v.weight)
  (run.run { automaton := Automaton.start l, waiting }).2

end Layout

/-! ## Trees -/

namespace Layout

variable {T P : Type} [BEq T] [Hashable T] [BEq P] [Hashable P] (l : Layout T P)

mutual

/-- The trees of a derivation. A run, and a part that is hidden, leaves only what it consists of. -/
def trees (hidden : P → Bool) : Derivation → List (Tree T P)
  | .mk symbol _ start stop children =>
    let inner := treesOf hidden children
    if symbol < l.numbering.firstPart then
      (l.numbering.tokens.list[symbol]?.map fun t => .token t start stop).toList
    else match l.numbering.parts.list[symbol - l.numbering.firstPart]? with
      | some p => if hidden p then inner else [.part p start stop inner]
      | none => inner

/-- The trees of derivations, one after the other. -/
def treesOf (hidden : P → Bool) : List Derivation → List (Tree T P)
  | [] => []
  | d :: ds => trees hidden d ++ treesOf hidden ds

end

/-- Read a whole text. One that does not follow the grammar is an error at the last position that
some version came to. -/
def read (hidden : P → Bool) (size : Nat) (choose : (T → Bool) → Nat → List (T × Nat)) :
    Except Nat (List (Tree T P)) :=
  let reading := l.follow size choose
  match reading.result with
  | some d => .ok (l.trees hidden d)
  | none => .error ((List.range (size + 1)).foldl (fun reached position =>
      if (reading.waiting.getD position []).isEmpty then reached else position) 0)

end Layout

end RubyBinding.Grammar
