import RubyBinding.Shell.Arithmetic
import RubyBinding.Shell.Field
import RubyBinding.Shell.Pattern
import RubyBinding.Shell.Process

/-!
# Expansion

What words stand for: the values of parameters and expressions and the output of scripts are put in
(`segments`), fields are divided, and fields that are patterns become the paths that they match
(`fields`). `text` puts in values but divides nothing. How a script is run is given by `run`.
-/

namespace RubyBinding.Shell.Expansion

variable {m : Type → Type} [Monad m]

/-! ## Parameters -/

/-- The number of every process. -/
def processNumber : Nat := 4242

def plain (isQuoted : Bool) (text : String) : List Glyph :=
  text.toList.map fun c => .char c isQuoted

/-- The characters that divide fields. -/
def dividers : Run m (List Char) := do
  return ((← Run.value? "IFS").getD " \t\n").toList

/-- The glyphs between arguments that are joined. `isDivided` says that the result is divided into
fields again. -/
def joint (isQuoted isDivided : Bool) : Run m (List Glyph) := do
  match ← Run.value? "IFS" with
  | none => return [.char ' ' isQuoted]
  | some s =>
    if isDivided then return [.parting]
    return (s.toList.take 1).map fun c => .char c isQuoted

/-- The glyphs of the value of a parameter; none if it has no value. `isFull` says that fields are
wanted. -/
def value? (isFull isQuoted : Bool) (name : String) : Run m (Option (List Glyph)) := do
  let p ← Run.process
  let joined := fun (between : List Glyph) =>
    some ((p.arguments.map (plain isQuoted)).intersperse between).flatten
  match name with
  | "@" =>
    if isFull && isQuoted then return joined [.parting]
    else return joined (← joint isQuoted (isFull && !isQuoted))
  | "*" => return joined (← joint isQuoted (isFull && !isQuoted))
  | "#" => return plain isQuoted (toString p.arguments.length)
  | "?" => return plain isQuoted (toString p.status)
  | "-" => return plain isQuoted (String.ofList p.options)
  | "$" => return plain isQuoted (toString processNumber)
  | "!" => return (p.jobs.head?).map fun job => plain isQuoted (toString job.1)
  | _ =>
    match Numeral.ofDigits? name with
    | some 0 => return plain isQuoted p.name
    | some (n + 1) => return (p.arguments[n]?).map (plain isQuoted)
    | none => return (← Run.value? name).map (plain isQuoted)

/-- The segment that glyphs of an expansion make. Quoted ones are only divided between arguments. -/
def segment (isQuoted : Bool) (name : String) (gs : List Glyph) : Run m (List Segment) := do
  if !isQuoted then return [⟨.atBlanks, gs, false⟩]
  let isDivided := name == "@" && !(← Run.process).arguments.isEmpty
  return [⟨if isDivided then .atPartings else .never, gs, false⟩]

/-- Whether a word can be given a value. -/
def isName (name : String) : Bool :=
  match name.toList with
  | [] => false
  | c :: cs => (c.isAlpha || c == '_') && cs.all fun d => d.isAlphanum || d == '_'

/-- Literal glyphs in front of segments. -/
def literal (division : Division) (g : Glyph) : List Segment → List Segment
  | ⟨d, gs, true⟩ :: rest =>
    if d = division then ⟨d, g :: gs, true⟩ :: rest
    else ⟨division, [g], true⟩ :: ⟨d, gs, true⟩ :: rest
  | rest => ⟨division, [g], true⟩ :: rest

/-- The value of an expression, whose assignments are made. -/
def arithmetic (disk : Files m) (text : String) : Run m Int := do
  let report : {α : Type} → Arithmetic.Fault → Run m α := fun
    | .expected what =>
      Run.fail disk ("arithmetic expression: expecting " ++ what ++ ": \"" ++ text ++ "\"")
    | .divisionByZero =>
      Run.fail disk ("arithmetic expression: division by zero: \"" ++ text ++ "\"")
    | .notInteger number => Run.fail disk ("Illegal number: " ++ number)
  let old := (← Run.process).vars.filterMap fun v => v.value.map fun s => (v.name, s)
  match ((Arithmetic.read text).evaluate false).run old with
  | .error fault => report fault
  | .ok (n, new) =>
    for (name, s) in (new.take (new.length - old.length)).reverse do
      Run.assign disk name s
    return n

/-- Whether a tilde stands alone in front of pieces, so that it means the home directory. -/
def endsHome (isValue : Bool) : Word → Bool
  | [] => true
  | .char c false :: _ => c == '/' || (isValue && c == ':')
  | _ => false

/-- What a tilde at the beginning of a word stands for. -/
def home (isValue : Bool) (behind : Word) : Run m Segment := do
  match ← Run.value? "HOME" with
  | some path =>
    if endsHome isValue behind then return ⟨.never, plain true path, false⟩
    else return ⟨.never, [.char '~' false], true⟩
  | none => return ⟨.never, [.char '~' false], true⟩

/-- How words are expanded. -/
structure Setting (m : Type → Type) where
  disk : Files m
  /-- What a script prints. -/
  run : Option Command → Run m (List Char)
  /-- Whether fields are wanted. -/
  isFull : Bool
  /-- Whether the value of a variable is wanted, in which a colon is followed by a path. -/
  isValue : Bool := false

mutual

/-- Put in what the pieces of a word stand for. `isInner` says that the word stands in place of the
value of a parameter, where literal blanks divide fields; `isStart` says that a path may begin. -/
def segments (s : Setting m) (isInner isStart : Bool) : Word → Run m (List Segment)
  | [] => return []
  | .quotes :: .param "@" .plain true :: rest => do
    let front ← applied s "@" true .plain
    let back ← segments s isInner false rest
    let isAll := match rest with
      | .param _ _ true :: _ => false
      | .output _ true :: _ => false
      | .value _ true :: _ => false
      | _ => true
    return (if isAll || !s.isFull then [] else [⟨.never, [.quotes], false⟩]) ++ front ++ back
  | .char '~' false :: rest => do
    let front ← if isStart then home s.isValue rest else pure ⟨.never, [.char '~' false], true⟩
    let back ← segments s isInner false rest
    return front :: back
  | .char c isQuoted :: rest => do
    let back ← segments s isInner (s.isValue && c == ':' && !isQuoted) rest
    return literal (if isInner && !isQuoted then .atBlanks else .never) (.char c isQuoted) back
  | .quotes :: rest => do
    let back ← segments s isInner false rest
    return ⟨.never, [.quotes], false⟩ :: back
  | .param name use isQuoted :: rest => do
    let front ← applied s name isQuoted use
    let back ← segments s isInner false rest
    return front ++ back
  | .output script isQuoted :: rest => do
    let text ← s.run script
    let front := ⟨if isQuoted then .never else .atBlanks, plain isQuoted (String.ofList text), false⟩
    let back ← segments s isInner false rest
    return front :: back
  | .value expression isQuoted :: rest => do
    let inner ← segments { s with isFull := false } false false expression
    let n ← arithmetic s.disk (String.ofList (Glyph.text (Field.whole inner)))
    let front := ⟨if isQuoted then .never else .atBlanks, plain isQuoted (toString n), false⟩
    let back ← segments s isInner false rest
    return front :: back

/-- What a use of a parameter stands for. -/
def applied (s : Setting m) (name : String) (isQuoted : Bool) : Use → Run m (List Segment)
  | .plain => do
    match ← demanded? s name isQuoted with
    | some gs => segment isQuoted name gs
    | none => return []
  | .default orEmpty w => do
    match ← present s name isQuoted orEmpty with
    | some gs => segment isQuoted name gs
    | none => segments s (!isQuoted) (!isQuoted) w
  | .assign orEmpty w => do
    match ← present s name isQuoted orEmpty with
    | some gs => segment isQuoted name gs
    | none =>
      let inner ← segments { s with isFull := false } false true w
      if !isName name then Run.fail s.disk (name ++ ": bad variable name")
      Run.assign s.disk name (String.ofList (Glyph.text (Field.whole inner)))
      segment isQuoted name ((← value? s.isFull isQuoted name).getD [])
  | .demand orEmpty w => do
    match ← present s name isQuoted orEmpty with
    | some gs => segment isQuoted name gs
    | none =>
      let inner ← segments { s with isFull := false } false true w
      let report :=
        if !w.isEmpty then String.ofList (Glyph.text (Field.whole inner))
        else "parameter not set" ++ (if orEmpty then " or null" else "")
      Run.fail s.disk (name ++ ": " ++ report)
  | .alternative orEmpty w => do
    match ← present s name isQuoted orEmpty with
    | some _ => segments s (!isQuoted) (!isQuoted) w
    | none => segment isQuoted name []
  | .length => do
    let gs := (← demanded? s name isQuoted).getD []
    -- What stands between arguments counts if there is a character for it.
    let counted := if (← dividers).isEmpty then gs.filter (· != .parting) else gs
    segment isQuoted name (plain isQuoted (toString counted.length))
  | .trim atEnd isLongest pattern => do
    match ← demanded? s name isQuoted with
    | none => return []
    | some gs =>
      let inner ← segments { s with isFull := false } false true pattern
      let p := Pattern.read (Glyph.marked (Field.whole inner))
      let text := gs.map fun g =>
        match g with
        | .char c _ => c
        | _ => '\x00'
      let rest :=
        if atEnd then Pattern.trimEnd p isLongest text else Pattern.trimStart p isLongest text
      segment isQuoted name
        (if atEnd then gs.take rest.length else gs.drop (gs.length - rest.length))
  | .malformed => Run.fail s.disk "Bad substitution"
where
  /-- The value of a parameter, unless it is missing. -/
  present (s : Setting m) (name : String) (isQuoted orEmpty : Bool) :
      Run m (Option (List Glyph)) := do
    return (← value? s.isFull isQuoted name).filter fun gs => !(orEmpty && gs.isEmpty)
  /-- The value of a parameter. That it is missing may be refused. -/
  demanded? (s : Setting m) (name : String) (isQuoted : Bool) : Run m (Option (List Glyph)) := do
    let found ← value? s.isFull isQuoted name
    if found.isNone && (← Run.hasOption 'u') then
      Run.fail s.disk (name ++ ": parameter not set")
    return found

end

/-! ## Paths -/

/-- The parts of a pattern between slashes. -/
def parts : List (Char × Bool) → List (List (Char × Bool))
  | [] => [[]]
  | ('/', _) :: r => [] :: parts r
  | c :: r =>
    match parts r with
    | [] => [[c]]
    | p :: ps => (c :: p) :: ps

/-- The names in a directory that a pattern matches. A dot at the beginning has to be in the
pattern. -/
def matching (disk : Files m) (dir : String) (pattern : List (Char × Bool)) : Run m (List String) := do
  let inside ← Run.onFiles (disk.entries (← Run.placeOf disk (if dir.isEmpty then "." else dir)))
  let names := [".", ".."] ++ inside.map Text.toBytes
  let atoms := Pattern.read pattern
  let isDotted := pattern.head?.any fun c => c.1 == '.'
  return names.filter fun name =>
    (isDotted || name.toList.head? != some '.') && Pattern.accepts atoms name.toList

/-- The paths that a pattern matches, in front of which stands `dir`. -/
def paths (disk : Files m) (dir : String) : List (List (Char × Bool)) → Run m (List String)
  | [] => return []
  | part :: rest => do
    let name := String.ofList (part.map Prod.fst)
    match rest with
    | [] =>
      if Pattern.hasMarks part then return (← matching disk dir part).map (dir ++ ·)
      else if (← Run.kindOf disk (dir ++ name)).isSome then return [dir ++ name]
      else return []
    | _ :: _ =>
      if !Pattern.hasMarks part then paths disk (dir ++ name ++ "/") rest
      else
        let found ← (← matching disk dir part).mapM fun name => do
          if (← Run.kindOf disk (dir ++ name)) = some .directory then
            paths disk (dir ++ name ++ "/") rest
          else return []
        return found.flatten

/-- The arguments that a field becomes. -/
def ofField (disk : Files m) (field : List Glyph) : Run m (List String) := do
  let marked := Glyph.marked field
  let text := String.ofList (Glyph.text field)
  if !Pattern.hasMarks marked || (← Run.hasOption 'f') then return [text]
  let found ← paths disk "" (parts marked)
  return if found.isEmpty then [text] else found.mergeSort fun a b => !(b < a)

/-! ## Words -/

section

variable (s : Setting m)

/-- The arguments that a word becomes. -/
def fields (w : Word) : Run m (List String) := do
  let ss ← segments { s with isFull := true } false true w
  let found ← (Field.ofSegments (← dividers) ss).mapM (ofField s.disk)
  return found.flatten

/-- The glyphs of a word that is not divided. -/
def glyphs (w : Word) : Run m (List Glyph) := do
  return Field.whole (← segments { s with isFull := false } false true w)

/-- The text of a word that is not divided. -/
def text (w : Word) : Run m String := do return String.ofList (Glyph.text (← glyphs s w))

/-- The text of a word as the value of a variable. -/
def valueText (w : Word) : Run m String :=
  text { s with isValue := true } w

/-- The pattern that a word is. -/
def pattern (w : Word) : Run m (List Atom) := do
  return Pattern.read (Glyph.marked (← glyphs s w))

end

end RubyBinding.Shell.Expansion
