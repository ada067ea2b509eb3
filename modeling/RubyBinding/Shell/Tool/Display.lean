import RubyBinding.Shell.Tool.Basic

/-!
# Showing files

`cat` joins files and can number lines, mark their ends, leave out repeated blank lines and show what
cannot be printed. What it does with a character depends on the line so far, which goes on from one
file to the next (`Display`).
-/

namespace RubyBinding.Shell.Tool

/-- How files are shown. -/
structure Look where
  numbersAll : Bool
  numbersFilled : Bool
  marksEnds : Bool
  joinsBlank : Bool
  marksTabs : Bool
  marksOthers : Bool

/-- How far files have been shown. -/
structure Display where
  /-- How many lines have been numbered. -/
  count : Nat := 0
  /-- Whether a line begins here. -/
  isFresh : Bool := true
  /-- How many blank lines stand directly before. -/
  blanks : Nat := 0

namespace Look

variable (look : Look)

/-- A character so that it can be seen. -/
def visible (c : Char) : List Char :=
  let low := fun (n : Nat) =>
    if n < 0x20 then ['^', Char.ofNat (n + 0x40)]
    else if n = 0x7F then ['^', '?']
    else [Char.ofNat n]
  if c == '\t' then if look.marksTabs then ['^', 'I'] else ['\t']
  else if !look.marksOthers then [c]
  else if c.toNat < 0x80 then low c.toNat
  else 'M' :: '-' :: low (c.toNat - 0x80)

/-- The number in front of a line. -/
def lineNumber (n : Nat) : List Char :=
  let ds := (toString n).toList
  List.replicate (6 - ds.length) ' ' ++ ds ++ ['\t']

/-- Show a text: the pieces of what is shown, and how far that is. -/
def shown (d : Display) : List Char → List (List Char) × Display
  | [] => ([], d)
  | '\n' :: cs =>
    if d.isFresh && look.joinsBlank && d.blanks ≥ 1 then
      shown { d with blanks := d.blanks + 1 } cs
    else
      let isNumbered := d.isFresh && look.numbersAll && !look.numbersFilled
      let next := {
        count := if isNumbered then d.count + 1 else d.count
        isFresh := true
        blanks := if d.isFresh then d.blanks + 1 else 0 }
      let (pieces, last) := shown next cs
      let number := if isNumbered then lineNumber next.count else []
      ((number ++ if look.marksEnds then ['$', '\n'] else ['\n']) :: pieces, last)
  | c :: cs =>
    let isNumbered := d.isFresh && (look.numbersAll || look.numbersFilled)
    let next := {
      count := if isNumbered then d.count + 1 else d.count
      isFresh := false
      blanks := 0 }
    let (pieces, last) := shown next cs
    let sign :=
      if c == '\r' && look.marksEnds && cs.head? = some '\n' then ['^', 'M'] else look.visible c
    ((if isNumbered then lineNumber next.count ++ sign else sign) :: pieces, last)

end Look

variable {m : Type → Type} [Monad m] (call : Call m)

/-- Join files. -/
def cat : Run m Nat :=
  withOptions call
    [⟨some 'b', some "number-nonblank", false⟩, ⟨some 'n', some "number", false⟩,
      ⟨some 's', some "squeeze-blank", false⟩, ⟨some 'v', some "show-nonprinting", false⟩,
      ⟨some 'E', some "show-ends", false⟩, ⟨some 'T', some "show-tabs", false⟩,
      ⟨some 'A', some "show-all", false⟩, ⟨some 'e', none, false⟩, ⟨some 't', none, false⟩,
      ⟨some 'u', none, false⟩] fun given => do
    let asks := fun (words : List String) => words.any given.has
    let look : Look := {
      numbersAll := asks ["number"]
      numbersFilled := asks ["number-nonblank"]
      marksEnds := asks ["show-ends", "show-all", "e"]
      joinsBlank := asks ["squeeze-blank"]
      marksTabs := asks ["show-tabs", "show-all", "t"]
      marksOthers := asks ["show-nonprinting", "show-all", "e", "t"] }
    let files := if given.operands.isEmpty then ["-"] else given.operands
    if (← Run.stream? 1).isNone then return ← report call "standard output: Bad file descriptor"
    let (status, _) ← files.foldlM (fun ((status, d) : Nat × Display) file => do
      match ← contents call file with
      | .error why =>
        return (← report call (Quote.name file ++ ": " ++ why), d)
      | .ok text =>
        let (pieces, d) := look.shown d text
        return (max status (← print call (String.ofList pieces.flatten)), d)) (0, {})
    if files.contains "-" && (← Run.stream? 0).isNone then
      return ← report call "closing standard input: Bad file descriptor"
    return status

end RubyBinding.Shell.Tool
