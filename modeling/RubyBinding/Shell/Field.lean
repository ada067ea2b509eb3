/-!
# Fields

A word of a command becomes any number of arguments: the text of an unquoted expansion is divided at
blanks. An expanded word is a list of segments, which say whether and where they may be divided, and
`ofSegments` divides them.
-/

namespace RubyBinding.Shell

/-- A sign of an expanded word. -/
inductive Glyph where
  /-- A character. Whether it is quoted decides whether it can be a mark in a pattern. -/
  | char (c : Char) (isQuoted : Bool)
  /-- Quotes: there is an argument here, even if it has no characters. -/
  | quotes
  /-- The end of one of several arguments. -/
  | parting
  deriving DecidableEq, Repr

/-- Where a segment of an expanded word may be divided. -/
inductive Division where
  | never
  | atPartings
  /-- At partings and at the characters that divide arguments. -/
  | atBlanks
  deriving DecidableEq, Repr

structure Segment where
  division : Division
  glyphs : List Glyph
  /-- Whether the glyphs stand in the word itself. -/
  isLiteral : Bool := false
  deriving DecidableEq, Repr

namespace Glyph

/-- The text of glyphs. -/
def text (gs : List Glyph) : List Char :=
  gs.filterMap fun g =>
    match g with
    | .char c _ => some c
    | _ => none

/-- The characters of glyphs, and whether each is quoted. -/
def marked (gs : List Glyph) : List (Char × Bool) :=
  gs.filterMap fun g =>
    match g with
    | .char c q => some (c, q)
    | _ => none

/-- Whether a glyph divides arguments, where those characters do. -/
def divides (dividers : List Char) : Glyph → Bool
  | .char c _ => dividers.contains c
  | .parting => true
  | .quotes => false

/-- Whether a glyph divides arguments together with others of its kind. -/
def isLoose : Glyph → Bool
  | .char c _ => c == ' ' || c == '\t' || c == '\n'
  | .parting => true
  | .quotes => false

end Glyph

namespace Field

/-- Drop the glyphs that divide together with one before them. `mayBeFirm` says whether one that is
not loose may still be among them. -/
def dropDividers (dividers : List Char) (mayBeFirm : Bool) : List Glyph → List Glyph
  | [] => []
  | g :: gs =>
    if !g.divides dividers then g :: gs
    else if g.isLoose then dropDividers dividers mayBeFirm gs
    else if mayBeFirm then dropDividers dividers false gs
    else g :: gs

theorem length_dropDividers_le (dividers : List Char) (mayBeFirm : Bool) (gs : List Glyph) :
    (dropDividers dividers mayBeFirm gs).length ≤ gs.length := by
  induction gs generalizing mayBeFirm with
  | nil => simp [dropDividers]
  | cons g gs ih =>
    simp only [dropDividers]
    split
    · exact Nat.le_refl _
    · split
      · exact Nat.le_succ_of_le (ih mayBeFirm)
      · split
        · exact Nat.le_succ_of_le (ih false)
        · exact Nat.le_refl _

/-- Divide glyphs at blanks: what is complete, and what is begun. `begun` is backwards. -/
def divide (dividers : List Char) (begun : List Glyph) : List Glyph → List (List Glyph) × List Glyph
  | [] => ([], begun)
  | g :: gs =>
    if !g.divides dividers then divide dividers (g :: begun) gs
    else if begun.isEmpty && g.isLoose then divide dividers [] gs
    else
      let (complete, left) := divide dividers [] (dropDividers dividers g.isLoose gs)
      (begun.reverse :: complete, left)
termination_by gs => gs.length
decreasing_by
  · exact Nat.lt_succ_self _
  · exact Nat.lt_succ_self _
  · exact Nat.lt_succ_of_le (length_dropDividers_le dividers g.isLoose gs)

/-- Divide glyphs at each blank on its own: what is complete, and what is begun. -/
def divideEach (dividers : List Char) (begun : List Glyph) :
    List Glyph → List (List Glyph) × List Glyph
  | [] => ([], begun)
  | g :: gs =>
    if !g.divides dividers then divideEach dividers (g :: begun) gs
    else
      let (complete, left) := divideEach dividers [] gs
      (begun.reverse :: complete, left)

/-- Divide glyphs at partings: what is complete, and what is begun. -/
def part (begun : List Glyph) : List Glyph → List (List Glyph) × List Glyph
  | [] => ([], begun)
  | .parting :: gs =>
    let (complete, left) := part [] gs
    (begun.reverse :: complete, left)
  | g :: gs => part (g :: begun) gs

/-- Divide segments into fields. Behind partings blanks are not taken together. What is left at the end
is a field if it has a glyph, or if the last division was at a parting. -/
def ofSegments (dividers : List Char) : List Segment → List (List Glyph) :=
  go [] false
where
  go (begun : List Glyph) (isDue : Bool) : List Segment → List (List Glyph)
    | [] => if begun.isEmpty && !isDue then [] else [begun.reverse]
    | s :: ss =>
      match s.division with
      | .never => go (s.glyphs.reverse ++ begun) isDue ss
      | .atPartings =>
        let (complete, left) := part begun s.glyphs
        complete ++ go left true ss
      | .atBlanks =>
        let (complete, left) :=
          if isDue then divideEach dividers begun s.glyphs else divide dividers begun s.glyphs
        complete ++ go left false ss

/-! ## A line of fields -/

/-- The glyphs of a line up to the blanks at its end. Quoted characters among these do not count. -/
def withoutTail (dividers : List Char) (gs : List Glyph) : List Glyph :=
  go none [] gs
where
  go (kept : Option (List Glyph)) (sofar : List Glyph) : List Glyph → List Glyph
    | [] => (kept.getD sofar).reverse
    | g :: gs =>
      match g with
      | .char _ true => go kept (g :: sofar) gs
      | _ =>
        if g.divides dividers && g.isLoose then go (some (kept.getD sofar)) (g :: sofar) gs
        else go none (g :: sofar) gs

/-- Whether a glyph of a line divides fields. A quoted one does not. -/
def isDivider (dividers : List Char) : Glyph → Bool
  | .char _ true => false
  | g => g.divides dividers

/-- Drop the loose dividers at the beginning of a line. -/
def dropLoose (dividers : List Char) (gs : List Glyph) : List Glyph :=
  gs.dropWhile fun g => isDivider dividers g && g.isLoose

/-- The first field of a line, and what follows it; none if there is no field. -/
def first? (dividers : List Char) (gs : List Glyph) : Option (List Glyph × List Glyph) :=
  let line := dropLoose dividers gs
  let field := line.takeWhile fun g => !isDivider dividers g
  match line, line.drop field.length with
  | [], _ => none
  | _, [] => some (field, [])
  | _, g :: rest =>
    match g.isLoose, dropLoose dividers rest with
    | true, h :: others =>
      if isDivider dividers h then some (field, dropLoose dividers others)
      else some (field, h :: others)
    | _, behind => some (field, behind)

/-- Divide a line into at most so many fields. The last one has all that is left. -/
def ofLine (dividers : List Char) : Nat → List Glyph → List (List Glyph)
  | 0, _ => []
  | count + 1, gs =>
    match first? dividers gs with
    | none => []
    | some (field, []) => [field]
    | some (field, rest) =>
      if count = 0 then [withoutTail dividers (dropLoose dividers gs)]
      else field :: ofLine dividers count rest

/-- The text of segments that are not divided. -/
def whole (ss : List Segment) : List Glyph := ss.flatMap Segment.glyphs

end Field

end RubyBinding.Shell
