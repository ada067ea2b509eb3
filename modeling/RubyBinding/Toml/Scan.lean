import RubyBinding.Toml.Scalar

/-!
# Reading TOML from the front of a text

A `Scan` takes something off the front of a text and leaves the rest. Keys, strings and values are
read here; what keys and tables mean together is for `Toml.Draft` to say. Arrays and inline tables
nest less than `depthLimit` deep, and a dotted key has fewer parts than that.
-/

namespace RubyBinding.Toml

/-- A reader of the front of a text. -/
abbrev Scan := StateT (List Char) Option

/-- How deep values and keys may go. -/
def depthLimit : Nat := 80

namespace Scan

/-! ## Pieces -/

/-- The next character, which is left where it is. -/
def peek? : Scan (Option Char) := fun cs => some (cs.head?, cs)

/-- The next character. -/
def next : Scan Char
  | [] => none
  | c :: r => some (c, r)

/-- Take off `lead` if the text starts with it. -/
def accept (lead : String) : Scan Bool := fun cs =>
  match Text.after? lead.toList cs with
  | some r => some (true, r)
  | none => some (false, cs)

/-- Take off `lead`, which has to be there. -/
def expect (lead : String) : Scan Unit := do if !(← accept lead) then failure

/-- The longest run of characters that satisfy `p`. -/
def span (p : Char → Bool) : Scan (List Char) := fun cs => some (cs.takeWhile p, cs.dropWhile p)

/-- Repeat a step until it has a result. A step that goes on has to take something off. -/
def loop {σ β : Type} (step : σ → Scan (σ ⊕ β)) (s : σ) (cs : List Char) :
    Option (β × List Char) :=
  match step s cs with
  | none => none
  | some (.inr b, r) => some (b, r)
  | some (.inl s, r) => if _h : r.length < cs.length then loop step s r else none
termination_by cs.length

/-! ## Blanks, line ends and comments -/

def isSpace (c : Char) : Bool := c == ' ' || c == '\t'

/-- Characters that may stand in comments and literal strings. -/
def isText (c : Char) : Bool := c == '\t' || (0x20 ≤ c.toNat && c.toNat != 0x7F)

def spaces : Scan Unit := do let _ ← span isSpace

/-- A line feed, which may have a carriage return in front of it. -/
def newline : Scan Bool := do if ← accept "\n" then return true else accept "\r\n"

/-- A comment up to the end of its line. -/
def comment : Scan Bool := do
  if ← accept "#" then
    let _ ← span isText
    return true
  else return false

/-- What may stand after a line's content. -/
def lineEnd : Scan Unit := do
  spaces
  let _ ← comment
  if ← newline then return else if (← peek?).isSome then failure

/-- Blanks, line ends and comments. -/
def gap : Scan Unit := loop (fun (_ : Unit) => do
  spaces
  if ← comment then return .inl ()
  else if ← newline then return .inl ()
  else return .inr ()) ()

/-! ## Strings -/

/-- A character given by the digits of its number. -/
def unicode (digits : Nat) : Scan Char := do
  let ds ← (List.range digits).mapM fun _ => next
  match Text.ofDigits? 16 ds with
  | some n => if n < 0xD800 ∨ (0xDFFF < n ∧ n < 0x110000) then return Char.ofNat n else failure
  | none => failure

/-- The character that an escape stands for, after its backslash. -/
def escape : Scan Char := do
  match ← next with
  | 'b' => return '\x08'
  | 't' => return '\t'
  | 'n' => return '\n'
  | 'f' => return '\x0c'
  | 'r' => return '\r'
  | '"' => return '"'
  | '\\' => return '\\'
  | 'u' => unicode 4
  | 'U' => unicode 8
  | _ => failure

/-- One character of a string, or the end of the string. -/
abbrev StringStep := List Char → Scan (List Char ⊕ List Char)

/-- A string on one line after its opening quote. -/
def basicStep : StringStep := fun done => do
  match ← next with
  | '"' => return .inr done.reverse
  | '\\' => return .inl ((← escape) :: done)
  | c => if isText c then return .inl (c :: done) else failure

/-- A string without escapes on one line after its opening quote. -/
def literalStep : StringStep := fun done => do
  match ← next with
  | '\'' => return .inr done.reverse
  | c => if isText c then return .inl (c :: done) else failure

/-- The end of a string over several lines: three quotes, before which up to two more may belong to
the string. -/
def closing (quote : Char) (done : List Char) : Scan (List Char ⊕ List Char) := do
  let quotes ← span (· == quote)
  if quotes.length < 3 then return .inl (quotes ++ done)
  else if quotes.length ≤ 5 then return .inr (quotes.drop 3 ++ done).reverse
  else failure

/-- A line end inside a string is a line feed, however it is written. -/
def stringBreak (done : List Char) : Scan (List Char ⊕ List Char) := do
  if ← newline then return .inl ('\n' :: done) else failure

/-- Blanks and line ends. -/
def blankLines : Scan Unit := loop (fun (_ : Unit) => do
  spaces
  if ← newline then return .inl () else return .inr ()) ()

/-- A backslash at the end of a line takes the line end and all blanks after it away. -/
def lineContinuation : Scan Bool := fun cs =>
  match (do spaces; newline : Scan Bool) cs with
  | some (true, r) => (do blankLines; return true : Scan Bool) r
  | _ => some (false, cs)

/-- A string over several lines after its opening quotes. -/
def longBasicStep : StringStep := fun done => do
  match ← peek? with
  | none => failure
  | some '"' => closing '"' done
  | some '\\' =>
    let _ ← next
    if ← lineContinuation then return .inl done else return .inl ((← escape) :: done)
  | some c =>
    if isText c then
      let _ ← next
      return .inl (c :: done)
    else stringBreak done

/-- A string without escapes over several lines after its opening quotes. -/
def longLiteralStep : StringStep := fun done => do
  match ← peek? with
  | none => failure
  | some '\'' => closing '\'' done
  | some c =>
    if isText c then
      let _ ← next
      return .inl (c :: done)
    else stringBreak done

/-- The rest of a string. -/
def stringBody (step : StringStep) : Scan String := do
  return String.ofList (← (loop step [] : Scan (List Char)))

/-- The rest of a string over several lines, whose first line end does not count. -/
def longBody (step : StringStep) : Scan String := do
  let _ ← newline
  stringBody step

/-- A string on one line, if one comes next. -/
def shortString? : Scan (Option String) := do
  if ← accept "\"" then return some (← stringBody basicStep)
  else if ← accept "'" then return some (← stringBody literalStep)
  else return none

/-- A string, if one comes next. -/
def string? : Scan (Option String) := do
  if ← accept "\"\"\"" then return some (← longBody longBasicStep)
  else if ← accept "'''" then return some (← longBody longLiteralStep)
  else shortString?

/-! ## Keys -/

/-- Characters of a key without quotes. -/
def isBare (c : Char) : Bool := c.isAlphanum || c == '_' || c == '-'

/-- One part of a key, with the blanks around it. -/
def keyPart : Scan String := do
  spaces
  let part ← match ← shortString? with
    | some s => pure s
    | none =>
      let bare ← span isBare
      if bare.isEmpty then failure else pure (String.ofList bare)
  spaces
  return part

/-- A key: parts with dots between them. -/
def key : Scan (List String) := do
  let first ← keyPart
  let rest : List String ← loop (fun done => do
    if ← accept "." then return .inl ((← keyPart) :: done) else return .inr done.reverse) []
  if rest.length + 1 < depthLimit then return first :: rest else failure

/-! ## Scalars -/

/-- Characters of numbers, dates and truth values. -/
def isWord (c : Char) : Bool :=
  c.isAlphanum || c == '_' || c == '-' || c == '+' || c == '.' || c == ':'

/-- A number, date or truth value. -/
def scalar : Scan Value := do
  let word ← span isWord
  let word ← fun cs =>
    match cs with
    | ' ' :: d :: r =>
      if (afterDate? word) == some [] && d.isDigit then
        some (word ++ ' ' :: (d :: r).takeWhile isWord, (d :: r).dropWhile isWord)
      else some (word, cs)
    | _ => some (word, cs)
  match scalar? word with
  | some v => return v
  | none => failure

end Scan

end RubyBinding.Toml
