import RubyBinding.Shell.Syntax

/-!
# Reading scripts

A script is read a line at a time, or as many lines as its commands take (`line`), so that what
stands before a fault has been run when the fault is met. What a character means depends on what it
stands in: a word, quotes, braces, an expression or a document.

Words that begin or divide commands are only read as such where a command may begin. `fuel` bounds
the depth of the reading; each call is for a character or a token, and `fuelFor` gives enough.
-/

namespace RubyBinding.Shell

/-- Why a script cannot be read further, and the line where that was found. -/
structure Fault where
  line : Nat
  text : String

inductive Token where
  | ending
  | newline
  /-- A mark that ends words and is no part of one. -/
  | mark (text : String)
  | word (w : Word)
  | keyword (text : String)
  /-- A redirection of a stream; what it is from or to follows. -/
  | redirect (fd : Nat) (mark : String)

/-- A document that is still to be read: its number, the line that ends it, whether parameters in it
stand for themselves, and whether tabs in front of lines are left out. -/
structure Awaited where
  number : Nat
  delimiter : String
  isLiteral : Bool
  isStripped : Bool

/-- Where the reading is. -/
structure Cursor where
  rest : List Char
  line : Nat := 1
  /-- A token that has been looked at. -/
  pushed : Option Token := none
  awaited : List Awaited := []
  /-- The documents read so far, the first of which has the number `firstDocument`. -/
  documents : Array Word := #[]
  firstDocument : Nat := 0
  /-- Whether dollar signs and backquotes stand for themselves. -/
  isVerbatim : Bool := false

abbrev Scan := StateT Cursor (Except Fault)

namespace Scan

/-! ## Characters -/

def fail {α : Type} (text : String) : Scan α := do throw ⟨(← get).line, text⟩

def failSyntax {α : Type} (text : String) : Scan α := fail ("Syntax error: " ++ text)

/-- Drop the line ends behind backslashes that come next. -/
def dropJoins (line : Nat) : List Char → Nat × List Char
  | '\\' :: '\n' :: r => dropJoins (line + 1) r
  | cs => (line, cs)

/-- The next character. -/
def peek : Scan (Option Char) := do return (← get).rest.head?

/-- The next character, over line ends behind backslashes. -/
def peekJoined : Scan (Option Char) := do
  modify fun c =>
    let (line, rest) := dropJoins c.line c.rest
    { c with line, rest }
  peek

/-- Pass over the next character. -/
def skip : Scan Unit := modify fun c =>
  { c with rest := c.rest.drop 1, line := if c.rest.head? = some '\n' then c.line + 1 else c.line }

/-- Pass over a character if it comes next, over line ends behind backslashes. -/
def accept (char : Char) : Scan Bool := do
  if (← peekJoined) = some char then
    skip
    return true
  else return false

def isNameStart (c : Char) : Bool := c.isAlpha || c == '_'

def isNameChar (c : Char) : Bool := c.isAlphanum || c == '_'

/-- Whether a text can name a variable or a function. -/
def isName (s : String) : Bool :=
  match s.toList with
  | [] => false
  | c :: cs => isNameStart c && cs.all isNameChar

/-- Parameters that are named by a mark. -/
def isSpecial (c : Char) : Bool :=
  c == '@' || c == '*' || c == '#' || c == '?' || c == '-' || c == '$' || c == '!'

/-- The characters of a name that come next. -/
def nameChars (p : Char → Bool) : Nat → Scan (List Char)
  | 0 => return []
  | fuel + 1 => do
    match ← peekJoined with
    | some c =>
      if p c then
        skip
        return c :: (← nameChars p fuel)
      else return []
    | none => return []

/-! ## Words without their structure -/

/-- The text of a word in which nothing is quoted and nothing stands for a value. -/
def plainText? (w : Word) : Option String :=
  (w.mapM fun p =>
    match p with
    | Piece.char c false => some c
    | _ => none).map String.ofList

/-- The text of a word as it is, without its quotes. -/
def rawText (w : Word) : String :=
  String.ofList (w.filterMap fun p =>
    match p with
    | Piece.char c _ => some c
    | _ => none)

/-- Whether a word is quoted in part. -/
def isQuoted (w : Word) : Bool :=
  w.any fun p =>
    match p with
    | .char _ q => q
    | .quotes => true
    | _ => false

/-- The name and the value of a word that is an assignment. -/
def assignment? (w : Word) : Option (String × Word) :=
  let name := w.takeWhile fun p =>
    match p with
    | .char c false => isNameChar c
    | _ => false
  match plainText? name, w.drop name.length with
  | some text, .char '=' false :: value => if isName text then some (text, value) else none
  | _, _ => none

def keywords : List String :=
  ["!", "\x7b", "\x7d", "case", "do", "done", "elif", "else", "esac", "fi", "for", "if", "in",
    "then", "until", "while"]

/-- How a report names a token. -/
def describe : Token → String
  | .ending => "end of file"
  | .newline => "newline"
  | .mark text => "\"" ++ text ++ "\""
  | .word _ => "word"
  | .keyword text => "\"" ++ text ++ "\""
  | .redirect _ _ => "redirection"

/-- Refuse a token where another is due, if it is known which. -/
def unexpected {α : Type} (t : Token) (due : Option String) : Scan α :=
  failSyntax (describe t ++ " unexpected" ++ match due with
    | some text => " (expecting " ++ text ++ ")"
    | none => "")

/-- Whether a list of commands can end in front of a token. -/
def endsList : Token → Bool
  | .ending => true
  | .mark text => text == ")" || text == ";;"
  | .keyword text =>
    ["do", "done", "elif", "else", "\x7d", "esac", "fi", "then"].contains text
  | _ => false

def isMark (text : String) : Token → Bool
  | .mark t => t == text
  | _ => false

def isKeyword (text : String) : Token → Bool
  | .keyword t => t == text
  | _ => false

/-- Look at a token again. -/
def push (t : Token) : Scan Unit := modify fun c => { c with pushed := some t }

/-! ## Pieces -/

/-- What the characters at hand are inside of. -/
inductive Surrounding where
  | word
  | quotes
  /-- The braces of a parameter. -/
  | braces
  /-- An expression, in which so many parentheses are open. -/
  | expression (depth : Nat)
  /-- A document. -/
  | document
  deriving DecidableEq

/-- Characters that end a word. -/
def endsWord (c : Char) : Bool :=
  c == ' ' || c == '\t' || c == '\n' || c == ';' || c == '&' || c == '|' || c == '<' || c == '>' ||
    c == '(' || c == ')'

/-- The characters up to a single quote. -/
def singleQuoted : Nat → Scan Word
  | 0 => return []
  | fuel + 1 => do
    match ← peek with
    | none => failSyntax "Unterminated quoted string"
    | some c =>
      skip
      if c = '\'' then return [] else return .char c true :: (← singleQuoted fuel)

/-- The characters up to a backquote. A backslash in front of one, of a dollar sign or of another
backslash is left out. -/
def backquoted (inQuotes : Bool) : Nat → Scan (List Char)
  | 0 => return []
  | fuel + 1 => do
    match (← get).rest with
    | [] => failSyntax "EOF in backquote substitution"
    | '`' :: _ =>
      skip
      return []
    | '\\' :: c :: _ =>
      skip
      skip
      if c = '\n' then backquoted inQuotes fuel
      else if c = '\\' || c = '`' || c = '$' || (c = '"' && inQuotes) then
        return c :: (← backquoted inQuotes fuel)
      else return '\\' :: c :: (← backquoted inQuotes fuel)
    | c :: _ =>
      skip
      return c :: (← backquoted inQuotes fuel)

/-- The use that marks behind a name in braces announce, if any. `orEmpty` says that a colon stands
in front. -/
def useOf? (orEmpty : Bool) : Char → Option (Word → Use)
  | '-' => some (.default orEmpty)
  | '=' => some (.assign orEmpty)
  | '?' => some (.demand orEmpty)
  | '+' => some (.alternative orEmpty)
  | _ => none

/-- The lines of a document up to its delimiter. -/
def documentLines (a : Awaited) : Nat → Scan (List Char)
  | 0 => return []
  | fuel + 1 => do
    let c ← get
    if c.rest.isEmpty then return []
    let rest := if a.isStripped then c.rest.dropWhile (· == '\t') else c.rest
    let line := rest.takeWhile (· != '\n')
    let behind := rest.dropWhile (· != '\n')
    set { c with rest := behind.drop 1, line := c.line + 1 }
    if String.ofList line == a.delimiter then return []
    else return line ++ (if behind.isEmpty then [] else ['\n']) ++ (← documentLines a fuel)

/-- Put a document where its number says. -/
def keepDocument (number : Nat) (w : Word) : Scan Unit := modify fun c =>
  { c with documents := c.documents.set! (number - c.firstDocument) w }

/-- The number of a new document. -/
def newDocument : Scan Nat := modifyGet fun c =>
  (c.firstDocument + c.documents.size, { c with documents := c.documents.push [] })

/-! ## Tokens and commands -/

/-- How a mark opens a file. -/
def opening? : String → Option Opening
  | "<" => some .read
  | ">" => some .write
  | ">|" => some .replace
  | ">>" => some .append
  | "<>" => some .both
  | _ => none

/-- One command after another, if there is another. -/
def andThen (first : Option Command) (second : Command) : Option Command :=
  match first with
  | none => some second
  | some c => some (.both c second)

/-- Commands whose names no function may have. -/
def reservedNames : List String :=
  [".", ":", "break", "continue", "eval", "exec", "exit", "export", "readonly", "return", "set",
    "shift", "times", "trap", "unset"]

/-- A redirection, of the stream with a number if that is given. -/
def redirection (fd : Option Nat) : Scan Token := do
  if ← accept '>' then
    let mark ← do
      if ← accept '>' then pure ">>"
      else if ← accept '|' then pure ">|"
      else if ← accept '&' then pure "&"
      else pure ">"
    return .redirect (fd.getD 1) mark
  else
    skip
    let mark ← do
      if ← accept '<' then
        if ← accept '-' then pure "<<-" else pure "<<"
      else if ← accept '&' then pure "&"
      else if ← accept '>' then pure "<>"
      else pure "<"
    return .redirect (fd.getD 0) mark

mutual

/-- The pieces up to the end of what surrounds them. `isQuoted` says that they are quoted. -/
def pieces (inside : Surrounding) (isQuoted : Bool) : Nat → Scan Word
  | 0 => return []
  | fuel + 1 => do
    match (← get).rest with
    | [] =>
      match inside with
      | .word => return []
      | .document => return []
      | .quotes => failSyntax "Unterminated quoted string"
      | .braces =>
        failSyntax (if isQuoted then "Unterminated quoted string" else "Missing '\x7d'")
      | .expression _ => failSyntax "Missing '))'"
    | c :: behind =>
      if inside = .word && endsWord c then return []
      else if inside = .quotes && c = '"' then
        skip
        return []
      else if inside = .braces && c = '\x7d' then
        skip
        return []
      else if c = '\\' then
        skip
        match behind.head? with
        | none => return [.char '\\' isQuoted]
        | some d =>
          skip
          let rest ← pieces inside isQuoted fuel
          if d = '\n' then return rest
          else if !isQuoted || d = '\\' || d = '`' || d = '$' || (d = '"' && inside != .document) ||
              (d = '\x7d' && inside = .braces) then
            return .char d true :: rest
          else return .char '\\' true :: .char d true :: rest
      else if c = '\'' && !isQuoted then
        skip
        let quoted ← singleQuoted fuel
        return .quotes :: quoted ++ (← pieces inside isQuoted fuel)
      else if c = '"' && !isQuoted then
        skip
        let quoted ← pieces .quotes true fuel
        return .quotes :: quoted ++ (← pieces inside isQuoted fuel)
      else if c = '"' && inside = .braces then
        skip
        pieces inside isQuoted fuel
      else if (c = '`' || c = '$') && (← get).isVerbatim then
        skip
        return .char c isQuoted :: (← pieces inside isQuoted fuel)
      else if c = '`' then
        skip
        let text ← backquoted (inside = .quotes) fuel
        let script ← within text fuel
        return .output script isQuoted :: (← pieces inside isQuoted fuel)
      else if c = '$' then
        skip
        let piece ← dollar isQuoted fuel
        return piece ++ (← pieces inside isQuoted fuel)
      else match inside, c with
        | .expression depth, '(' =>
          skip
          return .char c isQuoted :: (← pieces (.expression (depth + 1)) isQuoted fuel)
        | .expression 0, ')' =>
          skip
          if ← accept ')' then return []
          else return .char c isQuoted :: (← pieces inside isQuoted fuel)
        | .expression (depth + 1), ')' =>
          skip
          return .char c isQuoted :: (← pieces (.expression depth) isQuoted fuel)
        | _, _ =>
          skip
          return .char c isQuoted :: (← pieces inside isQuoted fuel)
termination_by structural x => x

/-- What follows a dollar sign. -/
def dollar (isQuoted : Bool) : Nat → Scan Word
  | 0 => return []
  | fuel + 1 => do
    match ← peekJoined with
    | some '(' =>
      skip
      if ← accept '(' then
        return [.value (← pieces (.expression 0) true fuel) isQuoted]
      else
        let c ← get
        set { c with awaited := [] }
        let script ← list true none fuel
        let closing ← token false false fuel
        if !isMark ")" closing then unexpected closing (some "\")\"")
        modify fun d => { d with awaited := c.awaited }
        return [.output script isQuoted]
    | some '\x7b' =>
      skip
      braced isQuoted fuel
    | some c =>
      if isNameStart c then
        return [.param (String.ofList (← nameChars isNameChar fuel)) .plain isQuoted]
      else if c.isDigit || isSpecial c then
        skip
        return [.param (String.singleton c) .plain isQuoted]
      else return [.char '$' isQuoted]
    | none => return [.char '$' isQuoted]
termination_by structural x => x

/-- A parameter in braces, behind the opening one. -/
def braced (isQuoted : Bool) : Nat → Scan Word
  | 0 => return []
  | fuel + 1 => do
    let hasHash := (← peekJoined) = some '#'
    -- a hash in front asks for the length, unless it is the parameter itself
    let isLength ← do
      if hasHash then
        let saved ← get
        skip
        match ← peekJoined with
        | some c =>
          let atName ← get
          if isNameChar c then pure true
          else
            skip
            if c != '\x7d' && (← peekJoined) = some '\x7d' then
              set atName
              pure true
            else
              set saved
              pure false
        | none =>
          set saved
          pure false
      else pure false
    let name ← do
      match ← peekJoined with
      | some c =>
        if isNameStart c then nameChars isNameChar fuel
        else if c.isDigit then nameChars Char.isDigit fuel
        else if isSpecial c then
          skip
          pure [c]
        else pure []
      | none => pure []
    let name := String.ofList name
    if name.isEmpty then
      let _ ← pieces .braces isQuoted fuel
      return [.param name .malformed isQuoted]
    if isLength then
      let rest ← pieces .braces isQuoted fuel
      return [.param name (if rest.isEmpty then .length else .malformed) isQuoted]
    match ← peekJoined with
    | some '\x7d' =>
      skip
      return [.param name .plain isQuoted]
    | some '%' =>
      skip
      let isLongest ← accept '%'
      return [.param name (.trim true isLongest (← pieces .braces false fuel)) isQuoted]
    | some '#' =>
      skip
      let isLongest ← accept '#'
      return [.param name (.trim false isLongest (← pieces .braces false fuel)) isQuoted]
    | _ =>
      let orEmpty ← accept ':'
      match (← peekJoined).bind (useOf? orEmpty) with
      | some use =>
        skip
        return [.param name (use (← pieces .braces isQuoted fuel)) isQuoted]
      | none =>
        skip
        let _ ← pieces .braces isQuoted fuel
        return [.param name .malformed isQuoted]
termination_by structural x => x

/-- The commands of a script that is written inside another. -/
def within (text : List Char) : Nat → Scan (Option Command)
  | 0 => return none
  | fuel + 1 => do
    let outer ← get
    set { outer with rest := text, line := 1, pushed := none, awaited := [] }
    let script ← list true none fuel
    let closing ← token false false fuel
    match closing with
    | .ending => pure ()
    | t => unexpected t none
    modify fun c => { c with
      rest := outer.rest, line := outer.line, pushed := outer.pushed, awaited := outer.awaited }
    return script
termination_by structural x => x

/-- Read the documents that are awaited. -/
def awaitedDocuments : Nat → Scan Unit
  | 0 => return
  | fuel + 1 => do
    match (← get).awaited with
    | [] => return
    | a :: others =>
      modify fun c => { c with awaited := others }
      let text ← documentLines a fuel
      if a.isLiteral then keepDocument a.number (text.map fun c => .char c true)
      else
        let outer ← get
        set { outer with rest := text }
        let w ← pieces .document true fuel
        modify fun c => { c with rest := outer.rest, line := outer.line }
        keepDocument a.number w
      awaitedDocuments fuel
termination_by structural x => x

/-- The next token. Keywords are told from words if `keywords` says so, and line ends are passed
over if `overLines` does. -/
def token (overLines keywords : Bool) : Nat → Scan Token
  | 0 => return .ending
  | fuel + 1 => do
    let t ← do
      match (← get).pushed with
      | some t =>
        modify fun c => { c with pushed := none }
        pure t
      | none => freshToken fuel
    match t with
    | .newline => if overLines then token overLines keywords fuel else return t
    | .word w =>
      match plainText? w with
      | some text =>
        return if keywords && Scan.keywords.contains text then .keyword text else t
      | none => return t
    | _ => return t
termination_by structural x => x

/-- A token that has not been looked at before. -/
def freshToken : Nat → Scan Token
  | 0 => return .ending
  | fuel + 1 => do
    match ← peekJoined with
    | none => return .ending
    | some c =>
      if c = ' ' || c = '\t' then
        skip
        freshToken fuel
      else if c = '#' then
        modify fun c => { c with rest := c.rest.dropWhile (· != '\n') }
        freshToken fuel
      else if c = '\n' then
        skip
        awaitedDocuments fuel
        return .newline
      else if c = '&' || c = '|' then
        skip
        if ← accept c then return .mark (String.ofList [c, c]) else return .mark (String.singleton c)
      else if c = ';' then
        skip
        if ← accept ';' then return .mark ";;" else return .mark ";"
      else if c = '(' || c = ')' then
        skip
        return .mark (String.singleton c)
      else if c = '<' || c = '>' then redirection none
      else
        let w ← pieces .word false fuel
        let next ← peek
        match w with
        | [.char d false] =>
          if d.isDigit && (next = some '<' || next = some '>') then
            redirection (some (d.toNat - 0x30))
          else return .word w
        | _ => return .word w
termination_by structural x => x

/-- A redirection, behind its mark. -/
def redirect (fd : Nat) (mark : String) : Nat → Scan Redirect
  | 0 => return .document fd 0
  | fuel + 1 => do
    modify fun c => { c with isVerbatim := mark == "<<" || mark == "<<-" }
    let t ← token false false fuel
    modify fun c => { c with isVerbatim := false }
    match t with
    | .word w =>
      match opening? mark with
      | some how => return .file fd how w
      | none =>
        if mark == "&" then return .copy fd w
        else
          let number ← newDocument
          modify fun c => { c with awaited := c.awaited ++
            [⟨number, rawText w, isQuoted w, mark == "<<-"⟩] }
          return .document fd number
    | t => unexpected t none
termination_by structural x => x

/-- The redirections that come next. -/
def redirects : Nat → Scan (List Redirect)
  | 0 => return []
  | fuel + 1 => do
    match ← token false true fuel with
    | .redirect fd mark =>
      let r ← redirect fd mark fuel
      return r :: (← redirects fuel)
    | t =>
      push t
      return []
termination_by structural x => x

/-- Commands up to a token that ends a list; `done` are those before. There may be none if
`mayBeEmpty` says so. -/
def list (mayBeEmpty : Bool) (done : Option Command) : Nat → Scan (Option Command)
  | 0 => return none
  | fuel + 1 => do
    let t ← token true true fuel
    push t
    match t with
    | .ending => return done
    | _ =>
      if mayBeEmpty && endsList t then return done
      else
        let c ← condition fuel
        let t ← token false false fuel
        match t with
        | .mark "&" => list true (andThen done (.background (← get).line c)) fuel
        | .mark ";" => list true (andThen done c) fuel
        | .newline => list true (andThen done c) fuel
        | t =>
          push t
          return andThen done c
termination_by structural x => x

/-- Commands joined by `&&` and `||`. -/
def condition : Nat → Scan Command
  | 0 => return default
  | fuel + 1 => do
    let first ← pipeline false fuel
    conditionTail first fuel
termination_by structural x => x

/-- What is joined to a command by `&&` and `||`. -/
def conditionTail (first : Command) : Nat → Scan Command
  | 0 => return first
  | fuel + 1 => do
    match ← token false false fuel with
    | .mark "&&" =>
      let second ← pipeline true fuel
      conditionTail (.also first second) fuel
    | .mark "||" =>
      let second ← pipeline true fuel
      conditionTail (.orElse first second) fuel
    | t =>
      push t
      return first
termination_by structural x => x

/-- Commands joined by `|`. -/
def pipeline (overLines : Bool) : Nat → Scan Command
  | 0 => return default
  | fuel + 1 => do
    let t ← token overLines true fuel
    let isNegated := isKeyword "!" t
    if !isNegated then push t
    let first ← command false fuel
    let others ← pipelineTail fuel
    let c := if others.isEmpty then first else .pipe (first :: others)
    return if isNegated then .negated c else c
termination_by structural x => x

/-- What is joined to a command by `|`. -/
def pipelineTail : Nat → Scan (List Command)
  | 0 => return []
  | fuel + 1 => do
    match ← token false false fuel with
    | .mark "|" =>
      let c ← command true fuel
      return c :: (← pipelineTail fuel)
    | t =>
      push t
      return []
termination_by structural x => x

/-- A keyword that has to come next, as far as a list of commands can end there. -/
def due (text : String) : Nat → Scan Unit
  | 0 => return
  | fuel + 1 => do
    let t ← token false true fuel
    if !isKeyword text t && !isMark text t then unexpected t (some ("\"" ++ text ++ "\""))
termination_by structural x => x

/-- A list of commands that is not empty. -/
def body : Nat → Scan Command
  | 0 => return default
  | fuel + 1 => do return (← list false none fuel).getD default
termination_by structural x => x

/-- A command. -/
def command (overLines : Bool) : Nat → Scan Command
  | 0 => return default
  | fuel + 1 => do
    let line := (← get).line
    let t ← token overLines true fuel
    match t with
    | .word _ =>
      push t
      simple (← get).line [] [] [] fuel
    | .redirect _ _ =>
      push t
      simple (← get).line [] [] [] fuel
    | .mark "(" =>
      let inner ← body fuel
      due ")" fuel
      finish line (.subshell line inner) fuel
    | .keyword "\x7b" =>
      let inner ← body fuel
      due "\x7d" fuel
      finish line inner fuel
    | .keyword "if" =>
      let c ← branches fuel
      due "fi" fuel
      finish line c fuel
    | .keyword "while" => loopOf line false fuel
    | .keyword "until" => loopOf line true fuel
    | .keyword "for" => each line fuel
    | .keyword "case" => select line fuel
    | t => unexpected t none
termination_by structural x => x

/-- A loop, behind its first keyword. -/
def loopOf (line : Nat) (isUntil : Bool) : Nat → Scan Command
  | 0 => return default
  | fuel + 1 => do
    let test ← body fuel
    due "do" fuel
    let inner ← body fuel
    due "done" fuel
    finish line (.loop isUntil test inner) fuel
termination_by structural x => x

/-- A command with the redirections that follow it. -/
def finish (line : Nat) (c : Command) : Nat → Scan Command
  | 0 => return c
  | fuel + 1 => do
    let rs ← redirects fuel
    return if rs.isEmpty then c else .redirected line c rs
termination_by structural x => x

/-- The branches behind an `if`, up to its `fi`. -/
def branches : Nat → Scan Command
  | 0 => return default
  | fuel + 1 => do
    let test ← body fuel
    due "then" fuel
    let inner ← body fuel
    let t ← token false true fuel
    if isKeyword "elif" t then return .branch test inner (some (← branches fuel))
    else if isKeyword "else" t then return .branch test inner (some (← body fuel))
    else
      push t
      return .branch test inner none
termination_by structural x => x

/-- A loop over words, behind its `for`. -/
def each (line : Nat) : Nat → Scan Command
  | 0 => return default
  | fuel + 1 => do
    let name ← do
      match ← token false false fuel with
      | .word w =>
        match plainText? w with
        | some text => if isName text then pure text else failSyntax "Bad for loop variable"
        | none => failSyntax "Bad for loop variable"
      | _ => failSyntax "Bad for loop variable"
    let t ← token true true fuel
    let words ← do
      if isKeyword "in" t then
        let ws ← words fuel
        match ← token false false fuel with
        | .newline => pure ()
        | .mark ";" => pure ()
        | t => unexpected t none
        pure ws
      else
        if !isMark ";" t then push t
        pure [[.quotes, .param "@" .plain true]]
    let t ← token true true fuel
    if !isKeyword "do" t then unexpected t (some "\"do\"")
    let inner ← body fuel
    due "done" fuel
    finish line (.each line name words inner) fuel
termination_by structural x => x

/-- The words that come next. -/
def words : Nat → Scan (List Word)
  | 0 => return []
  | fuel + 1 => do
    match ← token false false fuel with
    | .word w => return w :: (← words fuel)
    | t =>
      push t
      return []
termination_by structural x => x

/-- A selection, behind its `case`. -/
def select (line : Nat) : Nat → Scan Command
  | 0 => return default
  | fuel + 1 => do
    match ← token false false fuel with
    | .word w =>
      let t ← token true true fuel
      if !isKeyword "in" t then unexpected t (some "\"in\"")
      let arms ← arms fuel
      finish line (.select line w arms) fuel
    | t => unexpected t (some "word")
termination_by structural x => x

/-- The arms of a selection, up to its `esac`. -/
def arms : Nat → Scan (List (List Word × Option Command))
  | 0 => return []
  | fuel + 1 => do
    let t ← token true true fuel
    if isKeyword "esac" t then return []
    else
      let t ← if isMark "(" t then token false false fuel else pure t
      let patterns ← patterns t fuel
      let inner ← list true none fuel
      let t ← token true true fuel
      if isKeyword "esac" t then return [(patterns, inner)]
      else if isMark ";;" t then return (patterns, inner) :: (← arms fuel)
      else unexpected t (some "\";;\"")
termination_by structural x => x

/-- The patterns of an arm, the first of which has been read, up to the parenthesis. -/
def patterns (first : Token) : Nat → Scan (List Word)
  | 0 => return []
  | fuel + 1 => do
    let w ← do
      match first with
      | .word w => pure w
      | .keyword text => pure (text.toList.map fun c => Piece.char c false)
      | _ => pure []
    match ← token false false fuel with
    | .mark "|" => do
      let next ← token false false fuel
      return w :: (← patterns next fuel)
    | .mark ")" => return [w]
    | t => unexpected t (some "\")\"")
termination_by structural x => x

/-- A simple command, of which some has been read, or the definition of a function. -/
def simple (line : Nat) (assignments : List (String × Word)) (ws : List Word)
    (rs : List Redirect) : Nat → Scan Command
  | 0 => return default
  | fuel + 1 => do
    match ← token false false fuel with
    | .word w =>
      match (if ws.isEmpty then assignment? w else none) with
      | some a => simple line (assignments ++ [a]) ws rs fuel
      | none => simple line assignments (ws ++ [w]) rs fuel
    | .redirect fd mark =>
      let r ← redirect fd mark fuel
      simple line assignments ws (rs ++ [r]) fuel
    | .mark "(" =>
      match assignments, ws, rs with
      | [], [name], [] => do
        let t ← token false false fuel
        if !isMark ")" t then unexpected t (some "\")\"")
        match plainText? name with
        | some text =>
          if isName text && !reservedNames.contains text then
            return .define text (← command true fuel)
          else failSyntax "Bad function name"
        | none => failSyntax "Bad function name"
      | _, _, _ => unexpected (.mark "(") none
    | t =>
      push t
      return .simple line assignments ws rs
termination_by structural x => x

end

/-- The commands of the next line, and of those that they take as well. None at the end; an empty
line has no commands. -/
def lineTail (done : Option Command) : Nat → Scan (Option Command)
  | 0 => return none
  | fuel + 1 => do
    let t ← token false true fuel
    match t with
    | .newline => return done
    | .ending =>
      push t
      return done
    | _ =>
      push t
      let c ← condition fuel
      let t ← token false false fuel
      match t with
      | .mark "&" => lineTail (andThen done (.background (← get).line c)) fuel
      | .mark ";" => lineTail (andThen done c) fuel
      | .newline =>
        push t
        lineTail (andThen done c) fuel
      | .ending =>
        push t
        return andThen done c
      | t => unexpected t none

end Scan

/-- Enough fuel to read a script. -/
def fuelFor (text : List Char) : Nat := 40 * (text.length + 10)

/-- The commands of the next lines of a script, and where they end; none at the end. -/
def Cursor.line? (c : Cursor) : Except Fault (Option (Option Command × Cursor)) :=
  let fuel := fuelFor c.rest
  let step : Scan (Option (Option Command)) := do
    match ← Scan.token false false fuel with
    | .ending => return none
    | .newline => return some none
    | t =>
      Scan.push t
      let done ← Scan.lineTail none fuel
      modify fun c => { c with awaited := [] }
      return some done
  match step.run c with
  | .error fault => .error fault
  | .ok (none, _) => .ok none
  | .ok (some done, c) => .ok (some (done, c))

end RubyBinding.Shell
