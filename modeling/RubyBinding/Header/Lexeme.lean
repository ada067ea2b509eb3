import RubyBinding.Text.Blank

/-!
# Lexemes of a header

A header is cut into words, numbers, literals, punctuation marks and the directives that open,
split or close a conditional section. Blanks, comments and all other directives only separate
lexemes; a lexeme keeps them as the *gap* in front of it, so that the text of any run of lexemes can
be given back as it was written (`textOf`).
-/

namespace RubyBinding.Header

/-- The directives that divide a header into conditional sections. -/
inductive Directive where
  /-- `#if`, `#ifdef` and `#ifndef`. -/
  | opening
  /-- `#elif`. -/
  | alternative
  /-- `#elifdef` and `#elifndef`. -/
  | alternativeDefined
  /-- `#else`. -/
  | otherwise
  /-- `#endif`. -/
  | closing
  deriving DecidableEq, Hashable, Repr, Inhabited

/-- The classes of lexeme. A mark is one character. -/
inductive LexemeClass where
  | word
  | number
  | string
  | char
  | mark
  | directive (d : Directive)
  deriving DecidableEq, Repr, Inhabited

/-- A lexeme, with what stands between it and the one before it. -/
structure Lexeme where
  gap : String
  text : String
  kind : LexemeClass
  deriving Repr, Inhabited

/-- The text from the first lexeme to the last. -/
def textOf : List Lexeme → String
  | [] => ""
  | l :: ls => l.text ++ String.join (ls.map fun m => m.gap ++ m.text)

/-- Whether a lexeme is a directive. -/
def Lexeme.isDirective (l : Lexeme) : Bool :=
  match l.kind with
  | .directive _ => true
  | _ => false

/-- Whether a comment stands in front of a lexeme. -/
def Lexeme.hasComment (l : Lexeme) : Bool :=
  Text.hasPart ['/', '*'] l.gap.toList || Text.hasPart ['/', '/'] l.gap.toList

namespace Lexeme

/-! ## Characters -/

/-- Characters that can begin a word: ASCII letters, `_`, `$`, and what is neither ASCII nor
blank. -/
def startsWord (c : Char) : Bool :=
  c.isAlpha || c == '_' || c == '$' || (c.toNat ≥ 0x80 && !Text.isBlank c)

/-- Characters that can stand inside a word. -/
def inWord (c : Char) : Bool := startsWord c || c.isDigit

/-! ## Pieces that are read to an end of their own -/

/-- Put characters in front of the first part of a pair. -/
def prepend (cs : List Char) (p : List Char × List Char) : List Char × List Char :=
  (cs ++ p.1, p.2)

/-- The characters of a block comment after its opening, and the rest. -/
def blockComment : List Char → List Char × List Char
  | [] => ([], [])
  | '*' :: '/' :: r => (['*', '/'], r)
  | c :: r => prepend [c] (blockComment r)

/-- The characters up to the end of the line, continued where a backslash ends it, and the rest. -/
def restOfLine : List Char → List Char × List Char
  | [] => ([], [])
  | '\\' :: '\r' :: '\n' :: r => prepend ['\\', '\r', '\n'] (restOfLine r)
  | '\\' :: '\n' :: r => prepend ['\\', '\n'] (restOfLine r)
  | '\n' :: r => ([], '\n' :: r)
  | c :: r => prepend [c] (restOfLine r)

/-- The characters of a directive, which a block comment may carry over several lines, and the
rest. -/
def directiveLine (inComment : Bool) : List Char → List Char × List Char
  | [] => ([], [])
  | '*' :: '/' :: r => prepend ['*', '/'] (directiveLine false r)
  | '\\' :: '\r' :: '\n' :: r => prepend ['\\', '\r', '\n'] (directiveLine inComment r)
  | '\\' :: '\n' :: r => prepend ['\\', '\n'] (directiveLine inComment r)
  | '/' :: '*' :: r => prepend ['/', '*'] (directiveLine true r)
  | '/' :: '/' :: r =>
    if inComment then prepend ['/', '/'] (directiveLine true r) else prepend ['/', '/'] (restOfLine r)
  | c :: r =>
    if c = '\n' ∧ !inComment then ([], c :: r) else prepend [c] (directiveLine inComment r)

/-- The characters of a literal after its opening quote up to the closing one, and the rest. -/
def literal (quote : Char) : List Char → List Char × List Char
  | [] => ([], [])
  | '\\' :: c :: r => prepend ['\\', c] (literal quote r)
  | c :: r => if c = quote then ([c], r) else prepend [c] (literal quote r)

/-- The characters of a raw string after its parenthesis up to `)`, the delimiter and a quote, and
the rest. -/
def rawLiteral (closing : List Char) : List Char → List Char × List Char
  | [] => ([], [])
  | c :: r =>
    match Text.after? closing (c :: r) with
    | some rest => (closing, rest)
    | none => prepend [c] (rawLiteral closing r)

/-- The characters of a number after its first digit, and the rest. A quote separates digits and a
sign may follow an exponent letter. -/
def numberTail : List Char → List Char × List Char
  | [] => ([], [])
  | [c] => if inWord c || c == '.' then ([c], []) else ([], [c])
  | c :: d :: r =>
    if (c ∈ ['e', 'E', 'p', 'P'] ∧ d ∈ ['+', '-']) ∨ (c = '\'' ∧ inWord d) then
      prepend [c, d] (numberTail r)
    else if inWord c || c == '.' then prepend [c] (numberTail (d :: r))
    else ([], c :: d :: r)

/-! ## Words -/

def isHexDigit (c : Char) : Bool :=
  c.isDigit || ('a' ≤ c && c ≤ 'f') || ('A' ≤ c && c ≤ 'F')

/-- The escape of a character in a word, by four or eight hexadecimal digits, and the rest. -/
def escape? : List Char → Option (List Char × List Char)
  | '\\' :: letter :: r =>
    let size := if letter = 'u' then 4 else if letter = 'U' then 8 else 0
    let digits := r.take size
    if 0 < size && digits.length == size && digits.all isHexDigit then
      some ('\\' :: letter :: digits, r.drop size)
    else none
  | _ => none

/-- The characters of a word, and the rest; `fuel` bounds the number of characters and escapes. -/
def wordTail : Nat → List Char → List Char × List Char
  | 0, cs => ([], cs)
  | _ + 1, [] => ([], [])
  | fuel + 1, c :: r =>
    if inWord c then prepend [c] (wordTail fuel r)
    else match escape? (c :: r) with
      | some (escaped, rest) => prepend escaped (wordTail fuel rest)
      | none => ([], c :: r)

/-- The word that a text begins with, and the rest; no word if it begins with none. -/
def word (cs : List Char) : List Char × List Char :=
  match cs with
  | c :: _ => if startsWord c || (escape? cs).isSome then wordTail cs.length cs else ([], cs)
  | [] => ([], [])

/-! ## Scanning -/

/-- The directive that divides sections and has a name. -/
def directive? (name : String) : Option Directive :=
  match name with
  | "if" => some .opening
  | "ifdef" => some .opening
  | "ifndef" => some .opening
  | "elif" => some .alternative
  | "elifdef" => some .alternativeDefined
  | "elifndef" => some .alternativeDefined
  | "else" => some .otherwise
  | "endif" => some .closing
  | _ => none

/-- The name of a directive, from the text after its hash. -/
def directiveName (line : List Char) : String :=
  String.ofList ((line.dropWhile fun c => c == ' ' || c == '\t').takeWhile inWord)

/-- Words that announce a raw string when a quote follows. -/
def announcesRaw (word : List Char) : Bool :=
  ["R", "LR", "uR", "UR", "u8R"].contains (String.ofList word)

/-- Words that belong to the literal whose quote follows. -/
def announcesLiteral (word : List Char) : Bool :=
  ["L", "u", "U", "u8"].contains (String.ofList word)

/-- Cut a text into lexemes. `gap` is what has been passed over since the last lexeme, reversed;
`fuel` bounds the number of steps, each of which takes at least one character. -/
def scanWith : Nat → List Char → List Char → List Lexeme
  | 0, _, _ => []
  | _ + 1, _, [] => []
  | fuel + 1, gap, c :: r =>
    let emit := fun kind (p : List Char × List Char) =>
      ⟨String.ofList gap.reverse, String.ofList p.1, kind⟩ :: scanWith fuel [] p.2
    let pass := fun (p : List Char × List Char) => scanWith fuel (p.1.reverse ++ gap) p.2
    if Text.isBlank c then scanWith fuel (c :: gap) r
    else if startsWord c || (escape? (c :: r)).isSome then
      let (word, rest) := word (c :: r)
      match rest with
      | '"' :: rest =>
        if announcesRaw word then
          let delimiter := rest.takeWhile (· != '(')
          let (body, rest) :=
            rawLiteral (')' :: delimiter ++ ['"']) ((rest.dropWhile (· != '(')).drop 1)
          emit .string (word ++ '"' :: delimiter ++ '(' :: body, rest)
        else if announcesLiteral word then
          let (body, rest) := literal '"' rest
          emit .string (word ++ '"' :: body, rest)
        else emit .word (word, '"' :: rest)
      | '\'' :: rest =>
        if announcesLiteral word then
          let (body, rest) := literal '\'' rest
          emit .char (word ++ '\'' :: body, rest)
        else emit .word (word, '\'' :: rest)
      | rest => emit .word (word, rest)
    else if c.isDigit then
      let (digits, rest) := numberTail r
      emit .number (c :: digits, rest)
    else if c = '#' then
      let (line, rest) := directiveLine false r
      match directive? (directiveName line) with
      | some d => emit (.directive d) ('#' :: line, rest)
      | none => pass ('#' :: line, rest)
    else match c, r with
      | '/', '*' :: r' =>
        let (comment, rest) := blockComment r'
        pass ('/' :: '*' :: comment, rest)
      | '/', '/' :: r' =>
        let (comment, rest) := restOfLine r'
        pass ('/' :: '/' :: comment, rest)
      | '\\', '\r' :: '\n' :: r' => pass (['\\', '\r', '\n'], r')
      | '\\', '\n' :: r' => pass (['\\', '\n'], r')
      | '"', _ =>
        let (body, rest) := literal '"' r
        emit .string ('"' :: body, rest)
      | '\'', _ =>
        let (body, rest) := literal '\'' r
        emit .char ('\'' :: body, rest)
      | '.', d :: r' =>
        if d.isDigit then
          let (digits, rest) := numberTail r'
          emit .number ('.' :: d :: digits, rest)
        else emit .mark ([c], r)
      | _, _ => emit .mark ([c], r)

/-- The lexemes of a header. A byte order mark in front of it is no part of it. -/
def scan (source : List Char) : List Lexeme :=
  let source := match source with
    | '\ufeff' :: r => r
    | cs => cs
  scanWith (source.length + 1) [] source

end Lexeme

end RubyBinding.Header
