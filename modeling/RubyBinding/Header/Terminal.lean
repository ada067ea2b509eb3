import RubyBinding.Header.Lexeme

/-!
# The tokens of the grammar

A token is one lexeme or several: a keyword, marks that stand next to one another, or a bracketed
group of which only the brackets matter. Many words and marks are tokens of their own only where the
grammar expects them, so what is read at a lexeme depends on what is accepted there (`choose`).
-/

namespace RubyBinding.Header

/-- The tokens of the grammar. -/
inductive Terminal where
  /-- A keyword or a run of marks. -/
  | literal (text : String)
  | word
  | number
  | string
  | char
  /-- The name of a builtin type. -/
  | primitive
  /-- The mark that closes template arguments. -/
  | closeAngle
  /-- A list of initialisers in braces. -/
  | block
  /-- A function body. -/
  | body
  /-- A group in square brackets. -/
  | brackets
  /-- A group in double square brackets. -/
  | attribute
  /-- A group in parentheses of which nothing is read. -/
  | group
  /-- What an operator's name has behind `operator`. -/
  | operator
  | directive (d : Directive)
  /-- A directive for which there is no open section. -/
  | strayDirective
  deriving DecidableEq, Hashable, Repr, Inhabited

namespace Terminal

/-! ## Words and marks -/

/-- Builtin types that are named by one word. -/
def primitives : List String :=
  ["bool", "char", "int", "float", "double", "void", "size_t", "ssize_t", "ptrdiff_t", "intptr_t",
    "uintptr_t", "charptr_t", "nullptr_t", "max_align_t", "int8_t", "int16_t", "int32_t", "int64_t",
    "uint8_t", "uint16_t", "uint32_t", "uint64_t", "char8_t", "char16_t", "char32_t", "char64_t"]

/-- Words that name operators. -/
def operatorWords : List String :=
  ["co_await", "xor", "bitand", "bitor", "compl", "not", "xor_eq", "and_eq", "or_eq", "not_eq", "and",
    "or", "new", "delete"]

/-- Marks that name operators, longer ones first. -/
def operatorMarks : List String :=
  [">>=", "<<=", "<=>", "->*", "+=", "-=", "*=", "/=", "%=", "^=", "&=", "|=", "<<", ">>", "==", "!=",
    "<=", ">=", "&&", "||", "++", "--", "->", "()", "[]", "+", "-", "*", "/", "%", "^", "&", "|", "~",
    "!", "=", "<", ">", ","]

/-- Words that begin statements and no initialiser. -/
def statementWords : List String :=
  ["if", "for", "while", "do", "switch", "try", "return", "case", "default", "goto", "break",
    "continue", "throw", "co_return", "co_yield"]

/-! ## Looking at lexemes -/

/-- The mark that comes next; empty if none does. -/
def nextMark : List Lexeme → String
  | l :: _ => if l.kind = .mark then l.text else ""
  | [] => ""

/-- The word that comes next; empty if none does. -/
def nextWord : List Lexeme → String
  | l :: _ => if l.kind = .word then l.text else ""
  | [] => ""

/-- Whether some marks come next, with nothing in front of any. -/
def adjoin : List Char → List Lexeme → Bool
  | [], _ => true
  | _ :: _, [] => false
  | c :: cs, l :: ls => l.kind = .mark && l.text.toList == [c] && l.gap == "" && adjoin cs ls

/-- Whether some marks come next, next to one another. -/
def comeNext : List Char → List Lexeme → Bool
  | [], _ => true
  | _ :: _, [] => false
  | c :: cs, l :: ls => l.kind = .mark && l.text.toList == [c] && adjoin cs ls

def isOpener (mark : String) : Bool := mark == "(" || mark == "[" || mark == "\x7b"

def isCloser (mark : String) : Bool := mark == ")" || mark == "]" || mark == "\x7d"

/-- How many lexemes a bracketed group takes that is read up to here with `depth` brackets open. -/
def groupSize (depth taken : Nat) : List Lexeme → Nat
  | [] => taken
  | l :: ls =>
    let mark := nextMark [l]
    if isOpener mark then groupSize (depth + 1) (taken + 1) ls
    else if isCloser mark then
      if depth ≤ 1 then taken + 1 else groupSize (depth - 1) (taken + 1) ls
    else groupSize depth (taken + 1) ls

/-! ## Braces -/

/-- Whether a semicolon stands outside of all brackets but the first. -/
def hasStatement (depth : Nat) : List Lexeme → Bool
  | [] => false
  | l :: ls =>
    let mark := nextMark [l]
    if isOpener mark then hasStatement (depth + 1) ls
    else if isCloser mark then hasStatement (depth - 1) ls
    else (mark == ";" && depth = 1) || hasStatement depth ls

/-- Whether a group in braces reads as a list of initialisers, and whether as a function body. Nothing
between the braces reads as both, and so may what ends in a brace. -/
def readings (group : List Lexeme) : Bool × Bool :=
  let inner := (group.drop 1).dropLast
  let hasStatement := hasStatement 0 group
  let hasDirective := inner.any fun l => l.isDirective
  let isStatement := inner.head?.any fun l => l.kind = .word && statementWords.contains l.text
  let endsInBrace := inner.getLast?.any fun l => l.kind = .mark && l.text == "\x7d"
  (!hasStatement && !isStatement && !hasDirective,
    inner.isEmpty || hasStatement || endsInBrace || hasDirective)

/-! ## Choosing -/

/-- The token of a word: the name of an operator, a keyword, or the name of a builtin type where such
is accepted, and otherwise a word. -/
def ofWord (accepts : Terminal → Bool) (ls : List Lexeme) (text : String) : Terminal × Nat :=
  if accepts .operator && operatorWords.contains text then
    if (text == "new" || text == "delete") && comeNext ['[', ']'] (ls.drop 1) then (.operator, 3)
    else (.operator, 1)
  else if accepts (.literal text) then (.literal text, 1)
  else if primitives.contains text && accepts .primitive then (.primitive, 1)
  else (.word, 1)

/-- The token of a mark other than an opening brace. `marks` are those of the grammar, longer ones
first. -/
def ofMark (marks : List String) (accepts : Terminal → Bool) (ls : List Lexeme) :
    Option (Terminal × Nat) :=
  let operator := if accepts .operator then
    operatorMarks.find? fun m => comeNext m.toList ls else none
  match operator with
  | some m => some (.operator, m.length)
  | none =>
    let text := nextMark ls
    if text == "[" then
      if comeNext ['[', '['] ls && accepts .attribute then some (.attribute, groupSize 0 0 ls)
      else some (.brackets, groupSize 0 0 ls)
    else if text == "(" && accepts .group &&
        !(nextWord (ls.drop 1) == "auto" && nextMark (ls.drop 2) == ")") then
      some (.group, groupSize 0 0 ls)
    else if text == ">" && accepts .closeAngle then some (.closeAngle, 1)
    else (marks.find? fun m => comeNext m.toList ls && accepts (.literal m)).map fun m =>
      (.literal m, m.length)

/-- The tokens of an opening brace: itself, or else what the group that it opens can be read as. -/
def ofBrace (accepts : Terminal → Bool) (ls : List Lexeme) : List (Terminal × Nat) :=
  if accepts (.literal "\x7b") then [(.literal "\x7b", 1)]
  else
    let size := groupSize 0 0 ls
    let (isList, isBody) := readings (ls.take size)
    (if isList && accepts .block then [(.block, size)] else []) ++
      (if isBody && accepts .body then [(.body, size)] else [])

/-- The tokens that the next lexemes may be read as, with the number of lexemes that each takes. -/
def choose (marks : List String) (accepts : Terminal → Bool) (ls : List Lexeme) :
    List (Terminal × Nat) :=
  match ls with
  | [] => []
  | l :: rest =>
    match l.kind with
    | .directive d =>
      if d = .opening || accepts (.directive d) then [(.directive d, 1)] else [(.strayDirective, 1)]
    | .word => [ofWord accepts ls l.text]
    | .string =>
      if accepts .operator then [(.operator, if nextWord rest == "" then 1 else 2)]
      else [(.string, 1)]
    | .number => [(.number, 1)]
    | .char => [(.char, 1)]
    | .mark => if l.text == "\x7b" then ofBrace accepts ls else (ofMark marks accepts ls).toList

end Terminal

end RubyBinding.Header
