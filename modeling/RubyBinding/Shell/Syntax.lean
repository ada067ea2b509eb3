/-!
# What a script consists of

A script is a list of commands. A command names what to run by *words*, which become arguments only
when the script is run: a word is a list of pieces, some of which stand for the values of parameters,
the output of a script or the value of an expression.

A document that a redirection holds is written behind the line of the command, so a redirection keeps
only its number; the words of the documents are kept apart.
-/

namespace RubyBinding.Shell

/-- How a file is opened. -/
inductive Opening where
  | read
  | write
  /-- For writing, even if a file is to be kept from that. -/
  | replace
  | append
  /-- For reading and writing, without clearing it. -/
  | both
  deriving DecidableEq, Repr, Inhabited

mutual

/-- A piece of a word. Blanks and pattern marks in what is quoted have no meaning. -/
inductive Piece where
  | char (c : Char) (isQuoted : Bool)
  /-- Quotes, between which there may be nothing. -/
  | quotes
  | param (name : String) (use : Use) (isQuoted : Bool)
  /-- What a script prints. -/
  | output (script : Option Command) (isQuoted : Bool)
  /-- The value of an expression. -/
  | value (expression : List Piece) (isQuoted : Bool)

/-- What is made of the value of a parameter. In the first four, `orEmpty` says whether an empty
value counts as none. -/
inductive Use where
  | plain
  /-- The word instead of a missing value. -/
  | default (orEmpty : Bool) (word : List Piece)
  /-- The word instead of a missing value, which is kept. -/
  | assign (orEmpty : Bool) (word : List Piece)
  /-- The word as a report on a missing value. -/
  | demand (orEmpty : Bool) (word : List Piece)
  /-- The word instead of a value that is there. -/
  | alternative (orEmpty : Bool) (word : List Piece)
  | length
  /-- The value without what a pattern matches at an end of it. -/
  | trim (atEnd isLongest : Bool) (pattern : List Piece)
  /-- Nothing that could be understood. -/
  | malformed

/-- Where a stream of a command is taken from or put. -/
inductive Redirect where
  | file (fd : Nat) (how : Opening) (path : List Piece)
  /-- Like the stream whose number the word is, or closed if the word is a hyphen. -/
  | copy (fd : Nat) (source : List Piece)
  /-- From a document. -/
  | document (fd number : Nat)

inductive Command where
  | simple (line : Nat) (assignments : List (String × List Piece)) (words : List (List Piece))
      (redirects : List Redirect)
  | redirected (line : Nat) (body : Command) (redirects : List Redirect)
  | subshell (line : Nat) (body : Command)
  /-- One after the other. -/
  | both (first second : Command)
  /-- The second if the first succeeds. -/
  | also (first second : Command)
  /-- The second if the first fails. -/
  | orElse (first second : Command)
  | negated (body : Command)
  /-- Each reads what the one before it prints. -/
  | pipe (commands : List Command)
  | background (line : Nat) (body : Command)
  | branch (test body : Command) (otherwise : Option Command)
  /-- Again and again while a test succeeds, or until it does. -/
  | loop (isUntil : Bool) (test body : Command)
  | each (line : Nat) (name : String) (words : List (List Piece)) (body : Command)
  | select (line : Nat) (word : List Piece) (arms : List (List (List Piece) × Option Command))
  | define (name : String) (body : Command)

end

instance : Inhabited Piece := ⟨.quotes⟩

instance : Inhabited Command := ⟨.simple 0 [] [] []⟩

/-- A word before its parameters are known. -/
abbrev Word := List Piece

end RubyBinding.Shell
