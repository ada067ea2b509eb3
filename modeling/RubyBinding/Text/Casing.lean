import RubyBinding.Text.Letter

/-!
# Snake case and camel case

A name is cut into words and the words are joined again, small with underscores between them
(`snakeCase`) or each with a capital (`camelCase`). Words are separated by every character that is
neither letter nor digit. Within a run of letters and digits a new word starts

* at a capital that follows a word ending in a small letter (`getLength` is `get` and `Length`), and
* at the last of several capitals when a small letter follows it (`HTTPServer` is `HTTP` and
  `Server`).

A digit belongs to the word before it and leaves its case as it was (`x1Y2` is `x1` and `Y2`).
-/

namespace RubyBinding.Text

/-- The case of the word read so far, by its last letter. -/
inductive WordCase where
  | undecided
  | small
  | capital
  deriving DecidableEq, Repr

/-- The case of a word once `c` is read. -/
def WordCase.after (case : WordCase) (c : Char) : WordCase :=
  if isSmall c then .small else if isCapital c then .capital else case

/-- The words of a run of letters and digits, after `word` has been read with the given case. -/
def humps (case : WordCase) (word : List Char) : List Char → List (List Char)
  | [] => []
  | [c] => [word ++ [c]]
  | c :: d :: r =>
    if case.after c = .small ∧ isCapital d then
      (word ++ [c]) :: humps .undecided [] (d :: r)
    else if case = .capital ∧ isCapital c ∧ isSmall d then
      word :: humps .undecided [c] (d :: r)
    else
      humps (case.after c) (word ++ [c]) (d :: r)

/-- The pieces of a text between the characters that satisfy `p`. -/
def pieces (p : Char → Bool) : List Char → List (List Char)
  | [] => [[]]
  | c :: r =>
    if p c then [] :: pieces p r
    else match pieces p r with
      | [] => [[c]]
      | w :: ws => (c :: w) :: ws

/-- The words of a name. -/
def nameWords (name : List Char) : List (List Char) :=
  (pieces (fun c => !isAlphanumeric c) name).flatMap (humps .undecided [])

/-- A word in small letters. A sigma at the end takes its final form. -/
def smallWord : List Char → List Char
  | [] => []
  | ['Σ'] => ['ς']
  | c :: r => toSmall c ++ smallWord r

/-- A word with a capital at its start and small letters after it. -/
def capitalWord : List Char → List Char
  | [] => []
  | c :: r => toCapital c ++ smallWord r

/-- `get_length` for `getLength`. -/
def snakeCase (name : String) : String :=
  String.intercalate "_" ((nameWords name.toList).map fun w => String.ofList (smallWord w))

/-- `GetLength` for `getLength`. -/
def camelCase (name : String) : String :=
  String.ofList ((nameWords name.toList).flatMap capitalWord)

end RubyBinding.Text
