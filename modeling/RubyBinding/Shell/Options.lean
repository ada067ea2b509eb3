import RubyBinding.Text.Blank

/-!
# Options of tools

The arguments of a tool are options and operands in any order; behind `--` there are only operands. An
option is a letter behind a hyphen, where letters may be put together, or a word behind two hyphens,
which may be cut short as long as no other one begins like it.
-/

namespace RubyBinding.Shell

/-- An option that a tool knows. -/
structure ToolOption where
  letter : Option Char
  word : Option String
  hasValue : Bool := false
  deriving Repr

namespace ToolOption

/-- What an option is called when it has been given: its word, or its letter if it has no word. -/
def key (o : ToolOption) : String :=
  match o.word, o.letter with
  | some word, _ => word
  | none, some letter => String.singleton letter
  | none, none => ""

/-- Options that were given, each with its value, and operands. -/
structure Given where
  options : List (String × String) := []
  operands : List String := []
  deriving Repr, Inhabited

def Given.has (g : Given) (key : String) : Bool := g.options.any fun o => o.1 == key

variable (known : List ToolOption)

/-- The option that a word behind two hyphens means. If it means none, the words that it may be short
for. -/
def ofWord? (word : String) : Except (List String) ToolOption :=
  let begun := known.filter fun o => o.word.any fun w => (Text.after? word.toList w.toList).isSome
  match known.find? (·.word == some word), begun with
  | some o, _ => .ok o
  | none, [o] => .ok o
  | none, os => .error (os.map key)

/-- What is added by an option, and the arguments that are left. -/
abbrev Step := Except String (List (String × String) × List String)

/-- Read a word behind two hyphens. -/
def long (text : String) (rest : List String) : Step := do
  let word := String.ofList (text.toList.takeWhile (· != '='))
  let value := (text.toList.dropWhile (· != '=')).tail?.map String.ofList
  match ofWord? known word with
  | .error [] => throw ("unrecognized option '--" ++ text ++ "'")
  | .error words =>
    throw ("option '--" ++ word ++ "' is ambiguous; possibilities:" ++
      String.join (words.map fun w => " '--" ++ w ++ "'"))
  | .ok o =>
    match o.hasValue, value, rest with
    | false, none, _ => return ([(o.key, "")], rest)
    | false, some _, _ => throw ("option '--" ++ o.key ++ "' doesn't allow an argument")
    | true, some v, _ => return ([(o.key, v)], rest)
    | true, none, v :: rest => return ([(o.key, v)], rest)
    | true, none, [] => throw ("option '--" ++ o.key ++ "' requires an argument")

/-- Read letters behind a hyphen. -/
def short (rest : List String) : List Char → Step
  | [] => return ([], rest)
  | c :: cs => do
    match known.find? (·.letter == some c) with
    | none => throw ("invalid option -- '" ++ String.singleton c ++ "'")
    | some o =>
      if !o.hasValue then
        let (given, rest) ← short rest cs
        return ((o.key, "") :: given, rest)
      else if !cs.isEmpty then return ([(o.key, String.ofList cs)], rest)
      else
        match rest with
        | v :: rest => return ([(o.key, v)], rest)
        | [] => throw ("option requires an argument -- '" ++ String.singleton c ++ "'")

/-- Read arguments; `fuel` bounds their number. -/
def readAll : Nat → List String → Except String Given
  | 0, _ => return {}
  | _ + 1, [] => return {}
  | fuel + 1, a :: rest =>
    match a.toList with
    | ['-', '-'] => return { operands := rest }
    | '-' :: '-' :: text => do
      let (given, rest) ← long known (String.ofList text) rest
      let others ← readAll fuel rest
      return { others with options := given ++ others.options }
    | '-' :: c :: cs => do
      let (given, rest) ← short known rest (c :: cs)
      let others ← readAll fuel rest
      return { others with options := given ++ others.options }
    | _ => do
      let others ← readAll fuel rest
      return { others with operands := a :: others.operands }

/-- Read the arguments of a tool, or say why they cannot be read. -/
def read (arguments : List String) : Except String Given :=
  readAll known (arguments.length + 1) arguments

end ToolOption

end RubyBinding.Shell
