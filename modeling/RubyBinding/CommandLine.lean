import RubyBinding.Project

/-!
# The command line

`generate [CONFIG] [-o DIR] [--writer LAYOUT]` writes an extension, `check [CONFIG]` only says whether
it could be written, `dump HEADERS…` prints declarations. `-v` may stand anywhere and as often as one
likes. `Command.ofArgs?` says what some arguments ask for, and `Command.run` does it.
-/

namespace RubyBinding

/-- What the program is asked for. -/
inductive Command where
  | generate (config : String) (output : Option String) (layout : Option Layout)
  | check (config : String)
  | dump (headers : List String)
  /-- Explain how the program is used. -/
  | help
  | version
  deriving Repr

/-- What a run of the program leaves. -/
structure Report where
  status : Nat
  out : String := ""
  err : String := ""
  deriving DecidableEq, Repr, Inhabited

namespace Command

/-! ## Arguments -/

/-- The commands that take arguments of their own. -/
inductive Verb where
  | generate
  | check
  | dump
  deriving DecidableEq, Repr

def verb? : String → Option Verb
  | "generate" => some .generate
  | "check" => some .check
  | "dump" => some .dump
  | _ => none

/-- The arguments read so far. -/
structure Seen where
  verb : Option Verb := none
  positional : List String := []
  output : Option String := none
  layout : Option Layout := none
  deriving Repr

/-- What reading arguments leads to. -/
inductive Reading where
  | go (seen : Seen)
  | done (c : Command)
  | refused

def layout? : String → Option Layout
  | "single" => some .single
  | "multiple" => some .multiple
  | _ => none

/-- Set the output directory, once and not to nothing. -/
def setOutput (seen : Seen) (value : String) : Reading :=
  if seen.verb = some .generate ∧ seen.output.isNone ∧ value ≠ "" then
    .go { seen with output := some value }
  else .refused

/-- Set the layout, once. -/
def setLayout (seen : Seen) (value : String) : Reading :=
  match seen.verb, seen.layout, layout? value with
  | some .generate, none, some l => .go { seen with layout := some l }
  | _, _, _ => .refused

/-- Take an argument that is no option: the command, or an argument of it. -/
def setPositional (seen : Seen) (value : String) : Reading :=
  match seen.verb with
  | none =>
    match verb? value with
    | some v => .go { seen with verb := some v }
    | none => .refused
  | some v =>
    if value = "" ∨ (v ≠ .dump ∧ seen.positional ≠ []) then .refused
    else .go { seen with positional := seen.positional ++ [value] }

/-- Whether a text can be the value of an option that stands before it. -/
def isValue (s : String) : Bool := s = "-" || (Text.after? ['-'] s.toList).isNone

/-- Read a group of short options, which may end with `-o` and its value. True if the value of `-o`
is the next argument. -/
def shortOptions (seen : Seen) : List Char → Reading × Bool
  | [] => (.go seen, false)
  | 'v' :: r => shortOptions seen r
  | 'h' :: _ => (.done .help, false)
  | 'V' :: _ => (if seen.verb.isNone then .done .version else .refused, false)
  | 'o' :: r =>
    match r with
    | [] => (if seen.verb = some .generate then .go seen else .refused, true)
    | '=' :: value => (setOutput seen (String.ofList value), false)
    | value => (setOutput seen (String.ofList value), false)
  | _ :: _ => (.refused, false)

/-- Read a long option without a value. -/
def longFlag (seen : Seen) : String → Reading
  | "verbose" => .go seen
  | "help" => .done .help
  | "version" => if seen.verb.isNone then .done .version else .refused
  | _ => .refused

/-- Give a long option its value. -/
def longOption (seen : Seen) (name value : String) : Reading :=
  if name = "output" then setOutput seen value
  else if name = "writer" then setLayout seen value
  else .refused

/-- What all arguments have led to. -/
def conclude (seen : Seen) : Option Command :=
  match seen.verb, seen.positional with
  | some .generate, ps => some (.generate (ps.headD "rubric.toml") seen.output seen.layout)
  | some .check, ps => some (.check (ps.headD "rubric.toml"))
  | some .dump, [] => none
  | some .dump, ps => some (.dump ps)
  | none, _ => none

/-- Take arguments none of which is an option. -/
def positionals (seen : Seen) : List String → Option Command
  | [] => conclude seen
  | a :: rest =>
    if seen.verb.isNone then none
    else match setPositional seen a with
      | .go seen => positionals seen rest
      | .done c => some c
      | .refused => none

/-- What `help` asks for: an explanation of all, or of the command that is named. -/
def explain : List String → Option Command
  | [] => some .help
  | [topic] => if topic = "help" ∨ (verb? topic).isSome then some .help else none
  | _ => none

/-- Read arguments from left to right; none if the program does not understand them. -/
def read (seen : Seen) : List String → Option Command
  | [] => conclude seen
  | "--" :: rest => positionals seen rest
  | a :: rest =>
    let goOn := fun (r : Reading) => match r with
      | .go seen => read seen rest
      | .done c => some c
      | .refused => none
    match a.toList with
    | '-' :: '-' :: name =>
      let word := String.ofList (name.takeWhile (· != '='))
      match name.dropWhile (· != '=') with
      | _ :: value => goOn (longOption seen word (String.ofList value))
      | [] =>
        if word = "output" ∨ word = "writer" then
          match rest with
          | value :: rest =>
            if isValue value then
              match longOption seen word value with
              | .go seen => read seen rest
              | .done c => some c
              | .refused => none
            else none
          | [] => none
        else goOn (longFlag seen word)
    | '-' :: c :: r =>
      match shortOptions seen (c :: r) with
      | (.go seen, true) =>
        match rest with
        | value :: rest =>
          if isValue value then
            match setOutput seen value with
            | .go seen => read seen rest
            | .done c => some c
            | .refused => none
          else none
        | [] => none
      | (r, _) => goOn r
    | _ =>
      if a = "help" ∧ seen.verb.isNone then explain rest else goOn (setPositional seen a)

/-- What some arguments ask for; none if the program does not understand them. -/
def ofArgs? (args : List String) : Option Command := read {} args

/-! ## Running -/

variable {m : Type → Type} [Monad m] (host : Host m)

/-- Do what is asked for, and say what to print. -/
def execute : Command → ExceptT ProjectError m String
  | generate config output layout => do
    let p ← Project.load host config
    let p := { p with output? := output, layout? := layout }
    let written ← p.run host
    return String.join (written.map fun path => "Wrote " ++ path ++ "\n")
  | check config => do
    let p ← Project.load host config
    let files ← p.generate host
    return config ++ ": OK (" ++ toString files.length ++ " files)\n"
  | dump headers => do
    let t ← Project.readHeaders host headers
    return t.text ++ "\n"
  | help => return "Generate Rice bindings for C++ libraries\n"
  | version => return "rubric 0.1.0\n"

/-- Run the program with some arguments. -/
def run (args : List String) : m Report := do
  match ofArgs? args with
  | none => return { status := 2, err := "error: arguments not understood\n" }
  | some c =>
    match ← (execute host c).run with
    | .ok out => return { status := 0, out }
    | .error e => return { status := 1, err := "Error: " ++ e.message ++ "\n" }

end Command

end RubyBinding
