import RubyBinding.Shell.Expansion
import RubyBinding.Shell.Fact
import RubyBinding.Shell.Print
import RubyBinding.Shell.Signal

/-!
# Commands of the shell itself

The commands that act on the process that runs them and run no other commands. A command gets its
arguments and gives a status; one that cannot go on fails, which ends the process if the command is one
of the special ones.
-/

namespace RubyBinding.Shell.Builtin

/-- The commands whose faults end the process, and whose assignments stay. -/
def special : List String :=
  [".", ":", "break", "continue", "eval", "exec", "exit", "export", "local", "readonly", "return", "set",
    "shift", "times", "trap", "unset"]

/-- The other commands of the shell itself. -/
def regular : List String :=
  ["[", "alias", "bg", "cd", "command", "echo", "false", "fg", "getopts", "hash", "jobs", "kill",
    "printf", "pwd", "read", "test", "true", "type", "ulimit", "umask", "unalias", "wait"]

variable {m : Type → Type} [Monad m] (disk : Files m)

/-! ## Parts -/

/-- Print a text; the status. -/
def print (text : String) : Run m Nat := do
  if text.isEmpty then return 0
  if ← Run.write disk 1 text then return 0
  Run.warn disk ((← Run.process).command.getD "" ++ ": I/O error")
  return 1

/-- The options in front of the arguments, each with its value, and the arguments. Options that have
values are in `valued`. `letters` are what is left of an argument. -/
def options (plain valued : List Char) (letters : List Char) :
    List String → Nat → Run m (List (Char × String) × List String)
  | arguments, 0 => return ([], arguments)
  | arguments, fuel + 1 => do
    match letters, arguments with
    | [], "--" :: rest => return ([], rest)
    | [], a :: rest =>
      match a.toList with
      | '-' :: c :: cs => options plain valued (c :: cs) rest fuel
      | _ => return ([], arguments)
    | [], [] => return ([], [])
    | c :: cs, _ =>
      if plain.contains c then
        let (found, rest) ← options plain valued cs arguments fuel
        return ((c, "") :: found, rest)
      else if valued.contains c then
        match cs, arguments with
        | [], [] => Run.fail disk ("No arg for -" ++ String.singleton c ++ " option")
        | [], v :: rest =>
          let (found, rest) ← options plain valued [] rest fuel
          return ((c, v) :: found, rest)
        | _, _ =>
          let (found, rest) ← options plain valued [] arguments fuel
          return ((c, String.ofList cs) :: found, rest)
      else Run.fail disk ("Illegal option -" ++ String.singleton c)

/-- Read options and arguments. -/
def read (plain valued : List Char) (arguments : List String) :
    Run m (List (Char × String) × List String) :=
  let size := arguments.foldl (fun n a => n + a.length + 1) 0
  options disk plain valued [] arguments (2 * size + 2)

/-- The number that an argument is. -/
def number (text : String) : Run m Nat := do
  match Numeral.ofDigits? text with
  | some n => if n < Nat.pow 2 31 then return n else Run.fail disk ("Illegal number: " ++ text)
  | none => Run.fail disk ("Illegal number: " ++ text)

/-- Refuse a text that cannot name a variable. -/
def requireName (name : String) : Run m Unit := do
  if !Expansion.isName name then Run.fail disk (name ++ ": bad variable name")

/-- The name and the value of an argument that sets a variable. -/
def assignment (argument : String) : String × Option String :=
  let cs := argument.toList
  let name := String.ofList (cs.takeWhile (· != '='))
  (name, (cs.dropWhile (· != '=')).tail?.map String.ofList)

/-- A text in quotes, so that a script can hold it. -/
def quoted (text : String) : String :=
  let rec go : List Char → List Char
    | [] => ['\'']
    | '\'' :: cs => ['\'', '"', '\'', '"', '\''] ++ go cs
    | c :: cs => c :: go cs
  String.ofList ('\'' :: go text.toList)

/-- Print variables in the order of their names. -/
def printVariables (lead : String) (isShown : Variable → Bool) : Run m Nat := do
  let vs := ((← Run.process).vars.filter isShown).mergeSort fun v w => !(w.name < v.name)
  print disk (String.join (vs.map fun v =>
    let value := match v.value with
      | some s => "=" ++ quoted s
      | none => ""
    lead ++ v.name ++ value ++ "\n"))

/-! ## Variables -/

/-- Mark variables, and set those with values. -/
def markVariables (mark : Variable → Variable) (arguments : List String) : Run m Nat := do
  for a in arguments do
    let (name, value) := assignment a
    requireName disk name
    match value with
    | some s => Run.assign disk name s
    | none => pure ()
    let v := (← Run.named? name).getD { name, value := none }
    Run.putVariable name (some (mark v))
  return 0

def exporting (arguments : List String) : Run m Nat := do
  let (asked, rest) ← read disk ['p'] [] arguments
  if rest.isEmpty || !asked.isEmpty then printVariables disk "export " (·.isExported)
  else markVariables disk (fun v => { v with isExported := true }) rest

def fixing (arguments : List String) : Run m Nat := do
  let (asked, rest) ← read disk ['p'] [] arguments
  if rest.isEmpty || !asked.isEmpty then printVariables disk "readonly " (·.isFixed)
  else markVariables disk (fun v => { v with isFixed := true }) rest

/-- Keep variables for the end of the function that runs. -/
def keepLocal (arguments : List String) : Run m Nat := do
  match (← Run.process).locals with
  | [] => Run.fail disk "not in a function"
  | _ :: _ =>
    for a in arguments do
      let (name, value) := assignment a
      let old ← Run.named? name
      Run.update fun p =>
        match p.locals with
        | [] => p
        | kept :: others => { p with locals := (kept ++ [(name, old)]) :: others }
      match value with
      | some s => requireName disk name; Run.assign disk name s
      | none => pure ()
    return 0

def unsetting (arguments : List String) : Run m Nat := do
  let (asked, rest) ← read disk ['v', 'f'] [] arguments
  for name in rest do
    if asked.getLast?.any (·.1 == 'f') then
      Run.update fun p => { p with functions := p.functions.filter fun f => f.1 != name }
    else
      requireName disk name
      if ((← Run.named? name).map (·.isFixed)).getD false then
        Run.fail disk (name ++ ": is read only")
      Run.putVariable name none
  return 0

/-- Read a line up to its end. A backslash quotes the next character, or joins the next line; `isRaw`
says that it does not. What is left follows, and whether the line has an end. -/
def line (isRaw : Bool) : List Char → List Glyph × List Char × Bool
  | [] => ([], [], false)
  | '\n' :: r => ([], r, true)
  | '\\' :: c :: r =>
    let (gs, rest, isWhole) := line isRaw (if isRaw then c :: r else r)
    if isRaw then (.char '\\' false :: gs, rest, isWhole)
    else if c == '\n' then (gs, rest, isWhole)
    else (.char c true :: gs, rest, isWhole)
  | c :: r =>
    let (gs, rest, isWhole) := line isRaw r
    if c == '\x00' || (c == '\\' && !isRaw) then (gs, rest, isWhole)
    else (.char c false :: gs, rest, isWhole)
termination_by cs => cs.length
decreasing_by
  · split
    · exact Nat.lt_succ_self _
    · exact Nat.lt_succ_of_lt (Nat.lt_succ_self _)
  · exact Nat.lt_succ_self _

/-- Read a line into variables. -/
def readLine (arguments : List String) : Run m Nat := do
  let (asked, names) ← read disk ['r'] ['p'] arguments
  if names.isEmpty then Run.fail disk "arg count"
  let cs := (← Run.rest? disk 0).getD []
  let (gs, rest, isWhole) := line (asked.any (·.1 == 'r')) cs
  Run.pass 0 (cs.length - rest.length) rest
  let fields := Field.ofLine (← Expansion.dividers) names.length gs
  for (name, i) in names.zipIdx do
    requireName disk name
    Run.assign disk name (String.ofList (Glyph.text (fields[i]?.getD [])))
  return if isWhole then 0 else 1

/-! ## The process -/

/-- The letters of options in the order in which they are shown, with their words. -/
def optionWords : List (Char × String) :=
  [('u', "nounset"), ('b', "notify"), ('a', "allexport"), ('C', "noclobber"), ('E', "emacs"),
    ('V', "vi"), ('v', "verbose"), ('x', "xtrace"), ('s', "stdin"), ('n', "noexec"), ('m', "monitor"),
    ('i', "interactive"), ('I', "ignoreeof"), ('f', "noglob"), ('e', "errexit")]

/-- Turn an option on or off. -/
def turn (letter : Char) (isOn : Bool) : Run m Unit := do
  if (optionWords.lookup letter).isNone then
    Run.fail disk ("Illegal option -" ++ String.singleton letter)
  Run.update fun p =>
    let chosen := fun (c : Char) => if c == letter then isOn else p.options.contains c
    { p with options := (optionWords.map Prod.fst).filter chosen }

/-- Turn options on or off; what is left, and whether it is to be the arguments even if there is
nothing. -/
def turnAll : List String → Nat → Run m (List String × Bool)
  | arguments, 0 => return (arguments, false)
  | [], _ + 1 => return ([], false)
  | a :: rest, fuel + 1 => do
    match a.toList with
    | ['-'] =>
      turn disk 'x' false
      turn disk 'v' false
      return (rest, false)
    | ['-', '-'] => return (rest, true)
    | '-' :: cs => letters true cs rest fuel
    | '+' :: cs => letters false cs rest fuel
    | _ => return (a :: rest, false)
where
  letters (isOn : Bool) (cs : List Char) (rest : List String) (fuel : Nat) :
      Run m (List String × Bool) := do
    let mut rest := rest
    for c in cs do
      if c == 'o' then
        match rest with
        | [] => pure ()
        | word :: others =>
          match optionWords.find? (·.2 == word) with
          | some (letter, _) => turn disk letter isOn
          | none => Run.fail disk ("Illegal option -o " ++ word)
          rest := others
      else turn disk c isOn
    turnAll rest fuel

def setting (arguments : List String) : Run m Nat := do
  match arguments with
  | [] => printVariables disk "" (·.value.isSome)
  | ["-o"] =>
    let on := (← Run.process).options
    print disk ("Current option settings\n" ++ String.join (optionWords.reverse.map fun (c, word) =>
      word ++ String.ofList (List.replicate (16 - word.length) ' ') ++
        (if on.contains c then "on\n" else "off\n")))
  | ["+o"] =>
    let on := (← Run.process).options
    print disk (String.join (optionWords.reverse.map fun (c, word) =>
      (if on.contains c then "set -o " else "set +o ") ++ word ++ "\n"))
  | _ =>
    let (rest, isReset) ← turnAll disk arguments (arguments.length + 1)
    if isReset || !rest.isEmpty then Run.update fun p => { p with arguments := rest }
    return 0

def shift (arguments : List String) : Run m Nat := do
  let n ← match arguments with
    | [] => pure 1
    | a :: _ => number disk a
  let given := (← Run.process).arguments
  if n > given.length then Run.fail disk "can't shift that many"
  Run.update fun p => { p with arguments := given.drop n }
  return 0

/-- A path without dots, which leads from the top. -/
def straight (path : String) : String :=
  let steps := (Path.pieces path.toList).foldl (fun (done : List (List Char)) step =>
    if step.isEmpty || step == ['.'] then done
    else if step == ['.', '.'] then done.drop 1
    else step :: done) []
  if steps.isEmpty then "/"
  else String.ofList (steps.reverse.flatMap fun step => '/' :: step)

def changeDirectory (arguments : List String) : Run m Nat := do
  let (_, rest) ← read disk ['L', 'P'] [] arguments
  let old := (← Run.process).directory
  let path ← match rest with
    | [] => Run.value "HOME"
    | "-" :: _ => Run.value "OLDPWD"
    | path :: _ => pure path
  let new := straight (Path.join old path)
  if (← Run.kindOf disk new) != some .directory then Run.fail disk ("can't cd to " ++ path)
  Run.update fun p => { p with directory := new }
  Run.assign disk "OLDPWD" old
  Run.assign disk "PWD" new
  if rest.head? = some "-" then print disk (new ++ "\n") else return 0

def mask (arguments : List String) : Run m Nat := do
  let (asked, rest) ← read disk ['S'] [] arguments
  let n := (← Run.process).mask
  match rest with
  | [] =>
    let shown := fun (c : Char) (shift : Nat) =>
      let bits := 7 - n / Nat.pow 8 shift % 8
      String.singleton c ++ "=" ++ (if bits / 4 % 2 = 1 then "r" else "") ++
        (if bits / 2 % 2 = 1 then "w" else "") ++ (if bits % 2 = 1 then "x" else "")
    if !asked.isEmpty then
      print disk (shown 'u' 2 ++ "," ++ shown 'g' 1 ++ "," ++ shown 'o' 0 ++ "\n")
    else
      let ds := Nat.toDigits 8 n
      print disk (String.ofList (List.replicate (4 - ds.length) '0' ++ ds) ++ "\n")
  | text :: _ =>
    match Text.ofDigits? 8 text.toList, text.toList.head?.any Char.isDigit with
    | some new, _ =>
      Run.update fun p => { p with mask := new }
      return 0
    | none, true => Run.fail disk ("Illegal number: " ++ text)
    | none, false => Run.fail disk ("Illegal mode: " ++ text)

/-! ## Jumps -/

def exiting (arguments : List String) : Run m Nat := do
  match arguments with
  | [] => throw (.ended none)
  | a :: _ => throw (.ended (some ((← number disk a) % 256)))

def returning (arguments : List String) : Run m Nat := do
  match arguments with
  | [] => pure ()
  | a :: _ => Run.setStatus (← number disk a)
  throw .back

/-- Leave loops, or go on with the next round of one. -/
def breaking (jump : Nat → Jump) (arguments : List String) : Run m Nat := do
  let n ← match arguments with
    | [] => pure 1
    | a :: _ =>
      let n ← number disk a
      if n = 0 then Run.fail disk ("Illegal number: " ++ a)
      pure n
  let n := min n (← Run.process).loops
  if n > 0 then
    Run.setStatus 0
    throw (jump n)
  return 0

/-! ## Signals -/

def trapping (arguments : List String) : Run m Nat := do
  let (_, rest) ← read disk [] [] arguments
  let (action, signals) := match rest with
    | [] => (none, [])
    | [a] => (none, [a])
    | a :: others =>
      if (Numeral.ofDigits? a).isSome then (none, rest)
      else if a == "-" then (none, others)
      else (some a, others)
  if rest.isEmpty then
    let traps := (← Run.process).traps.mergeSort fun a b => a.1 ≤ b.1
    return ← print disk (String.join (traps.map fun (n, text) =>
      "trap -- " ++ quoted text ++ " " ++ (Signal.name? n).getD (toString n) ++ "\n"))
  for s in signals do
    match Signal.ofText? s with
    | none =>
      let _ ← Run.write disk 2 ("trap: " ++ s ++ ": bad trap\n")
      return 1
    | some n =>
      Run.update fun p => { p with
        traps := (action.toList.map fun text => (n, text)) ++ p.traps.filter fun t => t.1 != n }
  return 0

/-- Send a signal to the process itself. -/
def signal (n : Nat) : Run m Unit := do
  match (← Run.process).traps.lookup n with
  | some "" => if n = 9 then throw (.killed 9)
  | some _ =>
    if n = 9 then throw (.killed 9)
    Run.update fun p => { p with pending := p.pending ++ [n] }
  | none => if Signal.isDeadly n then throw (.killed n)

def usage : String :=
  "Usage: kill [-s sigspec | -signum | -sigspec] [pid | job]... or\nkill -l [exitstatus]"

def killing (arguments : List String) : Run m Nat := do
  let unknown := fun (text : String) =>
    Run.fail disk ("invalid signal number or name: " ++ text)
  let (n, targets) ← match arguments with
    | [] => Run.fail disk usage
    | "-l" :: rest =>
      match rest with
      | [] => return ← print disk (String.join (("0" :: signalNames).map (· ++ "\n")))
      | a :: _ =>
        let n ← number disk a
        let name := if n = 0 then none else (Signal.name? n).or (Signal.name? (n - 128))
        match name with
        | some name => return ← print disk (name ++ "\n")
        | none => Run.fail disk ("invalid signal number or exit status: " ++ a)
    | "-s" :: name :: rest =>
      match Signal.ofText? name with
      | some n => pure (n, rest)
      | none => unknown name
    | "--" :: rest => pure (15, rest)
    | a :: rest =>
      match a.toList with
      | '-' :: c :: cs =>
        match Signal.ofText? (String.ofList (c :: cs)) with
        | some n => pure (n, rest)
        | none => Run.fail disk ("Illegal option -" ++ String.singleton c)
      | _ => pure (15, a :: rest)
  let targets := match targets with
    | "--" :: rest => rest
    | _ => targets
  if targets.isEmpty then Run.fail disk usage
  let mut status := 0
  for t in targets do
    let pid ← number disk t
    if pid = Expansion.processNumber then
      if n != 0 then signal n
    else
      Run.warn disk "No such process\n"
      status := 1
  return status

def waiting (arguments : List String) : Run m Nat := do
  let (_, rest) ← read disk [] [] arguments
  let mut status := 0
  for a in rest do
    if a.toList.head? = some '%' then Run.fail disk ("No such job: " ++ a)
    let pid ← number disk a
    status := ((← Run.process).jobs.lookup pid).getD 127
  return status

/-! ## Options of scripts -/

/-- Take the next option of a script's arguments. -/
def takeOption (arguments : List String) : Run m Nat := do
  match arguments with
  | letters :: name :: given =>
    let p ← Run.process
    let words := if given.isEmpty then p.arguments else given
    let index := ((Numeral.ofDigits? (← Run.value "OPTIND")).getD 1).max 1
    let before := (words[index - 2]?.map String.toList).getD []
    let isInside := index ≥ 2 && p.optionOffset > 0 && p.optionOffset < before.length
    let finish := fun (index offset : Nat) (answer : String) => do
      Run.assign disk "OPTIND" (toString index)
      Run.assign disk name answer
      Run.update fun p => { p with optionOffset := offset }
    let next : Option (Char × List Char × Nat × Nat) := do
      if isInside then
        let c ← before[p.optionOffset]?
        return (c, before.drop (p.optionOffset + 1), index, p.optionOffset + 1)
      match (← words[index - 1]?).toList with
      | ['-', '-'] => none
      | '-' :: c :: cs => return (c, cs, index + 1, 2)
      | _ => none
    match next with
    | none =>
      let isEnd := !isInside && words[index - 1]? == some "--"
      finish (if isEnd then index + 1 else index) 0 "?"
      return 1
    | some (c, cs, index, offset) =>
      let isQuiet := letters.toList.head? = some ':'
      let known := letters.toList.filter (· != ':')
      let wanted := String.singleton c
      let hasValue := (letters.toList.dropWhile (· != c)).drop 1 |>.head? |> (· == some ':')
      if c == ':' || !known.contains c then
        if isQuiet then Run.assign disk "OPTARG" wanted
        else
          let _ ← Run.write disk 2 ("Illegal option -" ++ wanted ++ "\n")
          Run.putVariable "OPTARG" none
        finish index (if cs.isEmpty then 0 else offset) "?"
      else if !hasValue then
        Run.assign disk "OPTARG" ""
        finish index (if cs.isEmpty then 0 else offset) wanted
      else if !cs.isEmpty then
        Run.assign disk "OPTARG" (String.ofList cs)
        finish index 0 wanted
      else
        match words[index - 1]? with
        | some v =>
          Run.assign disk "OPTARG" v
          finish (index + 1) 0 wanted
        | none =>
          if isQuiet then
            Run.assign disk "OPTARG" wanted
            finish index 0 ":"
          else
            let _ ← Run.write disk 2 ("No arg for -" ++ wanted ++ " option\n")
            Run.putVariable "OPTARG" none
            finish index 0 "?"
      return 0
  | _ => Run.fail disk "Usage: getopts optstring var [arg...]"

/-! ## Names of commands -/

def keywords : List String :=
  ["!", "\x7b", "\x7d", "case", "do", "done", "elif", "else", "esac", "fi", "for", "if", "in",
    "then", "until", "while"]

/-- Whether tools are found by their names alone. -/
def findsTools : Run m Bool := do
  let dirs := (← Run.value "PATH").splitOn ":"
  return dirs.any Fact.toolPlaces.contains

/-- What a name is to the shell: a description, and what names it in a script. -/
def meaning? (name : String) : Run m (Option (String × String)) := do
  let p ← Run.process
  if keywords.contains name then return some ("is a shell keyword", name)
  else if special.contains name then return some ("is a special shell builtin", name)
  else if (p.functions.lookup name).isSome then return some ("is a shell function", name)
  else if regular.contains name then return some ("is a shell builtin", name)
  else if name.toList.contains '/' then
    let isThere := (Fact.tool? name).isSome
    return if isThere then some ("is " ++ name, name) else none
  else if Fact.toolNames.contains name && (← findsTools) then
    return some ("is /usr/bin/" ++ name, "/usr/bin/" ++ name)
  else return none

/-- Say what names are. -/
def describe (names : List String) : Run m Nat := do
  let mut status := 0
  for name in names do
    match ← meaning? name with
    | some (text, _) =>
      let _ ← print disk (name ++ " " ++ text ++ "\n")
    | none =>
      let _ ← print disk (name ++ ": not found\n")
      status := 127
  return status

/-! ## All together -/

/-- Decide a condition. -/
def test (words : List String) : Run m Nat := do
  match ← (Condition.ofWords (Fact.answer disk) false words).run with
  | .ok holds => return if holds then 0 else 1
  | .error why => Run.fail disk why

/-- Print a filled format, which is kept back until its faults have been reported. -/
def printFormat (arguments : List String) : Run m Nat := do
  let (_, rest) ← read disk [] [] arguments
  match rest with
  | [] => Run.fail disk "usage: printf format [arg ...]"
  | format :: rest =>
    let printed := printf format rest
    for text in printed.reports do Run.warn disk text
    let status ← print disk printed.text
    return max status printed.status

/-- The command of a name, if there is one that runs no others. -/
def find? (name : String) (arguments : List String) : Option (Run m Nat) :=
  match name with
  | ":" => some (return 0)
  | "true" => some (return 0)
  | "false" => some (return 1)
  | "echo" => some (print disk (String.ofList (echo arguments)))
  | "printf" => some (printFormat disk arguments)
  | "test" => some (test disk arguments)
  | "[" =>
    some (if arguments.getLast? = some "]" then test disk arguments.dropLast
      else Run.fail disk "missing ]")
  | "cd" => some (changeDirectory disk arguments)
  | "pwd" => some do
    let _ ← read disk ['L', 'P'] [] arguments
    print disk ((← Run.process).directory ++ "\n")
  | "export" => some (exporting disk arguments)
  | "readonly" => some (fixing disk arguments)
  | "local" => some (keepLocal disk arguments)
  | "unset" => some (unsetting disk arguments)
  | "read" => some (readLine disk arguments)
  | "set" => some (setting disk arguments)
  | "shift" => some (shift disk arguments)
  | "umask" => some (mask disk arguments)
  | "exit" => some (exiting disk arguments)
  | "return" => some (returning disk arguments)
  | "break" => some (breaking disk .leave arguments)
  | "continue" => some (breaking disk .again arguments)
  | "trap" => some (trapping disk arguments)
  | "kill" => some (killing disk arguments)
  | "wait" => some (waiting disk arguments)
  | "getopts" => some (takeOption disk arguments)
  | "type" => some (describe disk arguments)
  | "times" => some (print disk "0m0.000000s 0m0.000000s\n0m0.000000s 0m0.000000s\n")
  | "hash" => some (return 0)
  | "alias" => some (return 0)
  | "unalias" => some (return 0)
  | "ulimit" => some (print disk "unlimited\n")
  | "jobs" => some (return 0)
  | "fg" => some (Run.fail disk "No current job")
  | "bg" => some (Run.fail disk "No current job")
  | _ => none

end RubyBinding.Shell.Builtin
