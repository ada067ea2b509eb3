import RubyBinding.Shell.Builtin
import RubyBinding.Shell.Script
import RubyBinding.Shell.Tool

/-!
# Execution

Commands are executed by going through them (`execute`). A simple command has its words expanded first;
then its redirections are made, its variables set, and what its first word names is run: a command of
the shell, a function or a tool (`perform`). What runs in a process of its own leaves nothing of it but
its status (`inProcess`).

`fuel` bounds the depth of the execution, in which each round of a loop counts.
-/

namespace RubyBinding.Shell.Execution

variable {m : Type → Type} [Monad m]

/-! ## Redirections -/

/-- A redirection whose word has been expanded. -/
inductive Link where
  | file (fd : Nat) (how : Opening) (path : String)
  /-- Like the stream with a number, or none. -/
  | copy (fd : Nat) (source : Option Nat)
  | text (fd : Nat) (text : String)

/-- Expand the word of a redirection. -/
def link (s : Expansion.Setting m) : Redirect → Run m Link
  | .file fd how path => do return .file fd how (← Expansion.text s path)
  | .copy fd source => do
    let text ← Expansion.text s source
    if text == "-" then return .copy fd none
    match Numeral.ofDigits? text, text.length with
    | some n, 1 => return .copy fd (some n)
    | _, _ => Run.fail s.disk "Syntax error: Bad fd number"
  | .document fd n => do
    let w := ((← Run.process).documents[n]?).getD []
    return .text fd (← Expansion.text s w)

/-- The stream that a path stands for, if it is that of a device. -/
def device? (path : String) : Run m (Option (Option Nat)) := do
  match path with
  | "/dev/null" => return some (some (← Run.newPlace .nothing))
  | "/dev/stdin" => return some (← Run.place? 0)
  | "/dev/stdout" => return some (← Run.place? 1)
  | "/dev/stderr" => return some (← Run.place? 2)
  | _ =>
    match (Text.after? "/dev/fd/".toList path.toList).bind fun ds =>
        Numeral.ofDigits? (String.ofList ds) with
    | some n => return some (← Run.place? n)
    | none => return none

/-- Open the file at a path as a stream with a number. -/
def openFile (disk : Files m) (fd : Nat) (how : Opening) (path : String) : Run m Unit := do
  match ← device? path with
  | some place => Run.connect fd place
  | none =>
    let place ← Run.placeOf disk path
    let kind ← Run.kindOf disk path
    let put := fun (s : Stream) => do Run.connect fd (some (← Run.newPlace s))
    let create := fun (how : Opening) => do
      if ← Run.onFiles (disk.writeText place "") then put (.file place 0 how)
      else Run.fail disk ("cannot create " ++ path ++ ": Directory nonexistent")
    match how, kind with
    | .read, none => Run.fail disk ("cannot open " ++ path ++ ": No such file")
    | .read, some .directory => put .directory
    | .read, some .file => put (.file place 0 .read)
    | _, some .directory =>
      let verb := if how = .write && (← Run.hasOption 'C') then "open" else "create"
      Run.fail disk ("cannot " ++ verb ++ " " ++ path ++ ": Is a directory")
    | .write, some .file =>
      if ← Run.hasOption 'C' then Run.fail disk ("cannot create " ++ path ++ ": File exists")
      create .write
    | .write, none => create .write
    | .replace, _ => create .write
    | .append, none => create .append
    | .append, some .file => put (.file place 0 .append)
    | .both, none => create .both
    | .both, some .file => put (.file place 0 .both)

/-- Make a redirection. -/
def connect (disk : Files m) : Link → Run m Unit
  | .file fd how path => openFile disk fd how path
  | .text fd text => do Run.connect fd (some (← Run.newPlace (.source text.toList)))
  | .copy fd none => Run.connect fd none
  | .copy fd (some n) => do
    match ← Run.place? n with
    | some place => Run.connect fd (some place)
    | none => Run.fail disk (toString n ++ ": Bad file descriptor")

/-- Make redirections. False, with a status that says so, if one cannot be made. -/
def connectAll (disk : Files m) (links : List Link) : Run m Bool := do
  match ← Run.landing (links.forM (connect disk)) with
  | none => return true
  | some .failed => return false
  | some jump => throw jump

/-- An action after which the streams are what they were. -/
def withStreams (action : Run m Unit) : Run m Unit := do
  let streams := (← Run.process).streams
  Run.always action (Run.update fun p => { p with streams })

/-! ## Processes -/

/-- The letters of the variables that are brought back at the end of a function or a command. -/
def bringBack (kept : List (String × Option Variable)) : Run m Unit :=
  kept.reverse.forM fun (name, v) => Run.putVariable name v

/-- An action in which variables can be kept, which are brought back after it. -/
def withLocals (action : Run m Unit) : Run m Unit := do
  Run.update fun p => { p with locals := [] :: p.locals }
  Run.always action do
    let kept := (← Run.process).locals.headD []
    bringBack kept
    Run.update fun p => { p with locals := p.locals.tail }

/-- Run an action in a process of its own, which is like the present one but for `prepare`. `finish` is
what the process does at its end. Of signals, only those to the process alone end it. -/
def inProcess (prepare : Process → Process) (finish action : Run m Unit) : Run m Unit := do
  let outer ← Run.process
  Run.setProcess (prepare { outer with
    loops := 0, pending := [], traps := outer.traps.filter fun t => t.2.isEmpty })
  let jump ← Run.landing action
  match jump with
  | some (.ended (some n)) => Run.setStatus n
  | _ => pure ()
  match jump with
  | some (.killed n) =>
    Run.setProcess outer
    throw (.killed n)
  | some .exhausted =>
    Run.setProcess outer
    throw .exhausted
  | _ => finish
  let status ← Run.status
  Run.setProcess { outer with status }

/-! ## Names -/

/-- What a command is when its words have been expanded. -/
inductive Target where
  /-- No command, only variables and redirections. -/
  | nothing
  | special (name : String)
  | function (body : Command)
  | regular (name : String)
  /-- A tool, or a command that cannot be found. -/
  | tool

/-- What the name of a command stands for. Functions are left out if `isPlain` says so. -/
def target (isPlain : Bool) (name : String) : Run m Target := do
  let found := (← Run.process).functions.lookup name
  match found.filter fun _ => !isPlain with
  | some body => return if Builtin.special.contains name then .special name else .function body
  | none =>
    if Builtin.special.contains name then return .special name
    else if Builtin.regular.contains name then return .regular name
    else return .tool

/-- Commands whose arguments may set variables. -/
def setsVariables (name : String) : Bool :=
  name == "export" || name == "readonly" || name == "local" || name == "alias"

/-- A tool as it was found: its name, or the status and the report for a command that was not. -/
def findTool (disk : Files m) (name : String) : Run m (Except (Nat × String) String) := do
  let missing := .error (127, name ++ ": not found")
  if name.isEmpty then return .error (127, ": Permission denied")
  else if name.toList.contains '/' then
    match Fact.tool? name, ← Run.kindOf disk name with
    | some tool, _ => return .ok tool
    | none, some _ => return .error (126, name ++ ": Permission denied")
    | none, none => return missing
  else if Fact.toolNames.contains name && (← Builtin.findsTools) then return .ok name
  else return missing

/-- The path of a file of commands. A name without slashes is looked for where tools are. -/
def scriptPath (disk : Files m) (name : String) : Run m String := do
  if name.toList.contains '/' then return name
  let paths := ((← Run.value "PATH").splitOn ":").map fun dir => Path.join dir name
  match ← paths.findM? fun path => return (← Run.kindOf disk path) = some .file with
  | some path => return path
  | none => Run.fail disk (name ++ ": not found")

/-- The report of a process that a signal has ended. -/
def obituary (signal : Nat) : String :=
  match signal with
  | 1 => "Hangup"
  | 3 => "Quit"
  | 6 => "Aborted"
  | 9 => "Killed"
  | 14 => "Alarm clock"
  | 15 => "Terminated"
  | n => "Signal " ++ toString n

/-- The options of `sh` in front of a script: whether a script is among the arguments, and what is
left. `fuel` bounds the number of arguments. -/
def shellOptions (disk : Files m) (hasScript : Bool) : List String → Nat → Run m (Bool × List String)
  | arguments, 0 => return (hasScript, arguments)
  | [], _ + 1 => return (hasScript, [])
  | a :: rest, fuel + 1 => do
    match a.toList with
    | ['-'] => return (hasScript, rest)
    | ['-', '-'] => return (hasScript, rest)
    | '-' :: cs =>
      for c in cs do
        if c != 'c' && c != 'l' && c != 'o' then Builtin.turn disk c true
      let asksScript := hasScript || cs.contains 'c'
      match cs.contains 'o', rest with
      | true, word :: rest =>
        match Builtin.optionWords.find? (·.2 == word) with
        | some (letter, _) => Builtin.turn disk letter true
        | none => Run.fail disk ("Illegal option -o " ++ word)
        shellOptions disk asksScript rest fuel
      | _, _ => shellOptions disk asksScript rest fuel
    | '+' :: cs =>
      for c in cs do Builtin.turn disk c false
      shellOptions disk hasScript rest fuel
    | _ => return (hasScript, a :: rest)

/-! ## Commands -/

section

variable (disk : Files m)

/-- The status of the process, if an option says that it ends when a command has failed. -/
def check (isTested : Bool) : Run m Unit := do
  if !isTested && (← Run.status) != 0 && (← Run.hasOption 'e') then throw (.ended none)

/-- A round of a loop. Whether another one may follow. -/
def round (action : Run m Unit) : Run m Bool := do
  match ← Run.landing action with
  | none => return true
  | some (.leave n) => if n ≤ 1 then return false else throw (.leave (n - 1))
  | some (.again n) => if n ≤ 1 then return true else throw (.again (n - 1))
  | some jump => throw jump

/-- An action in a loop. -/
def inLoop (action : Run m Unit) : Run m Unit := do
  Run.update fun p => { p with loops := p.loops + 1 }
  Run.always action (Run.update fun p => { p with loops := p.loops - 1 })

/-- Show a command before it is run, where errors went before its redirections. -/
def trace (streams : List (Nat × Nat)) (assigned : List (String × String)) (words : List String) :
    Run m Unit := do
  if !(← Run.hasOption 'x') then return
  let shown := assigned.map (fun (name, value) => name ++ "=" ++ value) ++ words
  let now := (← Run.process).streams
  Run.update fun p => { p with streams }
  let mark ← Run.value "PS4"
  let _ ← Run.write disk 2 (mark ++ String.intercalate " " shown ++ "\n")
  Run.update fun p => { p with streams := now }

/-- How words are expanded where `run` gives what a script prints. -/
def setting (run : Option Command → Run m (List Char)) : Expansion.Setting m :=
  { disk, run, isFull := true }

mutual

/-- What a script prints, without the line ends behind it. -/
def output (script : Option Command) : Nat → Run m (List Char)
  | 0 => throw .exhausted
  | fuel + 1 => do
    let place ← Run.newPlace (.sink [])
    let before ← Run.status
    subshell (fun p => { p with streams := (1, place) :: p.streams.filter fun s => s.1 != 1 })
      (script.forM fun c => execute false c fuel) fuel
    let status ← Run.status
    Run.update fun p => { p with substituted := status, status := before }
    let text := (← Run.written place).toList.filter (· != '\x00')
    return Text.dropEndWhile (· == '\n') text
termination_by structural x => x

/-- Run an action in a process of its own that is a shell. -/
def subshell (prepare : Process → Process) (action : Run m Unit) : Nat → Run m Unit
  | 0 => throw .exhausted
  | fuel + 1 => inProcess prepare (farewell fuel) action
termination_by structural x => x

/-- What a shell does at its end: the commands of its trap for that. -/
def farewell : Nat → Run m Unit
  | 0 => throw .exhausted
  | fuel + 1 => do
    match (← Run.process).traps.lookup 0 with
    | none => return
    | some text =>
      let status ← Run.status
      Run.update fun p => { p with
        traps := p.traps.filter fun t => t.1 != 0
        loops := 0 }
      match ← Run.landing (evaluate 1 text fuel) with
      | some (.ended (some n)) => Run.setStatus n
      | some (.killed n) => throw (.killed n)
      | some .exhausted => throw .exhausted
      | _ => Run.setStatus status
termination_by structural x => x

/-- Run the commands of traps whose signals have come. -/
def answerSignals : Nat → Run m Unit
  | 0 => throw .exhausted
  | fuel + 1 => do
    match (← Run.process).pending with
    | [] => return
    | n :: others =>
      Run.update fun p => { p with pending := others }
      let status ← Run.status
      evaluate 1 (((← Run.process).traps.lookup n).getD "") fuel
      Run.setStatus status
      answerSignals fuel
termination_by structural x => x

/-- Run the commands of a text. -/
def evaluate (line : Nat) (text : String) : Nat → Run m Unit
  | 0 => throw .exhausted
  | fuel + 1 => do
    let isEmpty ← lines false { rest := text.toList, line } true fuel
    if isEmpty then Run.setStatus 0
termination_by structural x => x

/-- Run the lines of a script. Whether there was no command in them. -/
def lines (isTested : Bool) (c : Cursor) (sofar : Bool) : Nat → Run m Bool
  | 0 => throw .exhausted
  | fuel + 1 => do
    let first := (← Run.process).documents.size
    match Cursor.line? { c with firstDocument := first, documents := #[] } with
    | .error fault =>
      Run.update fun p => { p with line := fault.line }
      Run.fail disk fault.text
    | .ok none => return sofar
    | .ok (some (found, next)) =>
      Run.update fun p => { p with documents := p.documents ++ next.documents }
      match found with
      | none => lines isTested next sofar fuel
      | some command =>
        execute isTested command fuel
        lines isTested next false fuel
termination_by structural x => x

/-- Execute a command. `isTested` says that something is made of its failure. -/
def execute (isTested : Bool) (c : Command) : Nat → Run m Unit
  | 0 => throw .exhausted
  | fuel + 1 => do
    if ← Run.hasOption 'n' then return
    answerSignals fuel
    match c with
    | .simple line assignments words redirects =>
      simple isTested line assignments words redirects fuel
      answerSignals fuel
      check isTested
    | .redirected line body redirects =>
      Run.update fun p => { p with line }
      let links ← redirects.mapM (link (setting disk fun c => output c fuel))
      withStreams do
        if ← connectAll disk links then execute isTested body fuel else check isTested
    | .subshell line body =>
      Run.update fun p => { p with line }
      subshell id (execute isTested body fuel) fuel
      check isTested
    | .both first second =>
      execute isTested first fuel
      execute isTested second fuel
    | .also first second =>
      execute true first fuel
      if (← Run.status) = 0 then execute isTested second fuel
    | .orElse first second =>
      execute true first fuel
      if (← Run.status) != 0 then execute isTested second fuel
    | .negated body =>
      execute true body fuel
      Run.setStatus (if (← Run.status) = 0 then 1 else 0)
    | .pipe commands =>
      let place ← Run.newPlace .nothing
      pipe isTested (← Run.status) (← Run.place? 0) place commands fuel
      check isTested
    | .background line body =>
      Run.update fun p => { p with line }
      let input ← Run.newPlace .nothing
      subshell (fun p => { p with streams := (0, input) :: p.streams.filter fun s => s.1 != 0 })
        (execute false body fuel) fuel
      let status ← Run.status
      Run.update fun p => { p with
        status := 0
        jobs := (Expansion.processNumber + 1 + p.jobs.length, status) :: p.jobs }
    | .branch test body otherwise =>
      execute true test fuel
      if (← Run.status) = 0 then execute isTested body fuel
      else
        match otherwise with
        | some c => execute isTested c fuel
        | none => Run.setStatus 0
    | .loop isUntil test body => inLoop (loop isTested isUntil test body 0 fuel)
    | .each line name words body =>
      Run.update fun p => { p with line }
      let found ← words.mapM (Expansion.fields (setting disk fun c => output c fuel))
      if found.flatten.isEmpty then Run.setStatus 0
      inLoop (each isTested name body found.flatten fuel)
    | .select line word arms =>
      Run.update fun p => { p with line }
      let text ← Expansion.text (setting disk fun c => output c fuel) word
      select isTested text.toList arms fuel
    | .define name body =>
      Run.update fun p => { p with
        functions := (name, body) :: p.functions.filter fun f => f.1 != name }
      Run.setStatus 0
termination_by structural x => x

/-- Run commands each of which reads what the one before it prints. Each starts with the status that
there was before all of them. -/
def pipe (isTested : Bool) (status : Nat) (input : Option Nat) (place : Nat) :
    List Command → Nat → Run m Unit
  | _, 0 => throw .exhausted
  | [], _ + 1 => return
  | c :: cs, fuel + 1 => do
    let output ← if cs.isEmpty then Run.place? 1 else pure (some (← Run.newPlace (.sink [])))
    let give := fun (fd : Nat) (place : Option Nat) (streams : List (Nat × Nat)) =>
      (place.toList.map fun i => (fd, i)) ++ streams.filter fun s => s.1 != fd
    subshell (fun p => { p with status, streams := give 0 input (give 1 output p.streams) })
      (execute isTested c fuel) fuel
    if cs.isEmpty then return
    let text ← Run.written (output.getD place)
    pipe isTested status (some (← Run.newPlace (.source text.toList))) place cs fuel
termination_by structural _ x => x

/-- Run the rounds of a loop. `status` is that of the last round. -/
def loop (isTested isUntil : Bool) (test body : Command) (status : Nat) : Nat → Run m Unit
  | 0 => throw .exhausted
  | fuel + 1 => do
    let mayTest ← round (execute true test fuel)
    if !mayTest then
      Run.setStatus status
      return
    if ((← Run.status) = 0) = isUntil then
      Run.setStatus status
      return
    if ← round (execute isTested body fuel) then
      loop isTested isUntil test body (← Run.status) fuel
termination_by structural x => x

/-- Run a command for each of some values. -/
def each (isTested : Bool) (name : String) (body : Command) : List String → Nat → Run m Unit
  | _, 0 => throw .exhausted
  | [], _ + 1 => return
  | value :: values, fuel + 1 => do
    Run.assign disk name value
    if ← round (execute isTested body fuel) then each isTested name body values fuel
termination_by structural _ x => x

/-- Run the commands of the first arm with a pattern that matches a text. -/
def select (isTested : Bool) (text : List Char) :
    List (List Word × Option Command) → Nat → Run m Unit
  | _, 0 => throw .exhausted
  | [], _ + 1 => Run.setStatus 0
  | (patterns, body) :: arms, fuel + 1 => do
    let isFound ← patterns.foldlM (fun isFound w => do
      if isFound then return true
      return Pattern.accepts (← Expansion.pattern (setting disk fun c => output c fuel) w) text) false
    if !isFound then select isTested text arms fuel
    else
      match body with
      | some c => execute isTested c fuel
      | none => Run.setStatus 0
termination_by structural _ x => x

/-- Expand words up to the first one that becomes an argument. -/
def leading : List Word → Nat → Run m (List String × List Word)
  | ws, 0 => return ([], ws)
  | [], _ + 1 => return ([], [])
  | w :: ws, fuel + 1 => do
    match ← Expansion.fields (setting disk fun c => output c fuel) w with
    | [] => leading ws fuel
    | found => return (found, ws)
termination_by structural _ x => x

/-- Take the word off that says how the name of a command is looked up, and its options. What is left,
and whether functions are looked up; none if the word is a command itself. -/
def unprefixed (arguments : List String) : Run m (Option (List String)) := do
  match arguments with
  | "command" :: rest =>
    match rest with
    | [] => return none
    | a :: others =>
      match a.toList with
      | ['-', '-'] => return if others.isEmpty then none else some others
      | ['-', 'p'] => return if others.isEmpty then none else some others
      | '-' :: _ :: _ => return none
      | _ => return some rest
  | _ => return none

/-- Execute a simple command. -/
def simple (isTested : Bool) (line : Nat) (assignments : List (String × Word)) (words : List Word)
    (redirects : List Redirect) : Nat → Run m Unit
  | 0 => throw .exhausted
  | fuel + 1 => do
    Run.update fun p => { p with line, substituted := 0 }
    let s := setting disk fun c => output c fuel
    let (front, rest) ← leading words fuel
    let name := front.headD ""
    let kind ← if front.isEmpty then pure .nothing else target false name
    let more ← rest.mapM fun w => do
      match (if setsVariables name then Scan.assignment? w else none) with
      | some (x, value) => return [x ++ "=" ++ (← Expansion.valueText s value)]
      | none => Expansion.fields s w
    let arguments := front ++ more.flatten
    let links ← redirects.mapM (link s)
    let streams := (← Run.process).streams
    let keeps := name == "exec" && arguments.length = 1
    let isSpecial := match kind with
      | .special _ => true
      | _ => false
    let run : Run m Unit := do
      if ← connectAll disk links then
        let isLasting := isSpecial || front.isEmpty
        let body : Run m Unit := do
          let assigned ← assignments.mapM fun (x, w) => do
            let value ← Expansion.valueText s w
            let old ← Run.named? x
            if !isLasting then
              Run.update fun p =>
                match p.locals with
                | [] => p
                | kept :: others => { p with locals := (kept ++ [(x, old)]) :: others }
            Run.assign disk x value
            if !isLasting || (name == "exec" && !keeps) then
              Run.update fun p => { p with vars := p.vars.map fun v =>
                if v.name == x then { v with isExported := true } else v }
            return (x, value)
          trace disk streams assigned arguments
          if front.isEmpty then Run.setStatus (← Run.process).substituted
          else perform isTested kind isSpecial arguments fuel
        if isLasting then body else withLocals body
      else if isSpecial then throw .failed
    if keeps then run else withStreams run
termination_by structural x => x

/-- Run what a command is. `isSpecial` says that its faults end the process. -/
def perform (isTested : Bool) (kind : Target) (isSpecial : Bool) (arguments : List String) :
    Nat → Run m Unit
  | 0 => throw .exhausted
  | fuel + 1 => do
    let name := arguments.headD ""
    let rest := arguments.tail
    match kind with
    | .nothing => return
    | .function body =>
      let outer ← Run.process
      Run.update fun p => { p with arguments := rest, loops := 0 }
      Run.always
        (withLocals do
          match ← Run.landing (execute isTested body fuel) with
          | none => return
          | some .back => return
          | some jump => throw jump)
        (Run.update fun p => { p with arguments := outer.arguments, loops := outer.loops })
    | .tool => external name rest fuel
    | _ =>
      match ← unprefixed arguments with
      | some rest =>
        let kind ← target true (rest.headD "")
        perform isTested kind false rest fuel
      | none =>
        let outer := (← Run.process).command
        Run.update fun p => { p with command := some name }
        let jump ← Run.landing (shellCommand isTested name rest fuel)
        Run.update fun p => { p with command := outer }
        match jump with
        | none => return
        | some .failed => if isSpecial then throw .failed
        | some jump => throw jump
termination_by structural x => x

/-- Run a command of the shell itself. -/
def shellCommand (isTested : Bool) (name : String) (arguments : List String) : Nat → Run m Unit
  | 0 => throw .exhausted
  | fuel + 1 => do
    match name with
    | "eval" =>
      let text := String.intercalate " " arguments
      let isEmpty ← lines isTested { rest := text.toList } true fuel
      if isEmpty then Run.setStatus 0
    | "." =>
      match arguments with
      | [] => Run.setStatus 0
      | name :: _ =>
        let path ← scriptPath disk name
        match ← Run.readFile? disk path with
        | none => Run.fail disk ("cannot open " ++ path ++ ": No such file")
        | some text =>
          Run.update fun p => { p with command := some path }
          match ← Run.landing (do
              let isEmpty ← lines isTested { rest := text.toList } true fuel
              if isEmpty then Run.setStatus 0) with
          | none => return
          | some .back => return
          | some jump => throw jump
    | "exec" =>
      match arguments with
      | [] => Run.setStatus 0
      | name :: rest =>
        match ← findTool disk name with
        | .error (status, report) =>
          Run.warn disk report
          throw (.ended (some status))
        | .ok _ =>
          Run.update fun p => { p with traps := [] }
          external name rest fuel
          throw (.ended none)
    | "command" =>
      let (asked, rest) ← Builtin.read disk ['p', 'v', 'V'] [] arguments
      let name := rest.headD ""
      if rest.isEmpty then Run.setStatus 0
      else if asked.any fun o => o.1 == 'V' then Run.setStatus (← Builtin.describe disk [name])
      else
        match ← Builtin.meaning? name with
        | none => Run.setStatus 127
        | some (_, text) => Run.setStatus (← Builtin.print disk (text ++ "\n"))
    | _ =>
      match Builtin.find? disk name arguments with
      | some action => Run.setStatus (← action)
      | none => Run.setStatus 0
termination_by structural x => x

/-- Run a tool in a process of its own. -/
def external (name : String) (arguments : List String) : Nat → Run m Unit
  | 0 => throw .exhausted
  | fuel + 1 => do
    match ← findTool disk name with
    | .error (status, report) =>
      Run.warn disk report
      Run.setStatus status
    | .ok "sh" =>
      let shell := inProcess
        (fun p => { p with
          name, arguments := []
          vars := p.vars.filter (·.isExported)
          functions := [], options := [], line := 0, command := none, locals := [], jobs := []
          status := 0 })
        (farewell fuel) (program arguments fuel)
      match ← Run.landing shell with
      | none => return
      | some (.killed n) =>
        let _ ← Run.write disk 2 (obituary n ++ "\n")
        Run.setStatus (128 + n)
      | some jump => throw jump
    | .ok "env" => environment name arguments fuel
    | .ok tool =>
      match Tool.run? { disk, name, arguments } tool with
      | some action => Run.setStatus (← action)
      | none => return
termination_by structural x => x

/-- Run a command with more variables, or print the variables. -/
def environment (name : String) (arguments : List String) : Nat → Run m Unit
  | 0 => throw .exhausted
  | fuel + 1 => do
    match arguments with
    | [] =>
      let vs := (← Run.process).vars.filter (·.isExported)
      let text := String.join (vs.map fun v => v.name ++ "=" ++ v.value.getD "" ++ "\n")
      Run.setStatus (← Tool.print { disk, name, arguments } text)
    | a :: rest =>
      let (x, value) := Builtin.assignment a
      match a, value with
      | "-i", _ =>
        inProcess (fun p => { p with vars := p.vars.filter fun v => v.name == "PATH" })
          (return) (environment name rest fuel)
      | _, some v =>
        inProcess (fun p => { p with
            vars := { name := x, value := some v, isExported := true } ::
              p.vars.filter fun w => w.name != x })
          (return) (environment name rest fuel)
      | _, none =>
        match ← findTool disk a with
        | .ok _ => external a rest fuel
        | .error (status, _) =>
          let _ ← Tool.report { disk, name, arguments } ("'" ++ a ++ "': No such file or directory")
          Run.setStatus status
termination_by structural x => x

/-- Run `sh` with its arguments, in the present process. -/
def program (arguments : List String) : Nat → Run m Unit
  | 0 => throw .exhausted
  | fuel + 1 => do
    let (hasScript, rest) ← shellOptions disk false arguments (arguments.length + 1)
    let begin := fun (name : Option String) (given : List String) =>
      Run.update fun p => { p with
        name := name.getD p.name, arguments := given, line := 1 }
    let script := fun (text : String) => do
      match ← Run.landing (do
          let isEmpty ← lines false { rest := text.toList } true fuel
          if isEmpty then Run.setStatus 0) with
      | none => return
      | some .back => return
      | some jump => throw jump
    match hasScript, rest with
    | true, [] => Run.fail disk "-c requires an argument"
    | true, text :: given =>
      begin given.head? given.tail
      script text
    | false, path :: given =>
      if (← Run.hasOption 's') then
        begin none rest
        script (String.ofList ((← Run.readAll? disk 0).getD []))
      else
        match ← Run.kindOf disk path with
        | some .directory => Run.setStatus 0
        | some .file =>
          let text := (← Run.readFile? disk path).getD ""
          begin (some path) given
          script text
        | none => Run.fail disk ("cannot open " ++ path ++ ": No such file")
    | false, [] =>
      begin none []
      script (String.ofList ((← Run.readAll? disk 0).getD []))
termination_by structural x => x

end

end

end RubyBinding.Shell.Execution
