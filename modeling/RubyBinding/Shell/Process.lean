import RubyBinding.Shell.Files
import RubyBinding.Path
import RubyBinding.Shell.Syntax
import RubyBinding.Text.Bytes

/-!
# Processes

A process runs commands. It has variables, functions and a current directory of its own, and numbered
streams. The streams behind the numbers are shared: what one process reads of a stream, another one
does not read again (`Machine`). Texts of streams are bytes.

A command that does not simply come to its end *jumps* (`Jump`).
-/

namespace RubyBinding.Shell

/-! ## State -/

structure Variable where
  name : String
  value : Option String
  isExported : Bool := false
  /-- Whether the value can no longer change. -/
  isFixed : Bool := false
  deriving Repr, Inhabited

/-- What text comes from or goes to. -/
inductive Stream where
  | nothing
  /-- A text that is still to be read. -/
  | source (rest : List Char)
  /-- What has been written, the last piece first. -/
  | sink (pieces : List String)
  /-- A file, and where in it is read and written next. -/
  | file (path : String) (position : Nat) (how : Opening)
  | directory
  deriving Inhabited

/-- Why a command does not come to its end. -/
inductive Jump where
  /-- Out of so many loops. -/
  | leave (loops : Nat)
  /-- To the next round of the last of so many loops. -/
  | again (loops : Nat)
  /-- To the end of a function or of a file of commands. -/
  | back
  /-- To the end of the process, with a status if one was asked for. -/
  | ended (status : Option Nat)
  /-- To the end of the process, or of the last command that bears a fault. -/
  | failed
  /-- By a signal that ends all processes. -/
  | killed (signal : Nat)
  /-- For want of fuel. -/
  | exhausted
  deriving DecidableEq, Repr

structure Process where
  name : String := "sh"
  arguments : List String := []
  vars : List Variable := []
  functions : List (String × Command) := []
  /-- The numbers of streams, each with a place in the machine. -/
  streams : List (Nat × Nat) := []
  status : Nat := 0
  /-- The letters of the options that are on. -/
  options : List Char := []
  /-- The current directory. -/
  directory : String := ""
  /-- Commands for signals. Signal 0 is the end of the process. -/
  traps : List (Nat × String) := []
  /-- Signals with traps that have not been run yet. -/
  pending : List Nat := []
  line : Nat := 1
  /-- The command that runs others, as reports name it. -/
  command : Option String := none
  /-- How many loops are running. -/
  loops : Nat := 0
  /-- For each running function, the variables that its end brings back. -/
  locals : List (List (String × Option Variable)) := []
  /-- The documents of redirections, by their numbers. -/
  documents : Array Word := #[]
  /-- The processes that ran in the background, with their statuses. -/
  jobs : List (Nat × Nat) := []
  mask : Nat := 0o022
  /-- The status of the last script whose output was put into the words of the current command. -/
  substituted : Nat := 0
  /-- How far into an argument `getopts` is. -/
  optionOffset : Nat := 0

structure Machine where
  process : Process := {}
  streams : Array Stream := #[]

/-- Running: in a process of a machine, until a jump. -/
abbrev Run (m : Type → Type) := ExceptT Jump (StateT Machine m)

namespace Run

variable {m : Type → Type} [Monad m]

/-- Something that is done with files. -/
def onFiles {α : Type} (action : m α) : Run m α := ExceptT.lift (StateT.lift action)

def process : Run m Process := do return (← get).process

def setProcess (p : Process) : Run m Unit := modify fun s => { s with process := p }

def update (f : Process → Process) : Run m Unit := modify fun s => { s with process := f s.process }

def status : Run m Nat := do return (← process).status

def setStatus (n : Nat) : Run m Unit := update fun p => { p with status := n }

def hasOption (letter : Char) : Run m Bool := do return (← process).options.contains letter

/-- The jump that an action ends with, if any. -/
def landing (action : Run m Unit) : Run m (Option Jump) :=
  tryCatch (do action; return none) fun jump => return some jump

/-- An action, and then another one, even if the first jumps. -/
def always (action after : Run m Unit) : Run m Unit := do
  let jump ← landing action
  after
  match jump with
  | some jump => throw jump
  | none => return

/-! ## Variables -/

def named? (name : String) : Run m (Option Variable) := do
  return (← process).vars.find? (·.name == name)

/-- The value of a variable, if it has one. -/
def value? (name : String) : Run m (Option String) := do
  return (← named? name).bind (·.value)

def value (name : String) : Run m String := do return (← value? name).getD ""

/-- Put a variable in the place of the one of its name, or bring back that there was none. -/
def putVariable (name : String) (v : Option Variable) : Run m Unit := update fun p =>
  let others := p.vars.filter fun w => !(w.name == name)
  { p with vars := v.toList ++ others }

/-! ## Streams -/

/-- The place of the stream with a number. -/
def place? (fd : Nat) : Run m (Option Nat) := do return (← process).streams.lookup fd

/-- The stream with a number. -/
def stream? (fd : Nat) : Run m (Option Stream) := do
  match ← place? fd with
  | some i => return (← get).streams[i]?
  | none => return none

def setStream (place : Nat) (s : Stream) : Run m Unit := modify fun w =>
  { w with streams := w.streams.set! place s }

/-- A place for a new stream. -/
def newPlace (s : Stream) : Run m Nat := modifyGet fun w =>
  (w.streams.size, { w with streams := w.streams.push s })

/-- Let a number be that of the stream at a place, or of none. -/
def connect (fd : Nat) (place : Option Nat) : Run m Unit := update fun p =>
  { p with streams := (place.toList.map fun i => (fd, i)) ++ p.streams.filter fun s => s.1 != fd }

/-- The bytes of a file. -/
def fileText (disk : Files m) (path : String) : Run m String := do
  return Text.toBytes ((← onFiles (disk.readText path)).getD "")

/-- Put bytes into the text of a file. -/
def overwrite (text : String) (position : Nat) (bytes : String) : String :=
  let cs := text.toList
  let gap := List.replicate (position - cs.length) '\x00'
  String.ofList (cs.take position ++ gap ++ bytes.toList ++ cs.drop (position + bytes.length))

/-- Write bytes to the stream with a number. False if there is none. -/
def write (disk : Files m) (fd : Nat) (bytes : String) : Run m Bool := do
  match ← place? fd with
  | none => return false
  | some i =>
    match (← get).streams[i]? with
    | some .nothing => return true
    | some (.sink pieces) =>
      setStream i (.sink (bytes :: pieces))
      return true
    | some (.file path position how) =>
      if how == .read then return false
      let text ← fileText disk path
      let start := if how == .append then text.length else position
      let _ ← onFiles (disk.writeText path (Text.ofBytesLossy (overwrite text start bytes)))
      setStream i (.file path (start + bytes.length) how)
      return true
    | _ => return false

/-- What is left to read of the stream with a number; none if it cannot be read. -/
def rest? (disk : Files m) (fd : Nat) : Run m (Option (List Char)) := do
  match ← stream? fd with
  | some .nothing => return some []
  | some (.source rest) => return some rest
  | some (.file path position how) =>
    if how != .read && how != .both then return none
    return some ((← fileText disk path).toList.drop position)
  | _ => return none

/-- Pass over bytes of the stream with a number, which leaves `rest` to read. -/
def pass (fd count : Nat) (rest : List Char) : Run m Unit := do
  match ← place? fd with
  | none => return
  | some i =>
    match (← get).streams[i]? with
    | some (.source _) => setStream i (.source rest)
    | some (.file path position how) => setStream i (.file path (position + count) how)
    | _ => return

/-- Read all that is left of the stream with a number. -/
def readAll? (disk : Files m) (fd : Nat) : Run m (Option (List Char)) := do
  match ← rest? disk fd with
  | none => return none
  | some cs =>
    pass fd cs.length []
    return some cs

/-- What has been written to the stream at a place. -/
def written (place : Nat) : Run m String := do
  match (← get).streams[place]? with
  | some (.sink pieces) => return String.join pieces.reverse
  | _ => return ""

/-! ## Reports -/

/-- Report something on the current line. -/
def warn (disk : Files m) (text : String) : Run m Unit := do
  let p ← process
  let command := match p.command with
    | some name => name ++ ": "
    | none => ""
  let _ ← write disk 2 (p.name ++ ": " ++ toString p.line ++ ": " ++ command ++ text ++ "\n")

/-- Report a fault, and jump. -/
def fail {α : Type} (disk : Files m) (text : String) : Run m α := do
  warn disk text
  setStatus 2
  throw .failed

/-- Give a variable a value. -/
def assign (disk : Files m) (name value : String) : Run m Unit := do
  let old := (← named? name).getD { name, value := none }
  if old.isFixed then fail disk (name ++ ": is read only")
  let isExported := old.isExported || (← hasOption 'a')
  putVariable name (some { old with value, isExported })
  if name == "OPTIND" then update fun p => { p with optionOffset := 0 }

/-! ## Paths -/

/-- A path in the current directory as `disk` knows it, which starts from `root`. -/
def placeOf (disk : Files m) (path : String) : Run m String := do
  let root ← onFiles disk.workingDir
  let whole := Text.ofBytesLossy (Path.join (← process).directory path)
  if path.isEmpty then return ""
  else if whole == root then return "."
  else
    match Text.after? (root ++ "/").toList whole.toList with
    | some rest =>
      let rest := rest.dropWhile (· == '/')
      return if rest.isEmpty then "." else String.ofList rest
    | none => return whole

/-- Directories that are there whatever `disk` says. -/
def standing : List String :=
  ["/", "/bin", "/dev", "/etc", "/home", "/root", "/tmp", "/usr", "/usr/bin", "/var"]

/-- What there is at a path. -/
def kindOf (disk : Files m) (path : String) : Run m (Option FileKind) := do
  match ← onFiles (disk.kindOf (← placeOf disk path)) with
  | some kind => return some kind
  | none => return if standing.contains path then some .directory else none

/-- The bytes of the file at a path. -/
def readFile? (disk : Files m) (path : String) : Run m (Option String) := do
  return (← onFiles (disk.readText (← placeOf disk path))).map Text.toBytes

end Run

end RubyBinding.Shell
