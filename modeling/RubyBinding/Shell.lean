import RubyBinding.Shell.Execution

/-!
# Running commands

One way to run commands: they are not handed to an operating system but run here, the shell `sh` with
its scripts and a few tools. Any other command cannot be started. A command has an empty input, and
what it prints is collected (`run`).
-/

namespace RubyBinding.Shell

/-- How deep the execution of a command may go. -/
def fuel : Nat := 1000000

/-- The variables that a command starts with. -/
def initialVariables (directory : String) : List Variable :=
  let exported := fun (name value : String) =>
    ({ name, value := some value, isExported := true } : Variable)
  let own := fun (name value : String) => ({ name, value := some value } : Variable)
  [exported "PATH" "/usr/local/sbin:/usr/local/bin:/usr/sbin:/usr/bin:/sbin:/bin",
    exported "HOME" "/root", exported "PWD" directory, own "IFS" " \t\n", own "OPTIND" "1",
    own "PS1" "# ", own "PS2" "> ", own "PS4" "+ ", own "PPID" "1"]

variable {m : Type → Type} [Monad m] (disk : Files m)

/-- Run what a command names. False if there is no such command. -/
def start (name : String) (arguments : List String) : Run m Bool := do
  match ← Execution.findTool disk name with
  | .error _ => return false
  | .ok "sh" =>
    Execution.inProcess id (Execution.farewell disk fuel)
      (Execution.program disk arguments fuel)
    return true
  | .ok _ =>
    Execution.external disk name arguments fuel
    return true

/-- Run a command. None if there is no such command. -/
@[nospecialize]
def run (name : String) (arguments : List String) : m (Option Outcome) := do
  if (name :: arguments).any fun s => s.toList.contains '\x00' then return none
  let directory := Text.toBytes (← disk.workingDir)
  let process : Process := {
    name := Text.toBytes name
    vars := initialVariables directory
    streams := [(0, 0), (1, 1), (2, 2)]
    line := 0
    directory }
  let machine : Machine := { process, streams := #[.nothing, .sink [], .sink []] }
  let action := start disk (Text.toBytes name) (arguments.map Text.toBytes)
  let (result, last) ← (action.run.run machine : m _)
  let printed := fun (place : Nat) => match last.streams[place]? with
    | some (.sink pieces) => String.join pieces.reverse
    | _ => ""
  let ending := match result with
    | .error (.killed n) => .killed n
    | _ => .exited (last.process.status % 256)
  match result with
  | .ok false => return none
  | _ => return some { ending, out := printed 1, err := printed 2 }

end RubyBinding.Shell
