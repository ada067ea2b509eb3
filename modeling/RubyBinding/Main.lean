import RubyBinding.CommandLine
import RubyBinding.Header.Parsing
import RubyBinding.Shell

/-! The program: files on disk, arguments, standard output and exit status. -/

namespace RubyBinding

/-- The value of an action, if it does not fail. -/
def attempt {α : Type} (action : IO α) : IO (Option α) := do
  try return some (← action) catch _ => return none

/-- The file system as a place for commands. -/
def disk : Shell.Files IO where
  readText path := attempt (IO.FS.readFile path)
  makeDirs path := do
    if path.isEmpty then return true
    return (← attempt (IO.FS.createDirAll path)).isSome
  writeText path text := do return (← attempt (IO.FS.writeFile path text)).isSome
  kindOf path := do
    if (← attempt (IO.FS.realPath path)).isNone then return none
    let isDirectory := (← attempt (IO.FS.realPath (path ++ "/."))).isSome
    return some (if isDirectory then .directory else .file)
  entries _ := return []
  remove path := do
    let isRemoved := (← attempt (IO.FS.removeFile path)).isSome
    return isRemoved || (← attempt (IO.FS.removeDir path)).isSome
  workingDir := do return (← attempt IO.currentDir).elim "." toString

/-- The file system as a place to run in. -/
def machine : Host IO where
  readText := disk.readText
  makeDirs := disk.makeDirs
  writeText := disk.writeText
  runCommand := Shell.run disk
  divide := Header.parse

end RubyBinding

/-- Run the program on the disk. -/
def main (args : List String) : IO UInt32 := do
  let report ← RubyBinding.Command.run RubyBinding.machine args
  IO.print report.out
  IO.eprint report.err
  return report.status.toUInt32
