import RubyBinding.Shell.Options
import RubyBinding.Shell.Process
import RubyBinding.Shell.Tool.Quote

/-!
# What tools have in common

A tool reads streams and files, writes to its output, and ends with a status. Its reports begin with the
name that it was called by.
-/

namespace RubyBinding.Shell.Tool

variable {m : Type → Type} [Monad m]

/-- A tool as it was called. -/
structure Call (m : Type → Type) where
  disk : Files m
  name : String
  arguments : List String

variable (call : Call m)

/-- Report something; the status that it leads to. -/
def report (text : String) : Run m Nat := do
  let _ ← Run.write call.disk 2 (call.name ++ ": " ++ text ++ "\n")
  return 1

/-- Report that the arguments are not understood. -/
def refuse (text : String) : Run m Nat :=
  report call (text ++ "\nTry '" ++ call.name ++ " --help' for more information.")

/-- Write a text as output; the status. -/
def print (text : String) : Run m Nat := do
  if text.isEmpty then return 0
  if ← Run.write call.disk 1 text then return 0
  report call "write error: Bad file descriptor"

/-- Why there is nothing at a path: it may lead through a file. -/
def absence (path : String) : Run m String := do
  let steps := Path.pieces path.toList
  let fronts := (List.range steps.length).map fun n => ['/'].intercalate (steps.take n)
  let throughFile ← fronts.anyM fun front =>
    return (← Run.kindOf call.disk (String.ofList front)) == some .file
  return if throughFile then "Not a directory" else "No such file or directory"

/-- The bytes of the file at a path, or why they cannot be read. A hyphen stands for the input. -/
def contents (path : String) : Run m (Except String (List Char)) := do
  if path == "-" || path == "/dev/stdin" then
    match ← Run.readAll? call.disk 0 with
    | some cs => return .ok cs
    | none =>
      match ← Run.stream? 0 with
      | some .directory => return .error "Is a directory"
      | _ => return .error "Bad file descriptor"
  if path == "/dev/null" then return .ok []
  match ← Run.kindOf call.disk path with
  | some .directory => return .error "Is a directory"
  | _ =>
    match ← Run.readFile? call.disk path with
    | some text => return .ok text.toList
    | none => return .error (← absence call path)

/-- Options that every tool knows. -/
def general : List ToolOption := [⟨none, some "help", false⟩, ⟨none, some "version", false⟩]

/-- Run a tool with the options that it knows. -/
def withOptions (known : List ToolOption) (run : ToolOption.Given → Run m Nat) : Run m Nat := do
  match ToolOption.read (known ++ general) call.arguments with
  | .error fault => refuse call fault
  | .ok given =>
    if given.has "help" then print call ("Usage: " ++ call.name ++ " [OPTION]... [FILE]...\n")
    else if given.has "version" then print call (call.name ++ " 9.4\n")
    else run given

end RubyBinding.Shell.Tool
