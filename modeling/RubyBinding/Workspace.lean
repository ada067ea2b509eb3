import RubyBinding.Header.Parsing
import RubyBinding.Host
import RubyBinding.Path
import RubyBinding.Shell

/-!
# Workspaces

A workspace is a directory tree that is a value: the files in it, and the directories. Paths are
followed component by component, so a path through something that is no directory leads nowhere,
and so does a path out of the workspace.
-/

namespace RubyBinding

/-- Where something is in a workspace: the names on the way to it. -/
abbrev Place := List String

/-- A tree of files and directories. -/
structure Workspace where
  files : List (Place × String) := []
  dirs : List Place := []
  deriving Repr, Inhabited

namespace Workspace

variable (w : Workspace)

/-- The text of a file. -/
def file? (place : Place) : Option String := w.files.lookup place

def isDir (place : Place) : Bool := place.isEmpty || w.dirs.contains place

/-- Put a text in the place of a file, or at the end. -/
def setFile (place : Place) (text : String) :
    List (Place × String) → List (Place × String)
  | [] => [(place, text)]
  | (p, t) :: rest => if p = place then (p, text) :: rest else (p, t) :: setFile place text rest

/-- Add a directory and all those above it. -/
def addDirs (place : Place) : Workspace :=
  let above := (List.range (place.length + 1)).map place.take
  { w with dirs := w.dirs ++ above.filter fun d => !w.isDir d }

/-- A workspace that holds files with these paths. -/
def ofFiles (files : List (String × String)) : Workspace :=
  files.foldl (fun w (path, text) =>
    let place := (Path.components path).map String.ofList
    let w := w.addDirs place.dropLast
    { w with files := setFile place text w.files }) {}

/-- The steps of a path from the workspace; none for a path that starts elsewhere. A slash at the
end leads into a directory. -/
def stepsOf? (path : String) : Option (List String) :=
  if Path.isAbsolute path then none
  else
    let steps := (Path.pieces path.toList).map String.ofList
    some (steps.filter (· != "") ++
      if (Text.before? ['/'] path.toList).isSome then ["."] else [])

/-- Where a step leads from a directory. -/
def go? (dir : Place) (step : String) : Option Place :=
  if !w.isDir dir then none
  else if step = "." then some dir
  else if step = ".." then if dir.isEmpty then none else some dir.dropLast
  else some (dir ++ [step])

/-- Where a path leads. There need not be anything at its end. -/
def follow? (path : String) : Option Place := do
  (← stepsOf? path).foldlM w.go? []

/-- The text of the file at a path. -/
def read? (path : String) : Option String := do
  if path.isEmpty then none else w.file? (← w.follow? path)

/-- Write a file, if there is a directory to write it into. -/
def write? (path text : String) : Option Workspace := do
  let place ← w.follow? path
  if w.isDir place then none
  else return { w with files := setFile place text w.files }

/-- Make the directories on a path. -/
def makeDirs? (path : String) : Option Workspace := do
  let (w, _) ← (← stepsOf? path).foldlM (fun ((w, dir) : Workspace × Place) step => do
    let next ← w.go? dir step
    if (w.file? next).isSome then none else return (w.addDirs next, next)) (w, [])
  return w

/-- What there is at a path, if there is anything. -/
def kind? (path : String) : Option Shell.FileKind := do
  let place ← w.follow? path
  if path.isEmpty then none
  else if w.isDir place then some .directory
  else (w.file? place).map fun _ => .file

/-- The names in the directory at a path. -/
def entries (path : String) : List String :=
  match w.follow? path with
  | none => []
  | some place =>
    let places := w.dirs ++ w.files.map Prod.fst
    (places.filter fun p => !p.isEmpty && p.dropLast = place).filterMap List.getLast?

/-- Remove a file, or a directory with nothing in it. -/
def remove? (path : String) : Option Workspace := do
  let place ← w.follow? path
  if w.isDir place then
    if place.isEmpty || !(w.entries path).isEmpty then none
    else return { w with dirs := w.dirs.filter (· != place) }
  else if (w.file? place).isSome then
    return { w with files := w.files.filter fun f => f.1 != place }
  else none

/-- The files that are not in `before`, or not with the same text. -/
def changedSince (before : Workspace) : List (String × String) :=
  (w.files.filter fun (p, t) => before.file? p != some t).map fun (p, t) =>
    (String.intercalate "/" p, t)

/-- Change a workspace, if that is possible. -/
def update (f : Workspace → Option Workspace) : StateM Workspace Bool := fun w =>
  match f w with
  | some w' => (true, w')
  | none => (false, w)

/-- A workspace as a place for commands. -/
def asFiles : Shell.Files (StateM Workspace) where
  readText path := do return (← get).read? path
  makeDirs path := update fun w => w.makeDirs? path
  writeText path text := update fun w => w.write? path text
  kindOf path := do return (← get).kind? path
  entries path := do return (← get).entries path
  remove path := update fun w => w.remove? path
  workingDir := return "/work"

/-- A workspace as a place to run in. -/
def host : Host (StateM Workspace) where
  readText := asFiles.readText
  makeDirs := asFiles.makeDirs
  writeText := asFiles.writeText
  runCommand := Shell.run asFiles
  divide := Header.parse

end Workspace

end RubyBinding
