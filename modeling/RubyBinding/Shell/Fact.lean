import RubyBinding.Shell.Condition
import RubyBinding.Shell.Process

/-!
# Facts about files

What conditions ask about paths. Besides the files, there are devices at a few paths, and the tools
at theirs. All files can be read and written; directories and tools can be executed.
-/

namespace RubyBinding.Shell.Fact

/-- The devices. -/
def devices : List String := ["/dev/null", "/dev/stdin", "/dev/stdout", "/dev/stderr"]

/-- The names of the tools. -/
def toolNames : List String :=
  ["[", "basename", "cat", "dirname", "echo", "env", "false", "head", "mkdir", "printf", "pwd", "rm",
    "sh", "sleep", "tail", "tee", "test", "touch", "true", "wc"]

/-- The directories that tools are in. -/
def toolPlaces : List String := ["/usr/bin", "/bin"]

/-- The tool at a path. -/
def tool? (path : String) : Option String :=
  toolPlaces.findSome? fun dir =>
    match Text.after? (dir ++ "/").toList path.toList with
    | some name => toolNames.find? (· == String.ofList name)
    | none => none

variable {m : Type → Type} [Monad m] (disk : Files m)

/-- Answer a question about paths. -/
def answer : Condition.Query → Run m Bool
  | .two operator first second => do
    if operator != "-ef" then return false
    if (← Run.kindOf disk first).isNone then return false
    return (← Run.placeOf disk first) == (← Run.placeOf disk second)
  | .one operator path => do
    let isDevice := devices.contains path
    let isTool := (tool? path).isSome
    let kind ← Run.kindOf disk path
    let isThere := isDevice || isTool || kind.isSome
    match operator with
    | "-e" => return isThere
    | "-r" => return isThere
    | "-w" => return isThere
    | "-O" => return isThere
    | "-G" => return isThere
    | "-f" => return isTool || kind = some .file
    | "-d" => return kind = some .directory
    | "-x" => return isTool || kind = some .directory
    | "-c" => return path == "/dev/null"
    | "-s" =>
      if isTool || kind = some .directory then return true
      return ((← Run.readFile? disk path).getD "") != ""
    | _ => return false

end RubyBinding.Shell.Fact
