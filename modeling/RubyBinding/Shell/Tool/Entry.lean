import RubyBinding.Shell.Tool.Basic

/-!
# Paths and entries of directories

`basename` and `dirname` take paths apart; `rm`, `mkdir`, `touch` and `tee` change what there is at
them.
-/

namespace RubyBinding.Shell.Tool

/-- A path without the slashes at its end; one that consists of slashes is one slash. -/
def withoutSlashes (path : String) : List Char :=
  match Text.dropEndWhile (· == '/') path.toList with
  | [] => if path.isEmpty then [] else ['/']
  | cs => cs

/-- The last component of a path, without a tail that is not all of it. -/
def baseName (path tail : String) : String :=
  let name := match withoutSlashes path with
    | ['/'] => ['/']
    | cs => (cs.reverse.takeWhile (· != '/')).reverse
  match Text.before? tail.toList name with
  | some front => String.ofList (if front.isEmpty then name else front)
  | none => String.ofList name

/-- A path without its last component. -/
def dirName (path : String) : String :=
  let cs := withoutSlashes path
  if cs == ['/'] then "/"
  else if !cs.contains '/' then "."
  else
    let front := String.ofList (cs.reverse.dropWhile (· != '/')).reverse
    String.ofList (withoutSlashes front)

variable {m : Type → Type} [Monad m] (call : Call m)

def base : Run m Nat :=
  withOptions call [] fun given => do
    match given.operands with
    | [] => refuse call "missing operand"
    | [path] => print call (baseName path "" ++ "\n")
    | [path, tail] => print call (baseName path tail ++ "\n")
    | _ :: _ :: extra :: _ => refuse call ("extra operand '" ++ extra ++ "'")

def dir : Run m Nat :=
  withOptions call [] fun given => do
    if given.operands.isEmpty then refuse call "missing operand"
    else print call (String.join (given.operands.map fun path => dirName path ++ "\n"))

/-- Remove what there is at a path; `depth` bounds how deep directories are emptied. -/
def removeAt (isForced isDeep : Bool) (path : String) : Nat → Run m Nat
  | 0 => return 1
  | depth + 1 => do
    let cannot := fun (why : String) => report call ("cannot remove '" ++ path ++ "': " ++ why)
    let place ← Run.placeOf call.disk path
    match ← Run.kindOf call.disk path with
    | none => if isForced then return 0 else cannot (← absence call path)
    | some .directory =>
      if !isDeep then cannot "Is a directory"
      else
        let inside ← Run.onFiles (call.disk.entries place)
        let status ← inside.foldlM (fun status name => do
          return max status (← removeAt isForced isDeep (path ++ "/" ++ Text.toBytes name) depth)) 0
        let _ ← Run.onFiles (call.disk.remove place)
        return status
    | some .file =>
      let _ ← Run.onFiles (call.disk.remove place)
      return 0

def remove : Run m Nat :=
  withOptions call
    [⟨some 'f', some "force", false⟩, ⟨some 'r', some "recursive", false⟩,
      ⟨some 'R', none, false⟩] fun given => do
    let isForced := given.has "force"
    if given.operands.isEmpty && !isForced then return ← refuse call "missing operand"
    given.operands.foldlM (fun status path => do
      let isDeep := given.has "recursive" || given.has "R"
      return max status (← removeAt call isForced isDeep path 64)) 0

def makeDirectory : Run m Nat :=
  withOptions call [⟨some 'p', some "parents", false⟩] fun given => do
    if given.operands.isEmpty then return ← refuse call "missing operand"
    given.operands.foldlM (fun status path => do
      let cannot := fun (why : String) =>
        report call ("cannot create directory '" ++ path ++ "': " ++ why)
      let isDeep := given.has "parents"
      match ← Run.kindOf call.disk path with
      | some .file => cannot "File exists"
      | some .directory => if isDeep then return status else cannot "File exists"
      | none =>
        if !isDeep && (← Run.kindOf call.disk (dirName path)) != some .directory then
          cannot (← absence call path)
        else if ← Run.onFiles (call.disk.makeDirs (← Run.placeOf call.disk path)) then return status
        else cannot "Not a directory") 0

def touch : Run m Nat :=
  withOptions call [⟨some 'c', some "no-create", false⟩] fun given => do
    if given.operands.isEmpty then return ← refuse call "missing file operand"
    given.operands.foldlM (fun status path => do
      if (← Run.kindOf call.disk path).isSome || given.has "no-create" then return status
      if ← Run.onFiles (call.disk.writeText (← Run.placeOf call.disk path) "") then return status
      report call ("cannot touch '" ++ path ++ "': " ++ (← absence call path))) 0

/-- Copy the input to the output and to files. -/
def tee : Run m Nat :=
  withOptions call [⟨some 'a', some "append", false⟩] fun given => do
    let text := String.ofList ((← Run.readAll? call.disk 0).getD [])
    let status ← print call text
    given.operands.foldlM (fun status path => do
      let place ← Run.placeOf call.disk path
      let before ← if given.has "append" then Run.readFile? call.disk path else pure none
      let whole := Text.ofBytesLossy (before.getD "" ++ text)
      if ← Run.onFiles (call.disk.writeText place whole) then return status
      let why ← match ← Run.kindOf call.disk path with
        | some .directory => pure "Is a directory"
        | _ => absence call path
      report call (Quote.name path ++ ": " ++ why)) status

end RubyBinding.Shell.Tool
