import RubyBinding.Shell.Fact
import RubyBinding.Shell.Print
import RubyBinding.Shell.Tool.Display
import RubyBinding.Shell.Tool.Entry
import RubyBinding.Shell.Tool.Excerpt

/-!
# Tools

The commands that are programs of their own, apart from `sh`.
-/

namespace RubyBinding.Shell.Tool

variable {m : Type → Type} [Monad m] (call : Call m)

/-- Decide a condition; the status. -/
def test : Run m Nat := do
  let words := if call.name.toList.getLast? = some '[' then
      if call.arguments.getLast? = some "]" then some call.arguments.dropLast else none
    else some call.arguments
  match words with
  | none => let _ ← report call "missing ]"; return 2
  | some words =>
    match ← (Condition.ofWords (Fact.answer call.disk) false words).run with
    | .ok holds => return if holds then 0 else 1
    | .error why =>
      let _ ← report call why
      return 2

/-- Print by a format; the status. -/
def printFormat : Run m Nat := do
  match call.arguments with
  | [] => refuse call "missing operand"
  | format :: arguments =>
    let printed := printf format arguments
    let status ← print call printed.text
    for text in printed.reports do
      let _ ← report call text
    return max status (min 1 printed.status)

/-- Wait for no time at all. -/
def sleep : Run m Nat :=
  withOptions call [] fun given => do
    let isInterval := fun (text : String) =>
      let ds := text.toList.takeWhile fun c => c.isDigit || c == '.'
      let rest := text.toList.drop ds.length
      !ds.isEmpty && (rest.isEmpty || [['s'], ['m'], ['h'], ['d']].contains rest)
    match given.operands, given.operands.find? fun text => !isInterval text with
    | [], _ => refuse call "missing operand"
    | _, some text => refuse call ("invalid time interval '" ++ text ++ "'")
    | _, none => return 0

/-- Run the tool of a name, if there is one that needs no shell; its status. -/
def run? (name : String) : Option (Run m Nat) :=
  match name with
  | "true" => some (return 0)
  | "false" => some (return 1)
  | "echo" => some (print call (String.ofList (echoWithOptions (false, false) call.arguments)))
  | "printf" => some (printFormat call)
  | "cat" => some (cat call)
  | "head" => some (head call)
  | "tail" => some (tail call)
  | "wc" => some (wordCount call)
  | "basename" => some (base call)
  | "dirname" => some (dir call)
  | "rm" => some (remove call)
  | "mkdir" => some (makeDirectory call)
  | "touch" => some (touch call)
  | "tee" => some (tee call)
  | "sleep" => some (sleep call)
  | "test" => some (test call)
  | "[" => some (test call)
  | "pwd" => some do print call ((← Run.process).directory ++ "\n")
  | _ => none

end RubyBinding.Shell.Tool
