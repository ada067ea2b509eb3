import RubyBinding.Outcome
import RubyBinding.Shell.Numeral

/-!
# Signals

The names and numbers of signals. Number 0 is the end of a process.
-/

namespace RubyBinding.Shell.Signal

/-- The name of a signal, if it has one. -/
def name? (n : Nat) : Option String := if n = 0 then some "EXIT" else signalNames[n - 1]?

/-- The number of a signal by its name, in letters of any case. -/
def ofName? (text : String) : Option Nat :=
  let upper := String.ofList (text.toList.map Char.toUpper)
  if upper == "EXIT" then some 0 else (signalNames.idxOf? upper).map (· + 1)

/-- The number of a signal by its number or its name. -/
def ofText? (text : String) : Option Nat :=
  match Numeral.ofDigits? text with
  | some n => if n < 65 then some n else none
  | none => ofName? text

/-- Signals that do not end a process of themselves. -/
def harmless : List String := ["CHLD", "CONT", "STOP", "TSTP", "TTIN", "TTOU", "URG", "WINCH"]

/-- Whether a signal ends a process of itself. -/
def isDeadly (n : Nat) : Bool := n != 0 && !(harmless.contains ((name? n).getD ""))

end RubyBinding.Shell.Signal
