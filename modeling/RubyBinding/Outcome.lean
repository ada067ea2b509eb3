/-!
# How commands end

What is left of a command that was run to its end: whether it exited or was ended by a signal, and
what it printed.
-/

namespace RubyBinding

/-- The names of the signals from 1 on. -/
def signalNames : List String :=
  ["HUP", "INT", "QUIT", "ILL", "TRAP", "ABRT", "BUS", "FPE", "KILL", "USR1", "SEGV", "USR2", "PIPE",
    "ALRM", "TERM", "STKFLT", "CHLD", "CONT", "STOP", "TSTP", "TTIN", "TTOU", "URG", "XCPU", "XFSZ",
    "VTALRM", "PROF", "WINCH", "IO", "PWR", "SYS"]

/-- How a command ended. -/
inductive Ending where
  | exited (status : Nat)
  | killed (signal : Nat)
  deriving DecidableEq, Repr, Inhabited

def Ending.text : Ending → String
  | exited status => "exit status: " ++ toString status
  | killed 0 => "signal: 0"
  | killed (n + 1) =>
    "signal: " ++ toString (n + 1) ++ match signalNames[n]? with
      | some name => " (SIG" ++ name ++ ")"
      | none => ""

/-- What a finished command leaves. Its output and its errors are bytes. -/
structure Outcome where
  ending : Ending
  out : String
  err : String
  deriving DecidableEq, Repr, Inhabited

end RubyBinding
