import RubyBinding.Library.Resolution
import RubyBinding.Converter
import RubyBinding.Path

/-!
# Generation sessions

Code is generated for a fixed `Setting`: an annotated library, the headers that make it up, and
further headers to include. What the parts of a run have to agree on is the `Session`: the C++
identifiers handed out so far, the namespaces that have modules of their own, and the conversions
that the generated code relies on.
-/

namespace RubyBinding

/-- Why a function that takes a callback cannot be bound. -/
inductive CallbackFault where
  | notAlone
  | onInstance
  | unresolved
  | nested
  deriving DecidableEq, Repr

def CallbackFault.message : CallbackFault → String
  | notAlone => "a callback must be the only argument"
  | onInstance => "a function taking a callback cannot be an instance method"
  | unresolved => "callback type could not be resolved"
  | nested => "callbacks taking callbacks are not supported"

/-- Why no code was generated. -/
inductive GenError where
  | ambiguousSuperclass (subclass : String) (candidates : List String)
  | inheritanceCycle (subclass : String)
  | unsupportedCallback (callee : String) (fault : CallbackFault)
  /-- A namespace or class was moved, over others, into itself. -/
  | ownershipCycle (name : String)
  /-- A region that was put together by hand was to be generated. -/
  | handMade (region : String)
  deriving DecidableEq, Repr

def GenError.message : GenError → String
  | ambiguousSuperclass subclass candidates =>
    "class " ++ ticked subclass ++ " has several superclasses (" ++
      String.intercalate ", " candidates ++ ") and none was chosen"
  | inheritanceCycle subclass => "class " ++ ticked subclass ++ " inherits from itself"
  | unsupportedCallback callee fault => "cannot wrap " ++ ticked callee ++ ": " ++ fault.message
  | ownershipCycle name => ticked name ++ " was moved into itself"
  | handMade region => "builder " ++ ticked region ++ " does not implement build"

/-- What a run generates code for. -/
structure Setting where
  library : Library
  /-- The headers that make up the library. -/
  sources : List String := []
  /-- Further headers for every generated file. -/
  includes : List String := []
  deriving Repr, Inhabited

/-- What the parts of a run have to agree on. -/
structure Session where
  names : Fresh := {}
  /-- Namespaces that are bound by modules of their own. -/
  claimed : List DeclId := []
  /-- Conversions in the order in which they were first needed. -/
  converters : List Converter := []
  deriving Repr, Inhabited

/-- Note a conversion, if one is needed. -/
def Session.need (s : Session) : Option Converter → Session
  | none => s
  | some c => { s with converters := Converter.note s.converters c }

/-- A step of a run that cannot fail. -/
abbrev Run := StateM Session

/-- A step of a run. What a failed step did to the session stays done. -/
abbrev Gen := ExceptT GenError Run

/-! ## Names -/

/-- Hand out an identifier. -/
def freshName (base : String) : Run String := fun s =>
  let (name, names) := s.names.pick base
  (name, { s with names })

/-- Leave a namespace to a module of its own. -/
def claim (ns : DeclId) : Run Unit := modify fun s => { s with claimed := ns :: s.claimed }

namespace Setting

variable (g : Setting)

/-! ## Types -/

/-- Resolve the type of a result, and remember the conversion it needs. -/
def resolveResult (scope : DeclId) (t : Ty) : Run Ty := fun s =>
  let resolved := g.library.resolve scope t
  (resolved, s.need (Converter.ofResult? g.library resolved))

/-- Resolve the type of a parameter, and remember the conversion it needs. -/
def resolveParam (scope : DeclId) (t : Ty) : Run Ty := fun s =>
  let resolved := g.library.resolve scope t
  (resolved, s.need (Converter.ofParam? g.library resolved))

/-! ## Headers -/

/-- Whether a file is one of the library's headers. -/
def isSource (file : String) : Bool := g.sources.any fun s => s == file || Path.sameAs s file

/-- The headers to include for a declaration: its own, or all of the library's if it comes from
elsewhere. -/
def headers (i : DeclId) : List String :=
  match (g.library.tree.get i).file with
  | some file => if g.isSource file then [file] else g.sources
  | none => g.sources

/-- Whether a declaration is from one of the library's headers. What has no file counts as such, and
a namespace does if anything in it does. -/
def isFromSources (i : DeclId) : Bool :=
  let d := g.library.tree.get i
  if d.isNamespace then
    d.children.any fun c => if _h : i < c ∧ c < g.library.tree.size then isFromSources c else false
  else match d.file with
    | none => true
    | some file => g.isSource file
termination_by g.library.tree.size - i
decreasing_by exact Nat.sub_lt_sub_left (Nat.lt_trans _h.1 _h.2) _h.1

end Setting

end RubyBinding
