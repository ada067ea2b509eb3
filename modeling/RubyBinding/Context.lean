import RubyBinding.Session

/-!
# Contexts that remember types

The same types are written over and over. A context is a session that also keeps every type that it
has resolved, by the scope and the type as it was written, and looks there before it resolves one.
-/

namespace RubyBinding

/-- A session with the types that were resolved in it. -/
structure Context extends Session where
  /-- A scope and a type as it is written there, with the type as generated code spells it. -/
  resolved : List ((DeclId × Ty) × Ty) := []
  deriving Repr, Inhabited

namespace Context

variable (g : Setting)

/-- Resolve a type, unless that was done before. -/
def resolve (scope : DeclId) (t : Ty) : StateM Context Ty := fun c =>
  match c.resolved.lookup (scope, t) with
  | some done => (done, c)
  | none =>
    let done := g.library.resolve scope t
    (done, { c with resolved := ((scope, t), done) :: c.resolved })

/-- Note a conversion, if one is needed. -/
def need (needed : Option Converter) : StateM Context Unit :=
  modify fun c => { c with toSession := c.toSession.need needed }

/-- Resolve the type of a result, and remember the conversion it needs. -/
def resolveResult (scope : DeclId) (t : Ty) : StateM Context Ty := do
  let done ← resolve g scope t
  need (Converter.ofResult? g.library done)
  return done

/-- Resolve the type of a parameter, and remember the conversion it needs. -/
def resolveParam (scope : DeclId) (t : Ty) : StateM Context Ty := do
  let done ← resolve g scope t
  need (Converter.ofParam? g.library done)
  return done

end Context

end RubyBinding
