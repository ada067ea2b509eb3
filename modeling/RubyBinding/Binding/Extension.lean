import RubyBinding.Binding.Module

/-!
# Extensions

An extension is what Ruby loads: one function `Init_name` that registers a namespace and any number
of explicit modules. A namespace that an explicit module names is left to that module.
-/

namespace RubyBinding

open Code (Statement)

/-- A planned extension. -/
structure Extension where
  root : Region
  parts : List Plan
  deriving Repr, Inhabited

namespace Extension

def name (e : Extension) : String := e.root.name

/-- The whole extension as one plan. -/
def plan (e : Extension) : Plan := .region e.root e.parts

end Extension

mutual

/-- The namespaces that a module and those inside it hold. -/
def ModuleSpec.namespaces : ModuleSpec → List DeclId
  | ⟨_, nspace, modules⟩ => nspace.toList ++ ModuleSpec.namespacesOf modules

def ModuleSpec.namespacesOf : List ModuleSpec → List DeclId
  | [] => []
  | m :: ms => m.namespaces ++ namespacesOf ms

end

/-- Plan an extension for a namespace, if one is given, and explicit modules. -/
def Setting.extension (g : Setting) (name : String) (ns : Option DeclId)
    (modules : List ModuleSpec) : Gen Extension := do
  (ModuleSpec.namespacesOf modules).forM fun m => (claim m : Run Unit)
  let inside ← match ns with
    | some ns => g.bindNamespace g.plan .program ns
    | none => pure {}
  let submodules ← g.modulePlans none modules
  let head : Draft := {
    includes := "#include <rice/Class.hpp>" :: g.furtherIncludes
    body := [.frame "extern \"C\"", .frame ("void Init_" ++ name ++ "() \x7b")] }
  let draft := head ++ inside ++ { body := [.frame "\x7d"], parts := submodules }
  return ⟨⟨name, none, "", draft.includes, draft.definitions, draft.body⟩, draft.parts⟩

end RubyBinding
