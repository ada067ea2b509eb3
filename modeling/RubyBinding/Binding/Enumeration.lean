import RubyBinding.Binding.Class

/-! # Enumerations -/

namespace RubyBinding

open Code (Statement)

/-- How C++ spells a value of an enumeration. The values of an unscoped one belong to the scope
around it. -/
def Library.enumeratorName (lib : Library) (i : DeclId) (isScoped : Bool) (name : String) : String :=
  let scope := if isScoped then lib.tree.qualifiedName i
    else lib.tree.qualifiedName (lib.tree.scopeOf i)
  if scope = "::" then name else scope ++ "::" ++ name

/-- The plan of an enumeration under the module or class with the handle `parent`. For any other
declaration it is empty. -/
def Setting.enumPlan (g : Setting) (parent : Option String) (i : DeclId) : Run Plan := do
  let lib := g.library
  let d := lib.tree.get i
  let qualified := lib.tree.qualifiedName i
  match d.kind with
  | .enumeration isScoped values => do
    let handle ← freshName ("rb_e" ++ identifier qualified)
    let ruby := constantName ((lib.renamed? i).getD d.name)
    let value := fun (v : Enumerator) =>
      Statement.defineValue handle (constantName v.name) (lib.enumeratorName i isScoped v.name)
    let draft : Draft := {
      includes := "#include <rice/Enum.hpp>" :: g.includesFor i
      body := .defineEnum handle qualified parent ruby :: values.map value }
    return draft.toPlan qualified (some i) handle
  | _ => return Draft.toPlan {} qualified (some i) ""

end RubyBinding
