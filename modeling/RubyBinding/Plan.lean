import RubyBinding.Code.Statement
import RubyBinding.Code.Definition
import RubyBinding.Decl

/-!
# Plans

The code for a declaration is a *region*: headers to include, definitions, and the statements of its
registration. Regions nest: what is bound inside a module or class is a part of its region. A `Plan`
is a region with its parts, or code that was put there by hand; nothing is said yet about files, or
about the order in which the parts are registered.
-/

namespace RubyBinding

open Code (Statement Definition)

/-- The code for one declaration, apart from what is nested in it. -/
structure Region where
  /-- A name for people and for file names. -/
  name : String
  /-- The declaration; none for an extension and for a director. -/
  node : Option DeclId
  /-- The C++ variable that holds the Ruby object. -/
  handle : String := ""
  includes : List String := []
  definitions : List Definition := []
  body : List Statement := []
  deriving Repr, Inhabited, BEq

/-- The lines of a region's definitions. -/
def Region.definitionLines (r : Region) : List String := r.definitions.flatMap Definition.lines

/-- The lines of a region's statements. -/
def Region.bodyLines (r : Region) : List String := r.body.map Statement.text

/-- A region with its parts, in the order in which they were registered. -/
inductive Plan where
  /-- Lines that are registered for a declaration. -/
  | code (node : Option DeclId) (lines : List String)
  | region (r : Region) (parts : List Plan)
  deriving Repr, Inhabited, BEq

namespace Plan

/-- The declaration that a plan is for. -/
def node : Plan → Option DeclId
  | code node _ => node
  | region r _ => r.node

mutual

/-- All regions, each before its parts. -/
def regions : Plan → List Region
  | code _ _ => []
  | region r parts => r :: regionsOf parts

def regionsOf : List Plan → List Region
  | [] => []
  | p :: ps => regions p ++ regionsOf ps

end

theorem regionsOf_eq_flatMap (ps : List Plan) : regionsOf ps = ps.flatMap regions := by
  induction ps with
  | nil => rfl
  | cons p ps ih => rw [regionsOf, ih, List.flatMap_cons]

theorem mem_regionsOf {r : Region} {ps : List Plan} :
    r ∈ regionsOf ps ↔ ∃ p ∈ ps, r ∈ p.regions := by
  rw [regionsOf_eq_flatMap, List.mem_flatMap]

/-- The headers that a plan includes, as often as it asks for them. -/
def includes (p : Plan) : List String := p.regions.flatMap Region.includes

/-- The lines of all definitions of a plan. -/
def definitionLines (p : Plan) : List String := p.regions.flatMap Region.definitionLines

end Plan

/-- What a step of a run contributes to a region. -/
structure Draft where
  includes : List String := []
  definitions : List Definition := []
  body : List Statement := []
  parts : List Plan := []
  deriving Repr, Inhabited, BEq

namespace Draft

instance : Append Draft where
  append a b :=
    ⟨a.includes ++ b.includes, a.definitions ++ b.definitions, a.body ++ b.body, a.parts ++ b.parts⟩

/-- Contributions one after the other. -/
def join (drafts : List Draft) : Draft := drafts.foldr (· ++ ·) {}

/-- A contribution that is one statement. -/
def statement (s : Statement) : Draft := { body := [s] }

/-- The region that was drafted. -/
def toPlan (d : Draft) (name : String) (node : Option DeclId) (handle : String) : Plan :=
  .region ⟨name, node, handle, d.includes, d.definitions, d.body⟩ d.parts

end Draft

end RubyBinding
