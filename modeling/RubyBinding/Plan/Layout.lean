import RubyBinding.Plan
import RubyBinding.Plan.Order

/-!
# Plans as text

The block of a region is its body followed by the blocks of its parts, superclasses first. If the
body ends with a line that is a closing brace and nothing else, that brace closes the function and
comes after the parts. A *unit* is the text of a C++ file: includes, definitions and a block, with a
blank line between them.
-/

namespace RubyBinding

/-- Blank lines at the end of a body, and a closing brace before them if there is one: what has to
stay at the end. Everything else comes first. -/
def splitClosing (body : List String) : List String × List String :=
  let isBlankLine := fun l => (Text.trimmed l).isEmpty
  let trailing := body.reverse.takeWhile isBlankLine
  match body.reverse.dropWhile isBlankLine with
  | last :: before =>
    if Text.trimmed last = "\x7d" then (before.reverse, last :: trailing.reverse) else (body, [])
  | [] => (body, [])

/-- A body with the lines of the parts spliced in. -/
def splice (body parts : List String) : List String :=
  let (lead, closing) := splitClosing body
  lead ++ parts ++ closing

namespace Plan

mutual

/-- The block of a plan with everything nested in it. -/
def block (lib : Library) : Plan → Except GenError (List String)
  | code _ lines => .ok lines
  | region r parts => do
    let ordered ← lib.byDepth Prod.fst (blocks lib parts)
    return splice r.bodyLines (← ordered.mapM Prod.snd).flatten

/-- The blocks of several plans, with the declarations they are for. -/
def blocks (lib : Library) :
    List Plan → List (Option DeclId × Except GenError (List String))
  | [] => []
  | p :: ps => (p.node, block lib p) :: blocks lib ps

end

/-- The text of a C++ file. An include that is asked for twice is written where it was asked for
first. -/
def unitText (includes definitions block : List String) : String :=
  String.intercalate "\n" (includes.eraseDups ++ [""] ++ definitions ++ [""] ++ block)

/-- A plan as a C++ file of its own. -/
def serialize (lib : Library) (p : Plan) : Except GenError String := do
  return unitText p.includes p.definitionLines (← p.block lib)

end Plan

end RubyBinding
