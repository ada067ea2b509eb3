import RubyBinding.Plan.Layout

/-!
# Builders

A plan has what is registered in a region at the place where it is registered. A *builder* keeps the
two apart: it has a list of the builders that it adopted, and a list of registrations, which find an
adopted builder by its index in the first list. Code is laid out by walking the registrations,
includes and definitions by walking the builders.
-/

namespace RubyBinding

/-- What a registration emits. -/
inductive Registered where
  /-- Statements as they stand. -/
  | code (lines : List String)
  /-- The block of an adopted builder, by its index among them. -/
  | builder (index : Nat)
  deriving DecidableEq, Repr, Inhabited

/-- A registration, sorted by the depth of its declaration. -/
structure Registration where
  node : Option DeclId
  item : Registered
  deriving DecidableEq, Repr, Inhabited

namespace Registration

/-- What a registration emits, given what the builders do. -/
def render (child : Nat → Except GenError (List String)) (g : Registration) :
    Except GenError (List String) :=
  match g.item with
  | .code lines => .ok lines
  | .builder i => child i

end Registration

/-- A region with the builders that were adopted for it, and its registrations. -/
structure Builder where
  region : Region
  builders : List Builder := []
  registrations : List Registration := []
  deriving Repr, Inhabited

namespace Builder

/-- A builder with nothing registered. -/
def new (r : Region) : Builder := { region := r }

/-- Change the region of a builder. -/
def amend (f : Region → Region) (b : Builder) : Builder := { b with region := f b.region }

/-- Register code for a declaration. -/
def registerCode (b : Builder) (node : Option DeclId) (lines : List String) : Builder :=
  { b with registrations := b.registrations ++ [⟨node, .code lines⟩] }

/-- Adopt a builder, and register it for its declaration. -/
def adopt (b c : Builder) : Builder :=
  { b with
    registrations := b.registrations ++ [⟨c.region.node, .builder b.builders.length⟩]
    builders := b.builders ++ [c] }

mutual

/-- Register a part of a plan: code as it is, a region by a builder of its own. -/
def take (b : Builder) : Plan → Builder
  | .code node lines => b.registerCode node lines
  | .region r parts => b.adopt ((new r).takeAll parts)

/-- Register parts one after the other. -/
def takeAll (b : Builder) : List Plan → Builder
  | [] => b
  | p :: ps => (b.take p).takeAll ps

end

/-! ## Code -/

variable (lib : Library)

/-- The registrations, superclasses first. -/
def registered (b : Builder) : Except GenError (List Registration) :=
  lib.byDepth Registration.node b.registrations

/-- The body of a builder with what is registered spliced in. -/
def renderBlock (child : Nat → Except GenError (List String)) (b : Builder) :
    Except GenError (List String) := do
  let ordered ← b.registered lib
  return splice b.region.bodyLines (← ordered.mapM (Registration.render child)).flatten

mutual

/-- The block of a builder, with those of the adopted builders in it. An index that no builder has
would emit nothing. -/
def inlineBlock : Builder → Except GenError (List String)
  | ⟨r, bs, gs⟩ => renderBlock lib (fun i => (inlineBlocks bs)[i]?.getD (.ok [])) ⟨r, bs, gs⟩

def inlineBlocks : List Builder → List (Except GenError (List String))
  | [] => []
  | b :: bs => inlineBlock b :: inlineBlocks bs

end

mutual

/-- The regions of a builder and of all that were adopted, each before those under it. -/
def regions : Builder → List Region
  | ⟨r, bs, _⟩ => r :: regionsOf bs

def regionsOf : List Builder → List Region
  | [] => []
  | b :: bs => regions b ++ regionsOf bs

end

/-- The headers that a builder and all that were adopted include, as often as they ask for them. -/
def includes (b : Builder) : List String := b.regions.flatMap Region.includes

/-- The lines of all definitions. -/
def definitionLines (b : Builder) : List String := b.regions.flatMap Region.definitionLines

/-- A builder as a C++ file of its own. -/
def serialize (b : Builder) : Except GenError String := do
  return Plan.unitText b.includes b.definitionLines (← b.inlineBlock lib)

end Builder

end RubyBinding
