import Mathlib.Logic.ExistsUnique
import RubyBinding.Plan.Builder

/-!
# Builders stand for plans

Registrations address builders by index. In a builder that was put together by adopting others
(`Assembled`) every builder is addressed once, and in order (`Addresses`). So it stands for a plan,
and for each plan of a region there is exactly one such builder (`existsUnique_builder`).
-/

namespace RubyBinding

namespace Registration

/-- The builder that a registration is for. -/
def index? (g : Registration) : Option Nat :=
  match g.item with
  | .code _ => none
  | .builder i => some i

/-- What a registration is for, given what its code and what the builders are for. -/
def resolve {α : Type} (code : Option DeclId → List String → α) (ofBuilders : List α)
    (g : Registration) : α :=
  match g.item with
  | .code lines => code g.node lines
  | .builder i => ofBuilders[i]?.getD (code g.node [])

theorem apply_resolve {α β : Type} (f : α → β) (code : Option DeclId → List String → α)
    (xs : List α) (g : Registration) :
    f (g.resolve code xs) = g.resolve (fun node lines => f (code node lines)) (xs.map f) := by
  unfold resolve
  cases g.item with
  | code lines => rfl
  | builder i =>
    dsimp only
    rw [List.getElem?_map]
    cases xs[i]? with
    | none => rfl
    | some x => rfl

end Registration

namespace Builder

mutual

/-- The plan that a builder stands for. -/
def plan : Builder → Plan
  | ⟨r, bs, gs⟩ => .region r (gs.map (Registration.resolve .code (plans bs)))

def plans : List Builder → List Plan
  | [] => []
  | b :: bs => plan b :: plans bs

end

/-- The parts of the plan. -/
def parts (b : Builder) : List Plan :=
  b.registrations.map (Registration.resolve .code (plans b.builders))

/-- Builders that are put together by registering code and adopting other such builders. Their
regions may change in between. -/
inductive Assembled : Builder → Prop
  | new (r : Region) : Assembled (new r)
  | amend {b : Builder} (f : Region → Region) (h : Assembled b) : Assembled (b.amend f)
  | registerCode {b : Builder} (node : Option DeclId) (lines : List String) (h : Assembled b) :
      Assembled (b.registerCode node lines)
  | adopt {b c : Builder} (h : Assembled b) (hc : Assembled c) : Assembled (b.adopt c)

/-- Every builder is addressed once, in the order of adoption, by a registration for its
declaration. -/
structure Addresses (b : Builder) : Prop where
  indices : b.registrations.filterMap Registration.index? = List.range b.builders.length
  node : ∀ g ∈ b.registrations, ∀ i, g.index? = some i →
    ∃ c, b.builders[i]? = some c ∧ g.node = c.region.node

variable {b c : Builder}

theorem plan_eq (b : Builder) : b.plan = .region b.region b.parts := by
  cases b with
  | mk r bs gs => rw [plan, parts]

theorem plans_eq_map (bs : List Builder) : plans bs = bs.map plan := by
  induction bs with
  | nil => rfl
  | cons b bs ih => rw [plans, ih, List.map_cons]

theorem length_plans (bs : List Builder) : (plans bs).length = bs.length := by
  rw [plans_eq_map, List.length_map]

/-! ## Addresses -/

theorem addresses_new (r : Region) : (new r).Addresses :=
  ⟨rfl, List.forall_mem_nil _⟩

theorem Addresses.registerCode (h : b.Addresses) (node : Option DeclId) (lines : List String) :
    (b.registerCode node lines).Addresses := by
  constructor
  · rw [Builder.registerCode, List.filterMap_append, h.indices]
    exact List.append_nil _
  · intro g hg i hi
    rcases List.mem_append.mp hg with hg | hg
    · exact h.node g hg i hi
    · cases List.mem_singleton.mp hg
      cases hi

theorem Addresses.adopt (h : b.Addresses) (c : Builder) : (b.adopt c).Addresses := by
  constructor
  · rw [Builder.adopt, List.filterMap_append, h.indices, List.length_append]
    exact List.range_succ.symm
  · intro g hg i hi
    rcases List.mem_append.mp hg with hg | hg
    · obtain ⟨d, hd, hnode⟩ := h.node g hg i hi
      refine ⟨d, ?_, hnode⟩
      rw [Builder.adopt, List.getElem?_append_left (List.getElem?_eq_some_iff.mp hd).1]
      exact hd
    · cases List.mem_singleton.mp hg
      cases hi
      exact ⟨c, List.getElem?_concat_length, rfl⟩

/-- **Each adopted builder is addressed exactly once.** -/
theorem Assembled.addresses (h : b.Assembled) : b.Addresses := by
  induction h with
  | new r => exact addresses_new r
  | amend f _ ih => exact ⟨ih.indices, ih.node⟩
  | registerCode node lines _ ih => exact ih.registerCode node lines
  | adopt _ _ ih _ => exact ih.adopt _

theorem Assembled.of_mem (h : b.Assembled) : ∀ c ∈ b.builders, c.Assembled := by
  induction h with
  | new r => exact List.forall_mem_nil _
  | amend f _ ih => exact ih
  | registerCode node lines _ ih => exact ih
  | adopt _ hc ih _ =>
    intro d hd
    rcases List.mem_append.mp hd with hd | hd
    · exact ih d hd
    · cases List.mem_singleton.mp hd
      exact hc

/-- A registration is sorted as the builder is that it addresses. -/
theorem Addresses.resolve_node (h : b.Addresses) {g : Registration} (hg : g ∈ b.registrations) :
    g.resolve (fun node _ => node) (b.builders.map fun c => c.region.node) = g.node := by
  unfold Registration.resolve
  split
  · rfl
  · next i hitem =>
    obtain ⟨c, hc, hnode⟩ := h.node g hg i (by rw [Registration.index?, hitem])
    rw [List.getElem?_map, hc, hnode]
    rfl

section Resolve

variable {α : Type} {code : Option DeclId → List String → α} {xs : List α}

theorem map_resolve_registerCode (b : Builder) (node : Option DeclId) (lines : List String) :
    (b.registerCode node lines).registrations.map (Registration.resolve code xs) =
      b.registrations.map (Registration.resolve code xs) ++ [code node lines] := by
  rw [registerCode, List.map_append]
  rfl

/-- What was registered before is for the same things after another builder was adopted, as its
index was in range. -/
theorem Addresses.map_resolve_adopt (h : b.Addresses) (hlength : xs.length = b.builders.length)
    (c : Builder) (x : α) :
    (b.adopt c).registrations.map (Registration.resolve code (xs ++ [x])) =
      b.registrations.map (Registration.resolve code xs) ++ [x] := by
  rw [Builder.adopt, List.map_append, List.map_singleton]
  congr 1
  · refine List.map_congr_left fun g hg => ?_
    unfold Registration.resolve
    split
    · rfl
    · next i hitem =>
      obtain ⟨d, hd, -⟩ := h.node g hg i (by rw [Registration.index?, hitem])
      have hi := (List.getElem?_eq_some_iff.mp hd).1
      rw [List.getElem?_append_left (hlength ▸ hi)]
  · rw [Registration.resolve, ← hlength]
    dsimp only
    rw [List.getElem?_concat_length, Option.getD_some]

end Resolve

/-! ## Parts -/

theorem parts_registerCode (b : Builder) (node : Option DeclId) (lines : List String) :
    (b.registerCode node lines).parts = b.parts ++ [.code node lines] :=
  map_resolve_registerCode b node lines

theorem plans_adopt (b c : Builder) :
    plans (b.adopt c).builders = plans b.builders ++ [c.plan] := by
  rw [plans_eq_map, plans_eq_map, adopt, List.map_append]
  rfl

theorem Addresses.parts_adopt (h : b.Addresses) (c : Builder) :
    (b.adopt c).parts = b.parts ++ [c.plan] := by
  rw [parts, plans_adopt]
  exact h.map_resolve_adopt (length_plans _) c c.plan

theorem takeAll_append (b : Builder) (ps qs : List Plan) :
    b.takeAll (ps ++ qs) = (b.takeAll ps).takeAll qs := by
  induction ps generalizing b with
  | nil => rw [List.nil_append, takeAll]
  | cons p ps ih => rw [List.cons_append, takeAll, takeAll, ih]

/-- What is registered does not depend on the region. -/
theorem takeAll_amend (f : Region → Region) (b : Builder) (ps : List Plan) :
    (b.amend f).takeAll ps = (b.takeAll ps).amend f := by
  induction ps generalizing b with
  | nil => rw [takeAll, takeAll]
  | cons p ps ih =>
    have htake : (b.amend f).take p = (b.take p).amend f := by
      cases p with
      | code node lines => rw [take, take]; rfl
      | region r parts => rw [take, take]; rfl
    rw [takeAll, takeAll, htake, ih]

mutual

/-- Registering a part keeps the region, and adds the part at the end. -/
theorem Assembled.take {b : Builder} (h : b.Assembled) (p : Plan) :
    (b.take p).Assembled ∧ (b.take p).region = b.region ∧ (b.take p).parts = b.parts ++ [p] := by
  cases p with
  | code node lines =>
    rw [Builder.take]
    exact ⟨.registerCode node lines h, rfl, parts_registerCode b node lines⟩
  | region r ps =>
    obtain ⟨hc, hregion, hparts⟩ := Assembled.takeAll (.new r) ps
    rw [Builder.take]
    refine ⟨.adopt h hc, rfl, ?_⟩
    rw [h.addresses.parts_adopt, plan_eq, hregion, hparts]
    rfl

theorem Assembled.takeAll {b : Builder} (h : b.Assembled) (ps : List Plan) :
    (b.takeAll ps).Assembled ∧ (b.takeAll ps).region = b.region ∧
      (b.takeAll ps).parts = b.parts ++ ps := by
  cases ps with
  | nil =>
    rw [Builder.takeAll, List.append_nil]
    exact ⟨h, rfl, rfl⟩
  | cons p ps =>
    obtain ⟨hp, hpregion, hpparts⟩ := Assembled.take h p
    obtain ⟨hps, hregion, hparts⟩ := Assembled.takeAll hp ps
    rw [Builder.takeAll]
    refine ⟨hps, hregion.trans hpregion, ?_⟩
    rw [hparts, hpparts, List.append_assoc, List.singleton_append]

end

/-- A builder is made again from what it stands for. -/
theorem Assembled.takeAll_parts (h : b.Assembled) : (Builder.new b.region).takeAll b.parts = b := by
  induction h with
  | new r =>
    show (Builder.new r).takeAll [] = Builder.new r
    rw [Builder.takeAll]
  | @amend b f _ ih =>
    have hamend := takeAll_amend f (Builder.new b.region) b.parts
    rw [ih] at hamend
    exact hamend
  | @registerCode b node lines _ ih =>
    rw [parts_registerCode, takeAll_append, Builder.takeAll, Builder.takeAll, Builder.take]
    exact congrArg (Builder.registerCode · node lines) ih
  | @adopt b c h _ ih ihc =>
    rw [h.addresses.parts_adopt, takeAll_append, Builder.takeAll, Builder.takeAll, plan_eq,
      Builder.take, ihc]
    exact congrArg (Builder.adopt · c) ih

/-- **For each plan of a region there is one builder.** -/
theorem existsUnique_builder (r : Region) (ps : List Plan) :
    ∃! b : Builder, b.Assembled ∧ b.plan = .region r ps := by
  obtain ⟨h, hregion, hparts⟩ := Assembled.takeAll (.new r) ps
  refine ⟨(new r).takeAll ps, ⟨h, ?_⟩, ?_⟩
  · rw [plan_eq, hregion, hparts]
    rfl
  · rintro b ⟨hb, hplan⟩
    rw [plan_eq] at hplan
    injection hplan with hregion hparts
    rw [← hb.takeAll_parts, hregion, hparts]

/-- Code between two builders takes no index. -/
example : ((new { name := "k", node := none }).takeAll [.region { name := "f", node := none } [],
      .code none ["g();"], .region { name := "h", node := none } []]).registrations =
    [⟨none, .builder 0⟩, ⟨none, .code ["g();"]⟩, ⟨none, .builder 1⟩] := by decide

end Builder

end RubyBinding
