import RubyBinding.Proofs.Blocks
import RubyBinding.Proofs.Identifiers
import RubyBinding.Proofs.Plans

/-!
# Handles in scope

A statement of a registration function uses handles: those of the classes and modules that it
defines something in. The statements of a plan (`Plan.statements`) are in the order in which they
are written, so a handle has to be declared in front of all its uses. For that it is enough that the
plan is *sound*: each region that declares a handle does so first, uses no other handle itself, and
its parts use no other either (`Plan.Sound`). No order among the parts of a region matters, since
none of them uses a handle of another. `Plan.Sound.scoped` is the result.
-/

namespace RubyBinding

open Code (Statement Place Definition Director Override Fallback)
open Text (IsWord)

/-! ## Statements -/

namespace Code

/-- The handle of what a function is bound in. -/
def Place.handle? : Place → Option String
  | global => none
  | moduleFunction handle | singleton handle | method handle => some handle

namespace Statement

/-- The handle that a statement declares. -/
def declared? : Statement → Option String
  | defineModule handle _ _ | defineClass handle _ _ _ _ | defineEnum handle _ _ _ => some handle
  | _ => none

/-- The handles that a statement uses, as receivers or for what it defines something under. -/
def used : Statement → List String
  | frame _ | custom _ => []
  | defineModule _ _ parent | defineClass _ _ _ parent _ | defineEnum _ _ parent _ => parent.toList
  | defineValue handle _ _ | defineDirector handle _ | defineConstructor handle _ => [handle]
  | bind place _ _ => place.handle?.toList

/-- The function that a statement binds. -/
def target? : Statement → Option String
  | bind _ _ target => some target
  | _ => none

/-- A statement that declares a handle binds nothing. -/
theorem target?_eq_none {s : Statement} {handle : String} (h : s.declared? = some handle) :
    s.target? = none := by
  cases s with
  | bind place ruby target => cases h
  | _ => rfl

/-- A text that begins with a type of Rice's, behind a tab. -/
def BeginsWithType (line : String) : Prop := ∃ cs, line.toList = '\t' :: 'R' :: cs

theorem BeginsWithType.append {line : String} (h : BeginsWithType line) (more : String) :
    BeginsWithType (line ++ more) := by
  obtain ⟨cs, hcs⟩ := h
  refine ⟨cs ++ more.toList, ?_⟩
  rw [String.toList_append, hcs, List.cons_append, List.cons_append]

theorem beginsWithType_of_declared? {s : Statement} {handle : String}
    (h : s.declared? = some handle) : BeginsWithType s.text := by
  cases s with
  | defineModule handle ruby parent =>
    have hlead : BeginsWithType "\tRice::Module " := ⟨_, rfl⟩
    exact ((hlead.append _).append _).append _
  | defineClass handle cpp superclass parent ruby =>
    have hlead : BeginsWithType "\tRice::Data_Type" := ⟨_, rfl⟩
    exact ((((hlead.append _).append _).append _).append _).append _
  | defineEnum handle cpp parent ruby =>
    have hlead : BeginsWithType "\tRice::Enum" := ⟨_, rfl⟩
    have hopen := (((hlead.append (template [cpp])).append " ").append handle).append
      " = Rice::define_enum"
    exact (((((hopen.append _).append _).append _).append _).append _)
  | _ => cases h

/-- A statement that declares a handle is no closing brace. -/
theorem trimmed_ne_of_declared? {s : Statement} {handle : String} (h : s.declared? = some handle) :
    Text.trimmed s.text ≠ "\x7d" := by
  obtain ⟨cs, hcs⟩ := beginsWithType_of_declared? h
  exact trimmed_ne_of_toList hcs rfl (by decide)

end Statement

end Code

/-- The handles that statements declare, in order. -/
def declaredBy (ss : List Statement) : List String := ss.filterMap Statement.declared?

@[simp]
theorem declaredBy_cons (s : Statement) (ss : List Statement) :
    declaredBy (s :: ss) = s.declared?.toList ++ declaredBy ss := by
  rw [declaredBy, List.filterMap_cons]
  cases s.declared? <;> rfl

@[simp]
theorem declaredBy_append (ss ts : List Statement) :
    declaredBy (ss ++ ts) = declaredBy ss ++ declaredBy ts :=
  List.filterMap_append

/-- Whether statements use only handles that are in scope: the given ones at first, and behind a
declaration its handle as well. -/
def Scoped : List String → List Statement → Prop
  | _, [] => True
  | handles, s :: ss => s.used ⊆ handles ∧ Scoped (handles ++ s.declared?.toList) ss

namespace Scoped

variable {handles more : List String} {ss ts : List Statement}

theorem mono (h : Scoped handles ss) (hsub : handles ⊆ more) : Scoped more ss := by
  induction ss generalizing handles more with
  | nil => exact trivial
  | cons s ss ih =>
    refine ⟨List.Subset.trans h.1 hsub, ih h.2 ?_⟩
    exact List.append_subset.mpr
      ⟨List.subset_append_of_subset_left _ hsub, List.subset_append_right _ _⟩

theorem append (h : Scoped handles ss) (h' : Scoped (handles ++ declaredBy ss) ts) :
    Scoped handles (ss ++ ts) := by
  induction ss generalizing handles with
  | nil => rwa [declaredBy, List.filterMap_nil, List.append_nil] at h'
  | cons s ss ih =>
    refine ⟨h.1, ih h.2 ?_⟩
    rwa [declaredBy_cons, ← List.append_assoc] at h'

/-- Statements that use nothing but what is in scope from the start. -/
theorem of_forall (h : ∀ s ∈ ss, s.used ⊆ handles) : Scoped handles ss := by
  induction ss generalizing handles with
  | nil => exact trivial
  | cons s ss ih =>
    obtain ⟨hs, hss⟩ := List.forall_mem_cons.mp h
    exact ⟨hs, ih fun t ht => List.subset_append_of_subset_left _ (hss t ht)⟩

/-- One after the other, where none needs what another declares. -/
theorem flatMap {α : Type} {f : α → List Statement} {l : List α}
    (h : ∀ a ∈ l, Scoped handles (f a)) : Scoped handles (l.flatMap f) := by
  induction l with
  | nil => exact trivial
  | cons a l ih =>
    obtain ⟨ha, hl⟩ := List.forall_mem_cons.mp h
    rw [List.flatMap_cons]
    exact ha.append ((ih hl).mono (List.subset_append_left _ _))

/-- What is in scope stays so when other statements come in between. -/
theorem splice {lead closing : List Statement} (hbody : ∀ s ∈ lead ++ closing, s.used ⊆ handles)
    (h : Scoped handles ss) : Scoped handles (lead ++ ss ++ closing) := by
  obtain ⟨hlead, hclosing⟩ := List.forall_mem_append.mp hbody
  refine ((of_forall hlead).append (h.mono ?_)).append ((of_forall hclosing).mono ?_)
  · exact List.subset_append_left _ _
  · exact List.subset_append_left _ _

/-- What a statement uses was in scope from the start, or is declared in front of it. -/
theorem mem_of_mem_used {front back : List Statement} {s : Statement}
    (h : Scoped handles (front ++ s :: back)) :
    s.used ⊆ handles ++ declaredBy front := by
  induction front generalizing handles with
  | nil => exact List.subset_append_of_subset_left _ h.1
  | cons t front ih =>
    rw [declaredBy_cons, ← List.append_assoc]
    exact ih h.2

end Scoped

/-! ## The statements of a plan -/

/-- Statements with those of the parts spliced in, where the lines of the parts come. -/
def spliceStatements (body parts : List Statement) : List Statement :=
  let lead := (splitClosing (body.map Statement.text)).1.length
  body.take lead ++ parts ++ body.drop lead

theorem map_text_spliceStatements (body parts : List Statement) :
    (spliceStatements body parts).map Statement.text =
      splice (body.map Statement.text) (parts.map Statement.text) := by
  have happend := Plan.splitClosing_append (body.map Statement.text)
  rw [Plan.splice_eq, spliceStatements, List.map_append, List.map_append, List.map_take,
    List.map_drop]
  generalize splitClosing (body.map Statement.text) = split at happend ⊢
  rw [← happend, List.take_left, List.drop_left]

/-- A statement that declares a handle stays in front if it is the first one. -/
theorem spliceStatements_cons {first : Statement} {handle : String}
    (h : first.declared? = some handle) (rest parts : List Statement) :
    ∃ lead closing, rest = lead ++ closing ∧
      spliceStatements (first :: rest) parts = first :: (lead ++ parts ++ closing) := by
  have hhead : (splitClosing ((first :: rest).map Statement.text)).1.head? = some first.text :=
    Plan.head?_fst_splitClosing (by rw [List.map_cons, List.head?_cons])
      (Statement.trimmed_ne_of_declared? h)
  unfold spliceStatements
  cases hlead : (splitClosing ((first :: rest).map Statement.text)).1 with
  | nil =>
    rw [hlead] at hhead
    cases hhead
  | cons line lead =>
    refine ⟨rest.take lead.length, rest.drop lead.length, (List.take_append_drop _ _).symm, ?_⟩
    simp only [List.length_cons, List.take_succ_cons, List.drop_succ_cons, List.cons_append]

/-- Nothing is left out of a body that parts are spliced into. -/
theorem exists_spliceStatements (body parts : List Statement) :
    ∃ lead closing, body = lead ++ closing ∧
      spliceStatements body parts = lead ++ parts ++ closing :=
  ⟨_, _, (List.take_append_drop _ body).symm, rfl⟩

namespace Plan

mutual

/-- The statements of a plan with those of its parts, in the order in which they are written. -/
def statements (lib : Library) : Plan → List Statement
  | code _ lines => lines.map .custom
  | region r parts =>
    spliceStatements r.body
      ((positions (fun x => lib.rankOf x.1) (statementsOf lib parts)).flatMap fun x => x.1.2)

def statementsOf (lib : Library) : List Plan → List (Option DeclId × List Statement)
  | [] => []
  | p :: ps => (p.node, statements lib p) :: statementsOf lib ps

end

variable {lib : Library} {r : Region} {parts : List Plan} {p : Plan}

theorem statementsOf_eq_map (lib : Library) (ps : List Plan) :
    statementsOf lib ps = ps.map fun p => (p.node, p.statements lib) := by
  induction ps with
  | nil => rfl
  | cons p ps ih => rw [statementsOf, ih, List.map_cons]

/-- The parts of a region are written in the order of their registration. -/
theorem statements_region (lib : Library) (r : Region) (parts : List Plan) :
    (region r parts).statements lib = spliceStatements r.body
      (((positions (rank lib) parts).map Prod.fst).flatMap (statements lib)) := by
  rw [statements, statementsOf_eq_map, positions_map, List.flatMap_map, List.flatMap_map]
  rfl

mutual

/-- **The lines of a plan are the texts of its statements.** -/
theorem lines_eq_map_text (p : Plan) (h : ∃ ls, p.block lib = .ok ls) :
    p.lines lib = (p.statements lib).map Statement.text := by
  cases p with
  | code node ls =>
    have htexts : ls.map (Statement.text ∘ Statement.custom) = ls := List.map_id _
    rw [statements, List.map_map, htexts]
    exact lines_of_block rfl
  | region r parts =>
    obtain ⟨ls, hls⟩ := h
    obtain ⟨hall, rfl⟩ := block_region_eq_ok_iff.mp hls
    rw [lines_of_block hls, statements_region, map_text_spliceStatements, List.map_flatMap,
      Region.bodyLines, partLines, ← List.flatMap_map]
    refine congrArg _ (List.flatMap_congr fun p hp => ?_)
    exact forall_lines_eq_map_text parts (fun q hq => (hall q hq).2) p
      ((mem_map_fst_positions (rank lib)).mp hp)

theorem forall_lines_eq_map_text (ps : List Plan) (h : ∀ p ∈ ps, ∃ ls, p.block lib = .ok ls) :
    ∀ p ∈ ps, p.lines lib = (p.statements lib).map Statement.text := by
  cases ps with
  | nil => exact List.forall_mem_nil _
  | cons p ps =>
    obtain ⟨hp, hps⟩ := List.forall_mem_cons.mp h
    exact List.forall_mem_cons.mpr ⟨lines_eq_map_text p hp, forall_lines_eq_map_text ps hps⟩

end

end Plan

/-! ## What is bound -/

/-- The member of a director that reaches the implementation in C++, if there is one. -/
def Code.Fallback.member? : Fallback → Option String
  | hidden => none
  | raises name | calls name => some name

/-- Whether definitions hold the function that a statement binds: a function that is made for Ruby,
or a default member of a director. -/
inductive Provides (ds : List Definition) : String → Prop
  | function {w : Code.Wrapper} (hw : .wrapper w ∈ ds)
      (hbody : ∀ block, w.body ≠ .callBlock block) : Provides ds w.name
  | member {d : Director} {o : Override} {name : String} (hd : .director d ∈ ds)
      (ho : o ∈ d.overrides) (hname : o.fallback.member? = some name) :
      Provides ds (d.name ++ "::" ++ name)

theorem Provides.mono {ds es : List Definition} {target : String} (h : Provides ds target)
    (hsub : ds ⊆ es) : Provides es target := by
  cases h with
  | function hw hbody => exact .function (hsub hw) hbody
  | member hd ho hname => exact .member (hsub hd) ho hname

/-- The function that Ruby calls, and the function that calls a block, are told apart by how their
names begin. What Ruby calls and directors are named by words. -/
def Code.Definition.IsNamed : Definition → Prop
  | wrapper w =>
    match w.body with
    | .callBlock _ => ∃ suffix, w.name = "do_yield_on_" ++ suffix
    | _ => ∃ suffix, w.name = "wrap_" ++ suffix ∧ IsWord suffix
  | director d => IsWord d.name
  | _ => True

theorem WellNamed.isNamed {ds : List Definition} (h : WellNamed ds) : ∀ d ∈ ds, d.IsNamed := by
  intro d hd
  cases d with
  | wrapper w =>
    cases hbody : w.body with
    | callBlock block =>
      obtain ⟨suffixes, -, hyielders, -⟩ := h.callbacks
      have hmem : w.name ∈ ds.filterMap Definition.yielder? := by
        refine List.mem_filterMap.mpr ⟨_, hd, ?_⟩
        simp only [Definition.yielder?, hbody]
      rw [hyielders] at hmem
      obtain ⟨suffix, -, hname⟩ := List.mem_map.mp hmem
      simp only [Definition.IsNamed, hbody]
      exact ⟨suffix, hname.symm⟩
    | _ =>
      have hmem : w.name ∈ ds.filterMap Definition.drawn? := by
        refine List.mem_filterMap.mpr ⟨_, hd, ?_⟩
        simp only [Definition.drawn?, hbody]
      obtain ⟨word, hname, hword⟩ := h.drawn _ hmem
      simp only [Definition.IsNamed, hbody]
      exact ⟨word, hname, hword⟩
  | director d =>
    obtain ⟨word, hname, hword⟩ := h.drawn _ (List.mem_filterMap.mpr ⟨_, hd, rfl⟩)
    rw [Definition.IsNamed, hname]
    exact IsWord.append (by decide) hword
  | _ => trivial

/-! ## Sound plans -/

/-- The definitions of a plan. -/
def Plan.definitions (p : Plan) : List Definition := p.regions.flatMap Region.definitions

/-- The names that were drawn for a region, apart from its parts. -/
def Region.drawn (r : Region) : List String :=
  declaredBy r.body ++ r.definitions.filterMap Definition.drawn?

/-- The names that were drawn for a plan. -/
def Plan.drawn (p : Plan) : List String := p.regions.flatMap Region.drawn

/-- Whether a body declares nothing and uses only certain handles, and all that it binds is among
certain definitions. -/
structure SoundBody (handles : List String) (ds : List Definition) (body : List Statement) :
    Prop where
  plain : ∀ s ∈ body, s.declared? = none ∧ s.used ⊆ handles
  bound : ∀ s ∈ body, ∀ target, s.target? = some target → Provides ds target

/-- Whether a plan uses only certain handles besides those that it declares itself, declares them in
time, and holds the definitions of what it binds. -/
inductive Plan.Sound : List String → Plan → Prop
  /-- The body declares a handle first, and uses no other. -/
  | holder {handles : List String} {r : Region} {parts : List Plan} {first : Statement}
      {rest : List Statement} {handle : String} (hbody : r.body = first :: rest)
      (hfirst : first.declared? = some handle) (hused : first.used ⊆ handles)
      (hrest : SoundBody [handle] (Plan.region r parts).definitions rest)
      (hnamed : ∀ d ∈ r.definitions, d.IsNamed) (hparts : ∀ p ∈ parts, Plan.Sound [handle] p) :
      Plan.Sound handles (.region r parts)
  /-- The body declares no handle. -/
  | plain {handles : List String} {r : Region} {parts : List Plan}
      (hbody : SoundBody handles (Plan.region r parts).definitions r.body)
      (hnamed : ∀ d ∈ r.definitions, d.IsNamed) (hparts : ∀ p ∈ parts, Plan.Sound handles p) :
      Plan.Sound handles (.region r parts)

/-- Whether a draft uses only certain handles, and holds the definitions of what it binds, apart
from certain others. -/
structure Draft.Sound (handles : List String) (others : List Definition) (d : Draft) : Prop where
  body : SoundBody handles (d.definitions ++ others) d.body
  named : ∀ x ∈ d.definitions, x.IsNamed
  parts : ∀ p ∈ d.parts, p.Sound handles

/-- The names that were drawn for a draft. -/
def Draft.drawn (d : Draft) : List String :=
  declaredBy d.body ++ d.definitions.filterMap Definition.drawn? ++ d.parts.flatMap Plan.drawn

/-! ### Bodies -/

namespace SoundBody

variable {handles : List String} {ds es : List Definition} {body more : List Statement}

theorem nil : SoundBody handles ds [] :=
  ⟨List.forall_mem_nil _, List.forall_mem_nil _⟩

theorem mono (h : SoundBody handles ds body) (hsub : ds ⊆ es) : SoundBody handles es body :=
  ⟨h.plain, fun s hs target ht => (h.bound s hs target ht).mono hsub⟩

theorem append (h : SoundBody handles ds body) (h' : SoundBody handles ds more) :
    SoundBody handles ds (body ++ more) where
  plain := List.forall_mem_append.mpr ⟨h.plain, h'.plain⟩
  bound := List.forall_mem_append.mpr ⟨h.bound, h'.bound⟩

theorem of_append_left (h : SoundBody handles ds (body ++ more)) : SoundBody handles ds body :=
  ⟨(List.forall_mem_append.mp h.plain).1, (List.forall_mem_append.mp h.bound).1⟩

theorem of_append_right (h : SoundBody handles ds (body ++ more)) : SoundBody handles ds more :=
  ⟨(List.forall_mem_append.mp h.plain).2, (List.forall_mem_append.mp h.bound).2⟩

/-- Statements that bind nothing. -/
theorem of_forall (h : ∀ s ∈ body, s.declared? = none ∧ s.used ⊆ handles ∧ s.target? = none) :
    SoundBody handles ds body where
  plain := fun s hs => ⟨(h s hs).1, (h s hs).2.1⟩
  bound := by
    intro s hs target ht
    rw [(h s hs).2.2] at ht
    cases ht

end SoundBody

/-! ### Drafts -/

theorem Plan.definitions_region (r : Region) (parts : List Plan) :
    (region r parts).definitions = r.definitions ++ parts.flatMap Plan.definitions := by
  rw [definitions, regions, regionsOf_eq_flatMap, List.flatMap_cons, List.flatMap_assoc]
  rfl

theorem Plan.drawn_region (r : Region) (parts : List Plan) :
    (region r parts).drawn = r.drawn ++ parts.flatMap Plan.drawn := by
  rw [drawn, regions, regionsOf_eq_flatMap, List.flatMap_cons, List.flatMap_assoc]
  rfl

namespace Draft

variable {d e : Draft} {ds : List Draft} {handles : List String} {others : List Definition}

@[simp]
theorem definitions_append (d e : Draft) : (d ++ e).definitions = d.definitions ++ e.definitions :=
  rfl

theorem append_assoc (a b c : Draft) : a ++ b ++ c = a ++ (b ++ c) := by
  obtain ⟨ai, ad, ab, ap⟩ := a
  change Draft.mk (ai ++ b.includes ++ c.includes) (ad ++ b.definitions ++ c.definitions)
    (ab ++ b.body ++ c.body) (ap ++ b.parts ++ c.parts) = _
  simp only [List.append_assoc]
  rfl

theorem drawn_toPlan (d : Draft) (name : String) (node : Option DeclId) (handle : String) :
    (d.toPlan name node handle).drawn = d.drawn :=
  Plan.drawn_region _ _

theorem count_drawn_append (d e : Draft) (n : String) :
    (d ++ e).drawn.count n = d.drawn.count n + e.drawn.count n := by
  simp only [drawn, body_append, definitions_append, parts_append, declaredBy_append,
    List.filterMap_append, List.flatMap_append, List.count_append]
  omega

theorem count_drawn_join (ds : List Draft) (n : String) :
    (join ds).drawn.count n = (ds.flatMap drawn).count n := by
  induction ds with
  | nil => rfl
  | cons d ds ih => rw [join_cons, count_drawn_append, ih, List.flatMap_cons, List.count_append]

namespace Sound

theorem empty : ({} : Draft).Sound handles others :=
  ⟨.nil, List.forall_mem_nil _, List.forall_mem_nil _⟩

theorem of_parts {ps : List Plan} (h : ∀ p ∈ ps, p.Sound handles) :
    ({ parts := ps } : Draft).Sound handles others :=
  ⟨.nil, List.forall_mem_nil _, h⟩

/-- A draft that needs no definitions of others. -/
theorem with_others (h : d.Sound handles []) : d.Sound handles others := by
  refine ⟨h.body.mono ?_, h.named, h.parts⟩
  rw [List.append_nil]
  exact List.subset_append_left _ _

theorem append (hd : d.Sound handles others) (he : e.Sound handles others) :
    (d ++ e).Sound handles others where
  body := by
    refine (hd.body.mono ?_).append (he.body.mono ?_)
    · exact List.append_subset.mpr ⟨fun x hx => List.mem_append_left _ (List.mem_append_left _ hx),
        List.subset_append_right _ _⟩
    · exact List.append_subset.mpr ⟨fun x hx => List.mem_append_left _ (List.mem_append_right _ hx),
        List.subset_append_right _ _⟩
  named := List.forall_mem_append.mpr ⟨hd.named, he.named⟩
  parts := List.forall_mem_append.mpr ⟨hd.parts, he.parts⟩

theorem join (h : ∀ d ∈ ds, d.Sound handles others) : (Draft.join ds).Sound handles others := by
  induction ds with
  | nil => exact .empty
  | cons d ds ih =>
    obtain ⟨hd, hds⟩ := List.forall_mem_cons.mp h
    exact hd.append (ih hds)

/-- The headers of a draft do not matter. -/
theorem with_includes (h : d.Sound handles others) (includes : List String) :
    { d with includes }.Sound handles others :=
  ⟨h.body, h.named, h.parts⟩

/-- What a draft needs besides its own definitions can be held by its parts. -/
theorem subset_definitions (hothers : others ⊆ d.parts.flatMap Plan.definitions) (name : String)
    (node : Option DeclId) (handle : String) :
    d.definitions ++ others ⊆ (d.toPlan name node handle).definitions := by
  rw [toPlan, Plan.definitions_region]
  exact List.append_subset.mpr
    ⟨List.subset_append_left _ _, List.subset_append_of_subset_right _ hothers⟩

/-- A draft that declares no handle. -/
theorem toPlan (h : d.Sound handles others) (hothers : others ⊆ d.parts.flatMap Plan.definitions)
    (name : String) (node : Option DeclId) (handle : String) :
    (d.toPlan name node handle).Sound handles :=
  .plain (h.body.mono (subset_definitions hothers name node handle)) h.named h.parts

/-- A draft behind the statement that declares its handle. -/
theorem toPlan_holder {handle : String} (h : d.Sound [handle] others)
    (hothers : others ⊆ d.parts.flatMap Plan.definitions) (first : Statement)
    (hbody : e.body = first :: d.body)
    (hdefinitions : e.definitions = d.definitions) (hparts : e.parts = d.parts)
    (hfirst : first.declared? = some handle) (hused : first.used ⊆ handles) (name : String)
    (node : Option DeclId) (plain : String) : (e.toPlan name node plain).Sound handles := by
  have hsub := subset_definitions (d := e) (hparts ▸ hothers) name node plain
  rw [hdefinitions] at hsub
  refine .holder hbody hfirst hused (h.body.mono hsub) ?_ ?_
  · rw [hdefinitions]
    exact h.named
  · rw [hparts]
    exact h.parts

end Sound

end Draft

/-! ### What follows for statements -/

namespace Plan

variable {lib : Library} {p : Plan} {handles : List String}

/-- The statements of a sound plan are the bodies of its regions, in another order. -/
theorem Sound.statements_perm (lib : Library) (h : p.Sound handles) :
    (p.statements lib).Perm (p.regions.flatMap Region.body) := by
  have splice_perm : ∀ {r : Region} {parts : List Plan},
      (∀ p ∈ parts, (p.statements lib).Perm (p.regions.flatMap Region.body)) →
      ((region r parts).statements lib).Perm ((region r parts).regions.flatMap Region.body) := by
    intro r parts ih
    have hparts : (((positions (rank lib) parts).map Prod.fst).flatMap (statements lib)).Perm
        ((regionsOf parts).flatMap Region.body) := by
      have hperm := (positions_perm (rank lib) parts).map Prod.fst
      rw [List.zipIdx_map_fst] at hperm
      refine (hperm.flatMap_right _).trans ?_
      rw [regionsOf_eq_flatMap, List.flatMap_assoc]
      exact List.Perm.flatMap_left _ ih
    obtain ⟨lead, closing, hbody, hsplice⟩ := exists_spliceStatements r.body
      (((positions (rank lib) parts).map Prod.fst).flatMap (statements lib))
    rw [statements_region, hsplice, regions, List.flatMap_cons, hbody, List.append_assoc,
      List.append_assoc]
    exact (List.perm_append_comm.trans (hparts.append_left closing)).append_left lead
  induction h with
  | holder _ _ _ _ _ _ ih => exact splice_perm ih
  | plain _ _ _ ih => exact splice_perm ih

/-- **In a sound plan, every handle is in scope where it is used.** -/
theorem Sound.scoped (h : p.Sound handles) : Scoped handles (p.statements lib) := by
  have mem_parts : ∀ {parts : List Plan} {q : Plan},
      q ∈ (positions (rank lib) parts).map Prod.fst → q ∈ parts :=
    fun hq => (mem_map_fst_positions (rank lib)).mp hq
  induction h with
  | @holder handles r parts first rest handle hbody hfirst hused hrest _ _ ih =>
    obtain ⟨lead, closing, hsplit, hsplice⟩ := spliceStatements_cons hfirst rest
      (((positions (rank lib) parts).map Prod.fst).flatMap (statements lib))
    have hplain : ∀ s ∈ lead ++ closing, s.used ⊆ handles ++ first.declared?.toList := by
      intro s hs
      rw [← hsplit] at hs
      rw [hfirst]
      exact List.subset_append_of_subset_right _ (hrest.plain s hs).2
    rw [statements_region, hbody, hsplice]
    refine ⟨hused, .splice hplain (.flatMap fun q hq => (ih q (mem_parts hq)).mono ?_)⟩
    rw [hfirst]
    exact List.subset_append_right _ _
  | @plain handles r parts hbody _ _ ih =>
    obtain ⟨lead, closing, hsplit, hsplice⟩ := exists_spliceStatements r.body
      (((positions (rank lib) parts).map Prod.fst).flatMap (statements lib))
    have hplain : ∀ s ∈ lead ++ closing, s.used ⊆ handles := by
      intro s hs
      rw [← hsplit] at hs
      exact (hbody.plain s hs).2
    rw [statements_region, hsplice]
    exact .splice hplain (.flatMap fun q hq => ih q (mem_parts hq))

/-- A sound plan holds the definitions of all that it binds. -/
theorem Sound.bound (h : p.Sound handles) :
    ∀ r ∈ p.regions, ∀ s ∈ r.body, ∀ target, s.target? = some target →
      Provides p.definitions target := by
  have region_bound : ∀ {r : Region} {parts : List Plan},
      (∀ s ∈ r.body, ∀ target, s.target? = some target →
        Provides (region r parts).definitions target) →
      (∀ p ∈ parts, ∀ r ∈ p.regions, ∀ s ∈ r.body, ∀ target, s.target? = some target →
        Provides p.definitions target) →
      ∀ r' ∈ (region r parts).regions, ∀ s ∈ r'.body, ∀ target, s.target? = some target →
        Provides (region r parts).definitions target := by
    intro r parts hbody hparts r' hr' s hs target ht
    rw [regions, List.mem_cons, mem_regionsOf] at hr'
    rcases hr' with rfl | ⟨q, hq, hr'⟩
    · exact hbody s hs target ht
    · refine (hparts q hq r' hr' s hs target ht).mono fun d hd => ?_
      rw [definitions_region]
      exact List.mem_append_right _ (List.mem_flatMap.mpr ⟨q, hq, hd⟩)
  induction h with
  | holder hbody hfirst _ hrest _ _ ih =>
    refine region_bound ?_ ih
    rw [hbody]
    refine List.forall_mem_cons.mpr ⟨fun target ht => ?_, hrest.bound⟩
    rw [Statement.target?_eq_none hfirst] at ht
    cases ht
  | plain hbody _ _ ih => exact region_bound hbody.bound ih

/-- The functions of a sound plan are named as functions are. -/
theorem Sound.named (h : p.Sound handles) : ∀ d ∈ p.definitions, d.IsNamed := by
  have region_named : ∀ {r : Region} {parts : List Plan}, (∀ d ∈ r.definitions, d.IsNamed) →
      (∀ p ∈ parts, ∀ d ∈ p.definitions, d.IsNamed) →
      ∀ d ∈ (region r parts).definitions, d.IsNamed := by
    intro r parts hr hparts
    rw [definitions_region]
    refine List.forall_mem_append.mpr ⟨hr, fun d hd => ?_⟩
    obtain ⟨q, hq, hd⟩ := List.mem_flatMap.mp hd
    exact hparts q hq d hd
  induction h with
  | holder _ _ _ _ hnamed _ ih => exact region_named hnamed ih
  | plain _ hnamed _ ih => exact region_named hnamed ih

end Plan

end RubyBinding
