import RubyBinding.Proofs.Adoption
import RubyBinding.Proofs.Layouts
import RubyBinding.Proofs.Splices

/-!
# What is read off a builder

Whatever is read off a builder that was put together by adopting others is what is read off the plan
that it stands for: the block (`Assembled.inlineBlock_eq`), the regions and with them includes and
definitions (`Assembled.regions_eq`), and the file. The lines of its block are those that it was put
together from (`Assembled.inlineBlock_perm`). The entry point of many files addresses the functions
that it calls by index as well (`Assembled.entryBlock_eq`).
-/

namespace RubyBinding

/-- Code that is registered as it is. -/
def Registration.ownLines (g : Registration) : List String :=
  match g.item with
  | .code lines => lines
  | .builder _ => []

namespace Builder

variable {lib : Library} {b : Builder}

/-! ## Blocks -/

theorem map_node_plans (bs : List Builder) :
    (plans bs).map Plan.node = bs.map fun c => c.region.node := by
  rw [plans_eq_map, List.map_map]
  refine List.map_congr_left fun c _ => ?_
  rw [Function.comp_apply, plan_eq]
  rfl

/-- The block of a plan, if the blocks of its parts are those of the builders. -/
theorem Addresses.block_plan (h : b.Addresses) :
    b.plan.block lib =
      b.renderBlock lib fun i => ((plans b.builders).map (Plan.block lib))[i]?.getD (.ok []) := by
  have hblocks : Plan.blocks lib b.parts = b.registrations.map fun g =>
      (g.node, g.resolve (fun _ lines => .ok lines) ((plans b.builders).map (Plan.block lib))) := by
    rw [Plan.blocks_eq_map, parts, List.map_map]
    refine List.map_congr_left fun g hg => ?_
    rw [Function.comp_apply, Registration.apply_resolve Plan.node, map_node_plans,
      Registration.apply_resolve (Plan.block lib)]
    exact congrArg (Prod.mk · _) (h.resolve_node hg)
  rw [plan_eq, Plan.block, hblocks, Library.byDepth_map, renderBlock, registered]
  cases lib.byDepth Registration.node b.registrations with
  | error e => rfl
  | ok ordered =>
    refine congrArg (fun blocks : Except GenError (List (List String)) => do
      return splice b.region.bodyLines (← blocks).flatten) ?_
    exact List.mapM_map

mutual

/-- **The block of a builder is the block of its plan.** -/
theorem Assembled.inlineBlock_eq {b : Builder} (h : b.Assembled) :
    b.inlineBlock lib = b.plan.block lib := by
  match b, h with
  | ⟨r, bs, gs⟩, h =>
    rw [h.addresses.block_plan, inlineBlock, Assembled.inlineBlocks_eq bs h.of_mem]

theorem Assembled.inlineBlocks_eq (bs : List Builder) (h : ∀ b ∈ bs, b.Assembled) :
    inlineBlocks lib bs = (plans bs).map (Plan.block lib) := by
  match bs with
  | [] => rfl
  | b :: bs =>
    obtain ⟨hb, hbs⟩ := List.forall_mem_cons.mp h
    rw [inlineBlocks, plans, List.map_cons, Assembled.inlineBlock_eq hb,
      Assembled.inlineBlocks_eq bs hbs]

end

/-! ## Files -/

theorem regionsOf_eq_flatMap (bs : List Builder) : regionsOf bs = bs.flatMap regions := by
  induction bs with
  | nil => rfl
  | cons b bs ih => rw [regionsOf, ih, List.flatMap_cons]

/-- The regions of a builder are those of its plan, in the same order. -/
theorem Assembled.regions_eq (h : b.Assembled) : b.regions = b.plan.regions := by
  have hparts : regionsOf b.builders = b.parts.flatMap Plan.regions := by
    induction h with
    | new r => rfl
    | amend f _ ih => exact ih
    | registerCode node lines _ ih =>
      rw [parts_registerCode, List.flatMap_append, ← ih, List.flatMap_singleton, Plan.regions,
        List.append_nil]
      rfl
    | @adopt b c h _ ih ihc =>
      rw [h.addresses.parts_adopt, List.flatMap_append, ← ih, List.flatMap_singleton,
        plan_eq, Plan.regions, Plan.regionsOf_eq_flatMap, ← ihc, regionsOf_eq_flatMap,
        regionsOf_eq_flatMap, Builder.adopt, List.flatMap_append, List.flatMap_singleton]
      cases c with
      | mk r bs gs => rw [regions, regionsOf_eq_flatMap]
  cases b with
  | mk r bs gs => rw [regions, plan_eq, Plan.regions, Plan.regionsOf_eq_flatMap, hparts]

/-- **The file of a builder is the file of its plan.** -/
theorem Assembled.serialize_eq (h : b.Assembled) : b.serialize lib = b.plan.serialize lib := by
  rw [serialize, Plan.serialize, h.inlineBlock_eq, includes, definitionLines, h.regions_eq]
  rfl

/-! ## Lines -/

mutual

/-- The lines that a builder is put together from: its body, the code registered with it, and the
lines of the builders that it adopted. -/
def ownLines : Builder → List String
  | ⟨r, bs, gs⟩ => r.bodyLines ++ gs.flatMap Registration.ownLines ++ ownLinesOf bs

def ownLinesOf : List Builder → List String
  | [] => []
  | b :: bs => ownLines b ++ ownLinesOf bs

end

theorem ownLinesOf_eq_flatMap (bs : List Builder) : ownLinesOf bs = bs.flatMap ownLines := by
  induction bs with
  | nil => rfl
  | cons b bs ih => rw [ownLinesOf, ih, List.flatMap_cons]

theorem ownLines_eq (b : Builder) :
    b.ownLines = b.region.bodyLines ++
      (b.registrations.flatMap Registration.ownLines ++ b.builders.flatMap ownLines) := by
  cases b with
  | mk r bs gs => rw [ownLines, ownLinesOf_eq_flatMap, List.append_assoc]

theorem ownLines_plan_perm (h : (b.parts.flatMap Plan.ownLines).Perm
    (b.registrations.flatMap Registration.ownLines ++ b.builders.flatMap ownLines)) :
    b.plan.ownLines.Perm b.ownLines := by
  rw [plan_eq, Plan.ownLines, Plan.ownLinesOf_eq_flatMap, ownLines_eq]
  exact h.append_left _

/-- Code and builders may take turns in the parts; the lines are the same. -/
theorem Assembled.parts_perm (h : b.Assembled) : (b.parts.flatMap Plan.ownLines).Perm
    (b.registrations.flatMap Registration.ownLines ++ b.builders.flatMap ownLines) := by
  induction h with
  | new r => exact .refl _
  | amend f _ ih => exact ih
  | @registerCode b node lines _ ih =>
    rw [parts_registerCode, Builder.registerCode, List.flatMap_append, List.flatMap_append,
      List.flatMap_singleton, List.flatMap_singleton, Plan.ownLines, Registration.ownLines]
    calc
      List.Perm _ (b.registrations.flatMap Registration.ownLines ++ b.builders.flatMap ownLines ++
          lines) := ih.append_right _
      _ = b.registrations.flatMap Registration.ownLines ++
          (b.builders.flatMap ownLines ++ lines) := List.append_assoc _ _ _
      List.Perm _ (b.registrations.flatMap Registration.ownLines ++
          (lines ++ b.builders.flatMap ownLines)) := List.perm_append_comm.append_left _
      _ = _ := (List.append_assoc _ _ _).symm
  | @adopt b c h _ ih ihc =>
    rw [h.addresses.parts_adopt, Builder.adopt, List.flatMap_append, List.flatMap_append,
      List.flatMap_append, List.flatMap_singleton, List.flatMap_singleton, List.flatMap_singleton,
      Registration.ownLines, List.append_nil, ← List.append_assoc]
    exact ih.append (ownLines_plan_perm ihc)

/-- **No line of a builder is lost, and none is doubled.** -/
theorem Assembled.inlineBlock_perm {ls : List String} (h : b.Assembled)
    (hls : b.inlineBlock lib = .ok ls) : ls.Perm b.ownLines := by
  rw [h.inlineBlock_eq] at hls
  have hplan := Plan.block_perm b.plan ⟨ls, hls⟩
  rw [Plan.lines_of_block hls] at hplan
  exact hplan.trans (ownLines_plan_perm h.parts_perm)

/-! ## Calls -/

/-- What the entry point writes for a builder that has files of its own. -/
def call (stem : String) : List String := ["\t" ++ registerName stem ++ "();"]

/-- The stems that the files of adopted builders are told apart by, in the order of adoption. -/
def stems (b : Builder) : List String :=
  (Setting.entries {} b.parts).filterMap Setting.Entry.stem?

/-- The entries of the adopted builders. -/
def entries (b : Builder) : List Setting.Entry :=
  (b.stems.zip (plans b.builders)).map fun x => .part x.1 x.2

/-- Entries are given their stems from the first to the last. -/
theorem exists_entries_append (fresh : Fresh) (ps : List Plan) :
    ∃ fresh', ∀ qs, Setting.entries fresh (ps ++ qs) =
      Setting.entries fresh ps ++ Setting.entries fresh' qs := by
  induction ps generalizing fresh with
  | nil => exact ⟨fresh, fun _ => rfl⟩
  | cons p ps ih =>
    cases p with
    | code node lines =>
      obtain ⟨fresh', h⟩ := ih fresh
      refine ⟨fresh', fun qs => ?_⟩
      rw [List.cons_append, Setting.entries, Setting.entries, h, List.cons_append]
    | region r parts =>
      obtain ⟨fresh', h⟩ := ih (fresh.pick (identifier r.name)).2
      refine ⟨fresh', fun qs => ?_⟩
      exact congrArg (Setting.Entry.part _ _ :: ·) (h qs)

theorem entries_parts_registerCode (b : Builder) (node : Option DeclId) (lines : List String) :
    Setting.entries {} (b.registerCode node lines).parts =
      Setting.entries {} b.parts ++ [.lines node lines] := by
  obtain ⟨fresh, hfresh⟩ := exists_entries_append {} b.parts
  rw [parts_registerCode, hfresh, Setting.entries, Setting.entries]

theorem Addresses.exists_entries_parts_adopt (h : b.Addresses) (c : Builder) :
    ∃ stem, Setting.entries {} (b.adopt c).parts =
      Setting.entries {} b.parts ++ [.part stem c.plan] := by
  obtain ⟨fresh, hfresh⟩ := exists_entries_append {} b.parts
  refine ⟨(fresh.pick (identifier c.region.name)).1, ?_⟩
  rw [h.parts_adopt, hfresh, plan_eq]
  rfl

/-- Each builder has a stem, and each registration the entry of the builder that it addresses. -/
theorem Assembled.entries_eq (h : b.Assembled) : b.stems.length = b.builders.length ∧
    Setting.entries {} b.parts =
      b.registrations.map (Registration.resolve .lines b.entries) := by
  induction h with
  | new r => exact ⟨rfl, rfl⟩
  | amend f _ ih => exact ih
  | @registerCode b node lines _ ih =>
    obtain ⟨hlength, hentries⟩ := ih
    have hmore := entries_parts_registerCode b node lines
    have hstems : (b.registerCode node lines).stems = b.stems := by
      rw [stems, hmore, List.filterMap_append]
      exact List.append_nil _
    have hsame : (b.registerCode node lines).entries = b.entries := by
      rw [entries, hstems]
      rfl
    refine ⟨hstems ▸ hlength, ?_⟩
    rw [hmore, hsame, map_resolve_registerCode, hentries]
  | @adopt b c h _ ih _ =>
    obtain ⟨hlength, hentries⟩ := ih
    obtain ⟨stem, hmore⟩ := h.addresses.exists_entries_parts_adopt c
    have hstems : (b.adopt c).stems = b.stems ++ [stem] := by
      rw [stems, hmore, List.filterMap_append]
      rfl
    have hsame : b.stems.length = (plans b.builders).length := by rw [hlength, length_plans]
    have hadopt : (b.adopt c).entries = b.entries ++ [.part stem c.plan] := by
      rw [entries, hstems, plans_adopt, List.zip_append hsame, List.map_append]
      rfl
    constructor
    · rw [hstems, Builder.adopt, List.length_append, List.length_append, hlength]
      rfl
    · rw [hmore, hadopt, hentries]
      refine (h.addresses.map_resolve_adopt ?_ c _).symm
      rw [entries, List.length_map, List.length_zip, hsame, length_plans, Nat.min_self]

theorem map_node_entries (hlength : b.stems.length = b.builders.length) :
    b.entries.map Setting.Entry.node = b.builders.map fun c => c.region.node := by
  rw [← map_node_plans, entries, List.map_map]
  conv_rhs => rw [← List.map_snd_zip (Nat.le_of_eq ((length_plans _).trans hlength.symm)),
    List.map_map]
  rfl

theorem map_call_entries (hlength : b.stems.length = b.builders.length) :
    b.entries.map Setting.Entry.call = b.stems.map call := by
  rw [entries, List.map_map]
  conv_rhs => rw [← List.map_fst_zip (Nat.le_of_eq (hlength.trans (length_plans _).symm)),
    List.map_map]
  rfl

/-- A block in which something fixed stands for each builder. -/
theorem renderBlock_ok (calls : List (List String)) (b : Builder) :
    b.renderBlock lib (fun i => .ok (calls[i]?.getD [])) = do
      let ordered ← b.registered lib
      return splice b.region.bodyLines
        (ordered.flatMap (Registration.resolve (fun _ lines => lines) calls)) := by
  have hrender : (Registration.render fun i => .ok (calls[i]?.getD [])) =
      fun g => pure (g.resolve (fun _ lines => lines) calls) := by
    funext g
    unfold Registration.render Registration.resolve
    cases g.item with
    | code lines => rfl
    | builder i => rfl
  unfold renderBlock
  refine bind_congr fun ordered => ?_
  rw [hrender, List.mapM_pure, List.flatMap_def]
  rfl

/-- **The entry point calls the builders by their indices.** -/
theorem Assembled.entryBlock_eq (h : b.Assembled) :
    (do
      let ordered ← lib.byDepth Setting.Entry.node (Setting.entries {} b.parts)
      return splice b.region.bodyLines (ordered.flatMap Setting.Entry.call)) =
    b.renderBlock lib fun i => .ok ((b.stems.map call)[i]?.getD []) := by
  obtain ⟨hlength, hentries⟩ := h.entries_eq
  have hnode : ∀ g ∈ b.registrations, Setting.Entry.node (g.resolve .lines b.entries) = g.node := by
    intro g hg
    rw [Registration.apply_resolve Setting.Entry.node, map_node_entries hlength]
    exact h.addresses.resolve_node hg
  have hcall : ∀ ordered : List Registration,
      (ordered.map (Registration.resolve .lines b.entries)).flatMap Setting.Entry.call =
        ordered.flatMap (Registration.resolve (fun _ lines => lines) (b.stems.map call)) := by
    intro ordered
    rw [List.flatMap_map, ← map_call_entries hlength]
    exact List.flatMap_congr fun g _ => Registration.apply_resolve Setting.Entry.call _ _ g
  rw [renderBlock_ok, hentries, Library.byDepth_map, Library.byDepth_congr hnode, registered]
  cases lib.byDepth Registration.node b.registrations with
  | error e => rfl
  | ok ordered =>
    exact congrArg (fun calls => Except.ok (splice b.region.bodyLines calls)) (hcall ordered)

end Builder

end RubyBinding
