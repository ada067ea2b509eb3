import Mathlib
import RubyBinding.Proofs.Conversions
import RubyBinding.Proofs.Layouts
import RubyBinding.Proofs.Soundness

/-!
# Units are closed

A generated C++ file is a *unit* if it has a function that registers something: the only file of an
extension, or the file of its entry point and those of its parts. `Setting.units` has what is
written to them as definitions and statements, and `files_of_units` says that nothing else is
written but headers and the conversions. A unit is closed if it can be read on its own
(`TranslationUnit.Closed`): handles are declared once and in front, and what is bound is defined
once. Sound plans make closed units, since names are drawn only once in a run.
-/

namespace RubyBinding

open Code (Statement Definition Director Override Wrapper)

/-! ## Closed units -/

/-- A C++ file with the function that registers what is in it. -/
structure TranslationUnit where
  file : String
  includes : List String
  /-- Conversions that are defined in the file itself. -/
  converters : List Converter
  definitions : List Definition
  /-- The block of the function, with its frame. -/
  statements : List Statement

/-- The file itself. -/
def TranslationUnit.render (u : TranslationUnit) : OutputFile :=
  .ofBody u.file (Plan.unitText u.includes
    (Converter.definitionLines u.converters ++ u.definitions.flatMap Definition.lines)
    (u.statements.map Statement.text))

/-- The name of a function. -/
def Code.Definition.function? : Definition → Option String
  | wrapper w => some w.name
  | _ => none

/-- The name of a director. -/
def Code.Definition.director? : Definition → Option String
  | director d => some d.name
  | _ => none

/-- Whether definitions hold exactly one function of a name, which is not one that calls a block, or
exactly one director of a name, with a member of a name. -/
inductive ProvidesOnce (ds : List Definition) : String → Prop
  | function {w : Wrapper} (hw : .wrapper w ∈ ds) (hbody : ∀ block, w.body ≠ .callBlock block)
      (hone : (ds.filterMap Definition.function?).count w.name = 1) : ProvidesOnce ds w.name
  | member {d : Director} {o : Override} {name : String} (hd : .director d ∈ ds)
      (hone : (ds.filterMap Definition.director?).count d.name = 1) (ho : o ∈ d.overrides)
      (hname : o.fallback.member? = some name) : ProvidesOnce ds (d.name ++ "::" ++ name)

/-- Whether a unit can be read on its own. -/
structure TranslationUnit.Closed (u : TranslationUnit) : Prop where
  /-- Each handle that is used is declared in front, and nowhere else. -/
  handles : ∀ front s back, u.statements = front ++ s :: back → ∀ handle ∈ s.used,
    handle ∈ declaredBy front ∧ (declaredBy u.statements).count handle = 1
  /-- Each function that is bound is defined, and only once. -/
  functions : ∀ s ∈ u.statements, ∀ target, s.target? = some target →
    ProvidesOnce u.definitions target

/-- Functions are named by names that were drawn, or call a block. -/
theorem count_function?_le (ds : List Definition) (n : String) :
    (ds.filterMap Definition.function?).count n ≤
      (ds.filterMap Definition.drawn?).count n + (ds.filterMap Definition.yielder?).count n := by
  induction ds with
  | nil => exact Nat.le_refl _
  | cons d ds ih =>
    cases d with
    | wrapper w =>
      simp only [List.filterMap_cons, Definition.function?, Definition.drawn?, Definition.yielder?]
      cases w.body <;> simp only [List.count_cons] <;> omega
    | director d =>
      simp only [List.filterMap_cons, Definition.function?, Definition.drawn?,
        Definition.yielder?, List.count_cons]
      omega
    | _ => exact ih

theorem count_director?_le (ds : List Definition) (n : String) :
    (ds.filterMap Definition.director?).count n ≤ (ds.filterMap Definition.drawn?).count n := by
  induction ds with
  | nil => exact Nat.le_refl _
  | cons d ds ih =>
    cases d with
    | wrapper w =>
      simp only [List.filterMap_cons, Definition.director?, Definition.drawn?]
      cases w.body <;> simp only [List.count_cons] <;> omega
    | director d =>
      simp only [List.filterMap_cons, Definition.director?, Definition.drawn?, List.count_cons]
      omega
    | _ => exact ih

/-- A function that is made for Ruby is not named as one that calls a block. -/
theorem not_mem_yielders {ds : List Definition} (hnamed : ∀ d ∈ ds, d.IsNamed) {w : Wrapper}
    (hw : .wrapper w ∈ ds) (hbody : ∀ block, w.body ≠ .callBlock block) :
    w.name ∉ ds.filterMap Definition.yielder? := by
  intro hmem
  have hlead : ∃ suffix, w.name = "wrap_" ++ suffix := by
    have h := hnamed _ hw
    unfold Definition.IsNamed at h
    cases hcases : w.body with
    | callBlock block => exact absurd hcases (hbody block)
    | _ =>
      simp only [hcases] at h
      obtain ⟨suffix, hsuffix, -⟩ := h
      exact ⟨suffix, hsuffix⟩
  have hother : ∃ suffix, w.name = "do_yield_on_" ++ suffix := by
    obtain ⟨d, hd, hyielder⟩ := List.mem_filterMap.mp hmem
    cases d with
    | wrapper w' =>
      have h := hnamed _ hd
      unfold Definition.IsNamed at h
      cases hcases : w'.body with
      | callBlock block =>
        simp only [Definition.yielder?, hcases] at hyielder h
        rwa [Option.some.inj hyielder] at h
      | _ =>
        simp only [Definition.yielder?, hcases] at hyielder
        cases hyielder
    | _ => cases hyielder
  obtain ⟨suffix, hsuffix⟩ := hlead
  obtain ⟨other, hother⟩ := hother
  have hlists := congrArg String.toList (hsuffix.symm.trans hother)
  simp at hlists

/-- Where no name was drawn twice, what is held is held once. -/
theorem Provides.once {ds : List Definition} {target : String} (h : Provides ds target)
    (hnamed : ∀ d ∈ ds, d.IsNamed) (hdrawn : (ds.filterMap Definition.drawn?).Nodup) :
    ProvidesOnce ds target := by
  have hle := List.nodup_iff_count_le_one.mp hdrawn
  cases h with
  | @function w hw hbody =>
    refine .function hw hbody (Nat.le_antisymm ?_ ?_)
    · have hyielder := List.count_eq_zero.mpr (not_mem_yielders hnamed hw hbody)
      have hcount := count_function?_le ds w.name
      have := hle w.name
      omega
    · exact List.count_pos_iff.mpr (List.mem_filterMap.mpr ⟨_, hw, rfl⟩)
  | @member d o name hd ho hname =>
    refine .member hd (Nat.le_antisymm ?_ ?_) ho hname
    · exact Nat.le_trans (count_director?_le ds d.name) (hle d.name)
    · exact List.count_pos_iff.mpr (List.mem_filterMap.mpr ⟨_, hd, rfl⟩)

/-- Statements in scope, whose handles are all different, and definitions of what they bind make a
closed unit. -/
theorem TranslationUnit.closed {u : TranslationUnit} (hscoped : Scoped [] u.statements)
    (hhandles : (declaredBy u.statements).Nodup)
    (hbound : ∀ s ∈ u.statements, ∀ target, s.target? = some target →
      Provides u.definitions target)
    (hnamed : ∀ d ∈ u.definitions, d.IsNamed)
    (hdrawn : (u.definitions.filterMap Definition.drawn?).Nodup) : u.Closed where
  handles := by
    intro front s back hsplit handle hused
    rw [hsplit] at hscoped
    have hmem : handle ∈ declaredBy front := hscoped.mem_of_mem_used hused
    refine ⟨hmem, List.count_eq_one_of_mem hhandles ?_⟩
    rw [hsplit, declaredBy_append]
    exact List.mem_append_left _ hmem
  functions := fun s hs target ht => (hbound s hs target ht).once hnamed hdrawn

/-! ## The units of an extension -/

namespace Setting

/-- What the entry point writes for a part. -/
def Entry.statements : Entry → List Statement
  | lines _ code => code.map .custom
  | part stem _ => [.frame ("\t" ++ registerName stem ++ "();")]

/-- The unit of a part that has files of its own. -/
def Entry.unit? (g : Setting) (converters : List Converter) : Entry → Option TranslationUnit
  | lines _ _ => none
  | part stem p => some {
      file := OutputFile.sourceName stem
      includes := [OutputFile.includeHeader stem] ++ g.furtherIncludes ++
        converterInclude converters ++ p.includes
      converters := []
      definitions := p.definitions
      statements := [.frame (signature stem ++ " \x7b")] ++ p.statements g.library ++
        [.frame "\x7d"] }

/-- The only unit of an extension that is written to one file. -/
def wholeUnit (g : Setting) (e : Extension) (converters : List Converter) : TranslationUnit where
  file := e.name ++ ".rb.cpp"
  includes := e.plan.includes ++
    if converters.isEmpty then [] else ["#include <rice/Data_Object.hpp>"]
  converters
  definitions := e.plan.definitions
  statements := e.plan.statements g.library

/-- The unit of the entry point, where the parts have files of their own. -/
def entryUnit (g : Setting) (e : Extension) (converters : List Converter) : TranslationUnit where
  file := e.name ++ ".rb.cpp"
  includes := e.root.includes ++
    ((entries {} e.parts).filterMap Entry.stem?).map OutputFile.includeHeader ++
      converterInclude converters
  converters := []
  definitions := e.root.definitions
  statements := spliceStatements e.root.body ((g.ordered e).flatMap Entry.statements)

/-- The units that an extension is written to. -/
def units (g : Setting) (layout : Layout) (e : Extension) (converters : List Converter) :
    List TranslationUnit :=
  match layout with
  | .single => [g.wholeUnit e converters]
  | .multiple =>
    g.entryUnit e converters :: (entries {} e.parts).filterMap (Entry.unit? g converters)

variable {g : Setting} {e : Extension} {converters : List Converter} {files : List OutputFile}

theorem definitionLines_eq (p : Plan) :
    p.definitionLines = p.definitions.flatMap Definition.lines := by
  rw [Plan.definitionLines, Plan.definitions, List.flatMap_assoc]
  rfl

theorem Entry.map_text_statements (x : Entry) : x.statements.map Statement.text = x.call := by
  cases x with
  | lines node code => exact (List.map_map ..).trans (List.map_id _)
  | part stem p => rfl

theorem single_render (h : g.render .single e converters = .ok files) :
    files = (g.units .single e converters).map TranslationUnit.render := by
  obtain ⟨hall, rfl⟩ := singleFile_eq_ok_iff.mp h
  have hblock : e.plan.block g.library = .ok _ := Plan.block_region_eq_ok_iff.mpr ⟨hall, rfl⟩
  have hlines := Plan.lines_eq_map_text e.plan ⟨_, hblock⟩
  rw [Plan.lines_of_block hblock] at hlines
  rw [flatMap_inlined, ← definitionLines_plan, definitionLines_eq, hlines]
  rfl

/-- The files of an entry are those of a part, a header and a unit. -/
theorem files_of_unit? {x : Entry} (h : ∃ ls, x.plan.block g.library = .ok ls) :
    x.files g converters = [] ∧ x.unit? g converters = none ∨
      ∃ stem guarded u, x.unit? g converters = some u ∧
        x.files g converters = [.header stem guarded, u.render] := by
  cases x with
  | lines node code => exact .inl ⟨rfl, rfl⟩
  | part stem p =>
    refine .inr ⟨stem, ["", signature stem ++ ";"], _, rfl, ?_⟩
    have hlines : (Entry.part stem p).inlined g.library =
        (p.statements g.library).map Statement.text := Plan.lines_eq_map_text p h
    rw [Entry.files, hlines, definitionLines_eq, TranslationUnit.render, List.map_append,
      List.map_append]
    rfl

/-- **What an extension is written to.** Each unit is a file, and all other files are headers, or
have the conversions. -/
theorem files_of_units {layout : Layout} (h : g.render layout e converters = .ok files) :
    (∀ u ∈ g.units layout e converters, u.render ∈ files) ∧
      ∀ f ∈ files, (∃ u ∈ g.units layout e converters, f = u.render) ∨
        (∃ stem guarded, f = .header stem guarded) ∨ f ∈ g.converterFiles converters := by
  cases layout with
  | single =>
    rw [single_render h]
    refine ⟨fun u hu => List.mem_map_of_mem hu, fun f hf => .inl ?_⟩
    obtain ⟨u, hu, rfl⟩ := List.mem_map.mp hf
    exact ⟨u, hu, rfl⟩
  | multiple =>
    obtain ⟨hall, rfl⟩ := multipleFiles_eq_ok_iff.mp h
    have hmain : .ofBody (e.name ++ ".rb.cpp") (Plan.unitText
        (e.root.includes ++
          ((entries {} e.parts).filterMap Entry.stem?).map OutputFile.includeHeader ++
            converterInclude converters)
        e.root.definitionLines (splice e.root.bodyLines ((g.ordered e).flatMap Entry.call))) =
        (entryUnit g e converters).render := by
      rw [TranslationUnit.render, entryUnit, map_text_spliceStatements, List.map_flatMap,
        funext Entry.map_text_statements]
      rfl
    have hparts : ∀ x ∈ entries {} e.parts, ∃ ls, x.plan.block g.library = .ok ls := by
      intro x hx
      refine (hall x.plan ?_).2
      rw [← entries_map_plan {} e.parts]
      exact List.mem_map_of_mem hx
    rw [hmain]
    constructor
    · intro u hu
      rcases List.mem_cons.mp hu with rfl | hu
      · exact List.mem_append_left _ (List.mem_append_left _ (List.mem_singleton_self _))
      · obtain ⟨x, hx, hunit⟩ := List.mem_filterMap.mp hu
        refine List.mem_append_left _ (List.mem_append_right _ (List.mem_flatMap.mpr ⟨x, hx, ?_⟩))
        rcases files_of_unit? (hparts x hx) with ⟨-, hnone⟩ | ⟨stem, guarded, u', hu', hfiles⟩
        · rw [hunit] at hnone
          cases hnone
        · rw [hunit] at hu'
          cases hu'
          rw [hfiles]
          exact List.mem_cons_of_mem _ List.mem_cons_self
    · intro f hf
      rcases List.mem_append.mp hf with hf | hf
      · rcases List.mem_append.mp hf with hf | hf
        · exact .inl ⟨_, List.mem_cons_self, List.mem_singleton.mp hf⟩
        · obtain ⟨x, hx, hf⟩ := List.mem_flatMap.mp hf
          rcases files_of_unit? (hparts x hx) with ⟨hnone, -⟩ | ⟨stem, guarded, u, hu, hfiles⟩
          · rw [hnone] at hf
            cases hf
          · rw [hfiles] at hf
            rcases List.mem_cons.mp hf with rfl | hf
            · exact .inr (.inl ⟨stem, guarded, rfl⟩)
            · refine .inl ⟨u, List.mem_cons_of_mem _ (List.mem_filterMap.mpr ⟨x, hx, hu⟩), ?_⟩
              exact List.mem_singleton.mp hf
      · refine .inr (.inr ?_)
        split at hf
        · cases hf
        · exact hf

/-! ## Every unit is closed -/

/-- The names drawn for a sound plan are the handles that its statements declare, and those of its
definitions. -/
theorem drawn_perm (lib : Library) {p : Plan} {handles : List String} (h : p.Sound handles) :
    p.drawn.Perm
      (declaredBy (p.statements lib) ++ p.definitions.filterMap Definition.drawn?) := by
  have hstatements : (declaredBy (p.statements lib)).Perm
      (p.regions.flatMap fun r => declaredBy r.body) := by
    have hperm := (h.statements_perm lib).filterMap Statement.declared?
    rwa [List.filterMap_flatMap] at hperm
  have hdefinitions : p.definitions.filterMap Definition.drawn? =
      p.regions.flatMap fun r => r.definitions.filterMap Definition.drawn? := by
    rw [Plan.definitions, List.filterMap_flatMap]
  rw [hdefinitions]
  exact (List.flatMap_append_perm ..).symm.trans (hstatements.symm.append_right _)

theorem plain_of_frames (lines : List String) : ∀ s ∈ lines.map Statement.frame,
    s.declared? = none ∧ s.used ⊆ [] ∧ s.target? = none :=
  List.forall_mem_map.mpr fun _ _ => ⟨rfl, List.Subset.refl _, rfl⟩

/-- The statements of a sound plan with its definitions, in any frame, make a closed unit. -/
theorem closed_of_sound {lib : Library} {p : Plan} (h : p.Sound []) (hdrawn : p.drawn.Nodup)
    {u : TranslationUnit} (hdefinitions : u.definitions = p.definitions)
    (opening closing : List String) (hstatements : u.statements =
      opening.map .frame ++ p.statements lib ++ closing.map .frame) :
    u.Closed := by
  have hdeclared : ∀ lines : List String, declaredBy (lines.map .frame) = [] := fun lines =>
    List.filterMap_eq_nil_iff.mpr fun s hs => (plain_of_frames lines s hs).1
  have hscoped : ∀ (handles lines : List String), Scoped handles (lines.map .frame) :=
    fun handles lines => (Scoped.of_forall fun s hs => (plain_of_frames lines s hs).2.1).mono
      (List.nil_subset _)
  have hnodup := (drawn_perm lib h).nodup_iff.mp hdrawn
  refine TranslationUnit.closed ?_ ?_ ?_ ?_ ?_
  · rw [hstatements]
    exact ((hscoped _ _).append (h.scoped.mono (List.nil_subset _))).append (hscoped _ _)
  · rw [hstatements, declaredBy_append, declaredBy_append, hdeclared, hdeclared, List.append_nil,
      List.nil_append]
    exact hnodup.of_append_left
  · rw [hstatements, hdefinitions]
    intro s hs target ht
    rcases List.mem_append.mp hs with hs | hs
    · rcases List.mem_append.mp hs with hs | hs
      · rw [(plain_of_frames opening s hs).2.2] at ht
        cases ht
      · rw [(h.statements_perm lib).mem_iff, List.mem_flatMap] at hs
        obtain ⟨r, hr, hs⟩ := hs
        exact h.bound r hr s hs target ht
    · rw [(plain_of_frames closing s hs).2.2] at ht
      cases ht
  · rw [hdefinitions]
    exact h.named
  · rw [hdefinitions]
    exact hnodup.of_append_right

/-- What the entry point writes for the parts uses no handle and binds nothing. -/
theorem Entry.plain_of_mem_statements (x : Entry) : ∀ s ∈ x.statements,
    s.declared? = none ∧ s.used ⊆ [] ∧ s.target? = none := by
  cases x with
  | lines node code => exact List.forall_mem_map.mpr fun _ _ => ⟨rfl, List.Subset.refl _, rfl⟩
  | part stem p => exact List.forall_mem_singleton.mpr ⟨rfl, List.Subset.refl _, rfl⟩

theorem closed_entryUnit (h : e.Sound)
    (hdrawn : (e.root.definitions.filterMap Definition.drawn?).Nodup) :
    (g.entryUnit e converters).Closed := by
  -- Every statement of the unit is of the root's, or written for a part.
  have hplain : SoundBody [] e.root.definitions (g.entryUnit e converters).statements := by
    have hentries : SoundBody [] e.root.definitions ((g.ordered e).flatMap Entry.statements) := by
      refine .of_forall fun s hs => ?_
      obtain ⟨x, -, hs⟩ := List.mem_flatMap.mp hs
      exact x.plain_of_mem_statements s hs
    obtain ⟨lead, closing, hbody, hsplice⟩ := exists_spliceStatements e.root.body
      ((g.ordered e).flatMap Entry.statements)
    have hroot := h.body
    rw [hbody] at hroot
    rw [entryUnit, hsplice]
    exact ((hroot.of_append_left).append hentries).append hroot.of_append_right
  refine TranslationUnit.closed (.of_forall fun s hs => (hplain.plain s hs).2) ?_ hplain.bound
    h.named hdrawn
  have hdeclared : declaredBy (g.entryUnit e converters).statements = [] :=
    List.filterMap_eq_nil_iff.mpr fun s hs => (hplain.plain s hs).1
  rw [hdeclared]
  exact List.nodup_nil

/-- **Every unit of an extension is closed.** The units are all that is written besides headers and
conversions. -/
theorem closed_of_extension {g : Setting} {name : String} {ns : Option DeclId}
    {modules : List ModuleSpec} {e : Extension} {s : Session}
    (hrun : (g.extension name ns modules).run.run {} = (.ok e, s)) {layout : Layout}
    {files : List OutputFile} (hfiles : g.render layout e s.converters = .ok files) :
    (∀ u ∈ g.units layout e s.converters, u.render ∈ files ∧ u.Closed) ∧
      ∀ f ∈ files, (∃ u ∈ g.units layout e s.converters, f = u.render) ∨
        (∃ stem guarded, f = .header stem guarded) ∨ f ∈ g.converterFiles s.converters := by
  obtain ⟨hdrawn, hsound⟩ := (extension_draws name ns modules).of_run hrun
  obtain ⟨hrendered, hcases⟩ := files_of_units hfiles
  refine ⟨fun u hu => ⟨hrendered u hu, ?_⟩, hcases⟩
  have hnames := hdrawn
  rw [Extension.plan, Plan.drawn_region, List.nodup_append, List.nodup_flatMap] at hnames
  obtain ⟨hroot, ⟨hparts, -⟩, -⟩ := hnames
  cases layout with
  | single =>
    obtain rfl := List.mem_singleton.mp hu
    have hstatements : (g.wholeUnit e s.converters).statements =
        [].map .frame ++ e.plan.statements g.library ++ [].map .frame := by
      rw [List.map_nil, List.append_nil, List.nil_append]
      rfl
    exact closed_of_sound hsound.plan hdrawn rfl [] [] hstatements
  | multiple =>
    rcases List.mem_cons.mp hu with rfl | hu
    · exact closed_entryUnit hsound hroot.of_append_right
    · obtain ⟨x, hx, hunit⟩ := List.mem_filterMap.mp hu
      have hplan : x.plan ∈ e.parts := by
        rw [← entries_map_plan {} e.parts]
        exact List.mem_map_of_mem hx
      cases x with
      | lines node code => cases hunit
      | part stem p =>
        cases hunit
        exact closed_of_sound (hsound.parts p hplan) (hparts p hplan) rfl
          [signature stem ++ " \x7b"] ["\x7d"] rfl

/-- A virtual method is bound to the default member of a director, and the director is defined once
in the unit of the class. -/
theorem closed_widget :
    ∃ e s files, ((nodeSetting true).extension "E" (some 0) []).run.run {} = (.ok e, s) ∧
      (nodeSetting true).render .multiple e s.converters = .ok files ∧
      (∃ r ∈ e.plan.regions,
        .bind (.method "rb_cWidget") "next" "WidgetDirector::default_next" ∈ r.body) ∧
      ∀ u ∈ (nodeSetting true).units .multiple e s.converters, u.render ∈ files ∧ u.Closed := by
  have hpasses : (nodeSetting true).runPasses "E" (some 0) []
      (bindsWith (.bind (.method "rb_cWidget") "next" "WidgetDirector::default_next") []) =
        true := by cbv
  obtain ⟨e, s, hrun, htest⟩ := exists_of_runPasses hpasses
  have hdepth := Library.exists_depth_of_all (nodeSetting true).library (by cbv)
  obtain ⟨files, hfiles⟩ := exists_render_multiple hdepth e s.converters
  exact ⟨e, s, files, hrun, hfiles, (exists_of_bindsWith htest).2, (closed_of_extension hrun hfiles).1⟩

end Setting

end RubyBinding
