import RubyBinding.Output
import RubyBinding.Proofs.Blocks
import RubyBinding.Proofs.Names

/-!
# One file or many

Whether an extension becomes one file or many, it is the same code. Each layout is given by an
equation (`singleFile_eq_ok_iff`, `multipleFiles_eq_ok_iff`), and both hold under the same
condition: that all parts of the extension can be laid out. `render_layouts` compares the two: the
parts are in the same order, and where the entry point of the many files calls the function of a
part, the single file has the lines of that function.
-/

namespace RubyBinding

namespace Setting

/-! ## Entries -/

/-- What the function of a part looks like to its caller. -/
def signature (stem : String) : String := "void " ++ registerName stem ++ "()"

namespace Entry

/-- The part that an entry is for. -/
def plan : Entry → Plan
  | lines node code => .code node code
  | part _ p => p

/-- The name that tells the files of a part apart. -/
def stem? : Entry → Option String
  | part stem _ => some stem
  | lines _ _ => none

/-- The lines of an entry where it is not called but written out. -/
def inlined (lib : Library) (x : Entry) : List String := x.plan.lines lib

/-- The files of an entry: a header that announces the function of the part, and a file with the
definitions of the part and that function. -/
def files (g : Setting) (converters : List Converter) (x : Entry) : List OutputFile :=
  match x with
  | lines _ _ => []
  | part stem p =>
    let includes := [OutputFile.includeHeader stem] ++ g.furtherIncludes ++
      converterInclude converters ++ p.includes
    [OutputFile.header stem ["", signature stem ++ ";"],
      .ofBody (OutputFile.sourceName stem) (Plan.unitText includes p.definitionLines
        ([signature stem ++ " \x7b"] ++ (part stem p).inlined g.library ++ ["\x7d"]))]

theorem node_eq (x : Entry) : x.node = x.plan.node := by
  cases x with
  | lines node code => rfl
  | part stem p => rfl

end Entry

variable {g : Setting} {e : Extension} {converters : List Converter} {files : List OutputFile}

theorem entries_map_plan (fresh : Fresh) (ps : List Plan) :
    (entries fresh ps).map Entry.plan = ps := by
  induction ps generalizing fresh with
  | nil => rfl
  | cons p ps ih =>
    cases p with
    | code node code => rw [entries, List.map_cons, ih]; rfl
    | region r parts => rw [entries, List.map_cons, ih]; rfl

/-- No stem is given out twice, nor one that was taken before. -/
theorem stems_nodup (fresh : Fresh) (ps : List Plan) :
    ((entries fresh ps).filterMap Entry.stem?).Nodup ∧
      ∀ stem ∈ (entries fresh ps).filterMap Entry.stem?, stem ∉ fresh.taken := by
  induction ps generalizing fresh with
  | nil => exact ⟨List.nodup_nil, List.forall_mem_nil _⟩
  | cons p ps ih =>
    cases p with
    | code node code => exact ih fresh
    | region r parts =>
      obtain ⟨hnodup, hout⟩ := ih (fresh.pick (identifier r.name)).2
      have hfree := Fresh.candidate_not_mem fresh.taken (identifier r.name)
      rw [entries, List.filterMap_cons_some (by rfl), List.nodup_cons, List.forall_mem_cons]
      refine ⟨⟨?_, hnodup⟩, hfree, ?_⟩
      · intro hmem
        exact hout _ hmem List.mem_cons_self
      · intro stem hmem htaken
        exact hout stem hmem (List.mem_cons_of_mem _ htaken)

/-! ## The two layouts -/

/-- The entries of an extension in the order of registration. -/
def ordered (g : Setting) (e : Extension) : List Entry :=
  (positions (fun x => g.library.rankOf x.node) (entries {} e.parts)).map Prod.fst

theorem ordered_perm (g : Setting) (e : Extension) : (g.ordered e).Perm (entries {} e.parts) := by
  have hperm := (positions_perm (fun x => g.library.rankOf x.node) (entries {} e.parts)).map
    Prod.fst
  rw [List.zipIdx_map_fst] at hperm
  exact hperm

/-- Written out one after the other, the entries have the lines of the parts. -/
theorem flatMap_inlined (g : Setting) (e : Extension) :
    (g.ordered e).flatMap (Entry.inlined g.library) = Plan.partLines g.library e.parts := by
  have hplans := entries_map_plan {} e.parts
  have hnode : (fun x : Entry => g.library.rankOf x.node) =
      fun x => Plan.rank g.library x.plan := by
    funext x
    rw [Entry.node_eq, Plan.rank]
  rw [ordered, hnode, Plan.partLines]
  conv_rhs => rw [← hplans, positions_map]
  rw [List.flatMap_map, List.flatMap_map]
  rfl

/-- The definitions of an extension are those of its root, and then those of the parts. -/
theorem definitionLines_plan (e : Extension) :
    e.plan.definitionLines = e.root.definitionLines ++
      (entries {} e.parts).flatMap fun x => x.plan.definitionLines := by
  have hparts : (entries {} e.parts).flatMap (fun x => x.plan.definitionLines) =
      e.parts.flatMap Plan.definitionLines := by
    conv_rhs => rw [← entries_map_plan {} e.parts]
    rw [List.flatMap_map]
  rw [hparts, Plan.definitionLines, Extension.plan, Plan.regions, Plan.regionsOf_eq_flatMap,
    List.flatMap_cons, List.flatMap_assoc]
  rfl

/-- **One file.** -/
theorem singleFile_eq_ok_iff :
    g.singleFile e converters = .ok files ↔
      (∀ p ∈ e.parts, p.IsLaidOut g.library) ∧
        files = [.ofBody (e.name ++ ".rb.cpp") (Plan.unitText
          (e.plan.includes ++
            if converters.isEmpty then [] else ["#include <rice/Data_Object.hpp>"])
          (Converter.definitionLines converters ++ (e.root.definitionLines ++
            (entries {} e.parts).flatMap fun x => x.plan.definitionLines))
          (splice e.root.bodyLines ((g.ordered e).flatMap (Entry.inlined g.library))))] := by
  rw [singleFile, bind_eq_ok_iff, flatMap_inlined, ← definitionLines_plan]
  constructor
  · rintro ⟨block, hblock, hfiles⟩
    obtain ⟨hall, rfl⟩ := Plan.block_region_eq_ok_iff.mp hblock
    cases hfiles
    exact ⟨hall, rfl⟩
  · rintro ⟨hall, rfl⟩
    exact ⟨_, Plan.block_region_eq_ok_iff.mpr ⟨hall, rfl⟩, rfl⟩

/-- The files of a part can be made if its block can. -/
theorem partFiles_eq_ok_iff {stem : String} {p : Plan} :
    g.partFiles converters stem p = .ok files ↔
      (∃ ls, p.block g.library = .ok ls) ∧ files = (Entry.part stem p).files g converters := by
  rw [partFiles, bind_eq_ok_iff]
  constructor
  · rintro ⟨block, hblock, hfiles⟩
    obtain rfl := Plan.lines_of_block hblock
    cases hfiles
    exact ⟨⟨_, hblock⟩, rfl⟩
  · rintro ⟨⟨block, hblock⟩, rfl⟩
    refine ⟨block, hblock, ?_⟩
    rw [Entry.files, Entry.inlined, Entry.plan, Plan.lines_of_block hblock]
    rfl

/-- **Many files.** -/
theorem multipleFiles_eq_ok_iff :
    g.multipleFiles e converters = .ok files ↔
      (∀ p ∈ e.parts, p.IsLaidOut g.library) ∧
        files = [.ofBody (e.name ++ ".rb.cpp") (Plan.unitText
          (e.root.includes ++
            ((entries {} e.parts).filterMap Entry.stem?).map OutputFile.includeHeader ++
              converterInclude converters)
          e.root.definitionLines
          (splice e.root.bodyLines ((g.ordered e).flatMap Entry.call)))] ++
            (entries {} e.parts).flatMap (Entry.files g converters) ++
              if converters.isEmpty then [] else g.converterFiles converters := by
  have hstep : ∀ (x : Entry) (fs : List OutputFile),
      (match x with
        | .part stem p => g.partFiles converters stem p
        | .lines _ _ => return []) = .ok fs ↔
          (∃ ls, x.plan.block g.library = .ok ls) ∧ fs = x.files g converters := by
    intro x fs
    cases x with
    | part stem p => exact partFiles_eq_ok_iff
    | lines node code =>
      constructor
      · intro h
        cases h
        exact ⟨⟨code, rfl⟩, rfl⟩
      · rintro ⟨-, rfl⟩
        rfl
  -- A part has its depth looked up and its block made in two places, but both are the same part's.
  have hparts : (∀ x ∈ entries {} e.parts, ∃ n, g.library.rank x.node = .ok n) ∧
      (∀ x ∈ entries {} e.parts, ∃ ls, x.plan.block g.library = .ok ls) ↔
        ∀ p ∈ e.parts, p.IsLaidOut g.library := by
    conv_rhs => rw [← entries_map_plan {} e.parts, List.forall_mem_map]
    rw [← forall₂_and]
    simp only [Entry.node_eq]
    rfl
  have hflat : (entries {} e.parts).flatMap (Entry.files g converters) =
      ((entries {} e.parts).map (Entry.files g converters)).flatten := List.flatMap_def
  rw [multipleFiles, bind_eq_ok_iff, ← hparts]
  constructor
  · rintro ⟨ofParts, hofParts, h⟩
    rw [bind_eq_ok_iff] at h
    obtain ⟨sorted, hsorted, hfiles⟩ := h
    obtain ⟨hblocks, rfl⟩ := (mapM_eq_ok_iff_map hstep).mp hofParts
    obtain ⟨hranks, rfl⟩ := Library.byDepth_eq_ok_iff.mp hsorted
    refine ⟨⟨hranks, hblocks⟩, ?_⟩
    rw [hflat]
    exact (Except.ok.inj hfiles).symm
  · rintro ⟨⟨hranks, hblocks⟩, rfl⟩
    refine ⟨_, (mapM_eq_ok_iff_map hstep).mpr ⟨hblocks, rfl⟩, ?_⟩
    rw [bind_eq_ok_iff]
    refine ⟨_, Library.byDepth_eq_ok_iff.mpr ⟨hranks, rfl⟩, ?_⟩
    rw [hflat]
    rfl

/-! ## What the layouts share -/

/-- One file and many files with the same code. -/
structure SameCode (g : Setting) (e : Extension) (converters : List Converter)
    (single multiple : List OutputFile) : Prop where
  /-- A stem belongs to one part. -/
  stems : ((entries {} e.parts).filterMap Entry.stem?).Nodup
  /-- The parts are registered in an order of their own. -/
  order : (g.ordered e).Perm (entries {} e.parts)
  /-- The entry point has its own definitions and calls the functions of the parts. -/
  entryPoint : multiple.head? = some (.ofBody (e.name ++ ".rb.cpp") (Plan.unitText
    (e.root.includes ++ ((entries {} e.parts).filterMap Entry.stem?).map OutputFile.includeHeader ++
      converterInclude converters)
    e.root.definitionLines
    (splice e.root.bodyLines ((g.ordered e).flatMap Entry.call))))
  /-- The file of a part has the definitions of the part, and its lines in the function. -/
  ofPart : ∀ stem p, Entry.part stem p ∈ entries {} e.parts →
    .ofBody (OutputFile.sourceName stem) (Plan.unitText
      ([OutputFile.includeHeader stem] ++ g.furtherIncludes ++ converterInclude converters ++
        p.includes)
      p.definitionLines
      ([signature stem ++ " \x7b"] ++ (Entry.part stem p).inlined g.library ++ ["\x7d"])) ∈ multiple
  /-- The only file has the definitions of all the others, and the lines of a part where the entry
  point has the call. -/
  onlyFile : single = [.ofBody (e.name ++ ".rb.cpp") (Plan.unitText
    (e.plan.includes ++ if converters.isEmpty then [] else ["#include <rice/Data_Object.hpp>"])
    (Converter.definitionLines converters ++ (e.root.definitionLines ++
      (entries {} e.parts).flatMap fun x => x.plan.definitionLines))
    (splice e.root.bodyLines ((g.ordered e).flatMap (Entry.inlined g.library))))]

/-- **The layouts agree.** An extension can be written to one file just in case that it can be
written to many, and it is the same code. -/
theorem render_layouts (g : Setting) (e : Extension) (converters : List Converter) :
    ((∃ files, g.render .single e converters = .ok files) ↔
      ∃ files, g.render .multiple e converters = .ok files) ∧
    ∀ single multiple, g.render .single e converters = .ok single →
      g.render .multiple e converters = .ok multiple → g.SameCode e converters single multiple := by
  constructor
  · constructor
    · rintro ⟨files, h⟩
      exact ⟨_, multipleFiles_eq_ok_iff.mpr ⟨(singleFile_eq_ok_iff.mp h).1, rfl⟩⟩
    · rintro ⟨files, h⟩
      exact ⟨_, singleFile_eq_ok_iff.mpr ⟨(multipleFiles_eq_ok_iff.mp h).1, rfl⟩⟩
  · intro single multiple hsingle hmultiple
    obtain ⟨-, honly⟩ := singleFile_eq_ok_iff.mp hsingle
    obtain ⟨-, rfl⟩ := multipleFiles_eq_ok_iff.mp hmultiple
    refine ⟨(stems_nodup {} e.parts).1, ordered_perm g e, rfl, ?_, honly⟩
    intro stem p hmem
    refine List.mem_append_left _ (List.mem_append_right _ ?_)
    exact List.mem_flatMap.mpr ⟨_, hmem, List.mem_cons_of_mem _ List.mem_cons_self⟩

/-- Where every declaration has a depth, an extension can be written to many files. -/
theorem exists_render_multiple (hdepth : ∀ i, ∃ n, g.library.depth i = .ok n) (e : Extension)
    (converters : List Converter) : ∃ files, g.render .multiple e converters = .ok files :=
  ⟨_, multipleFiles_eq_ok_iff.mpr ⟨Plan.forall_isLaidOut_of_depth hdepth e.parts, rfl⟩⟩

/-- An extension with a module, a class in it, and a line of code. -/
def moduleAndLine : Extension where
  root := { name := "E", node := none, body := [.frame "void Init_E() \x7b", .frame "\x7d"] }
  parts :=
    [.region { name := "M", node := none, body := [.defineModule "rb_mM" "M" none] }
      [.region { name := "M::C", node := none, body := [.defineClass "rb_cC" "M::C" none none "C"] }
        []],
      .code none ["\tsetup();"]]

theorem sameCode_moduleAndLine :
    ∃ (g : Setting) (single multiple : List OutputFile),
      g.render .single moduleAndLine [] = .ok single ∧
      g.render .multiple moduleAndLine [] = .ok multiple ∧
      g.SameCode moduleAndLine [] single multiple := by
  let g : Setting := default
  have hdepth := Library.exists_depth_of_all g.library rfl
  have hall := Plan.forall_isLaidOut_of_depth hdepth moduleAndLine.parts
  have hsingle : g.render .single moduleAndLine [] = .ok _ := singleFile_eq_ok_iff.mpr ⟨hall, rfl⟩
  have hmultiple : g.render .multiple moduleAndLine [] = .ok _ :=
    multipleFiles_eq_ok_iff.mpr ⟨hall, rfl⟩
  exact ⟨g, _, _, hsingle, hmultiple, (render_layouts g _ _).2 _ _ hsingle hmultiple⟩

end Setting

end RubyBinding
