import Mathlib
import RubyBinding.Proofs.Conversions
import RubyBinding.Proofs.Identifiers
import RubyBinding.Proofs.Layouts

/-!
# Names of generated files

An extension that is written to many files has a file for its entry point, and a header and a source
file under each *stem*: those of its parts, and one for the conversions. The stems of the parts are
told apart when they are handed out, but the names that are made of them are not:

* the entry point is named by the extension, and nothing keeps that from being the name of a source
  file (`_math.rb.cpp` is the entry point of `_math`, and the source file of a part `math`);
* the stem of the conversions is fixed, and a part may have it;
* the macro that guards a header is made of its stem without leading underscores, so `Node` and
  `_Node` share one.

`distinct_iff` says exactly when the names of the files and the macros are different; the functions
of the parts always are.
-/

namespace RubyBinding

namespace OutputFile

variable {f : OutputFile} {stem : String}

/-- Whether a file is a header, judged by its name. -/
def isHeader (f : OutputFile) : Bool := (Text.before? ".rb.hpp".toList f.name.toList).isSome

/-- The macro that guards a header: the one that its second line asks for. -/
def guard? (f : OutputFile) : Option String :=
  if f.isHeader then
    (Text.after? "// This file generated by rubric\n#ifndef ".toList f.contents.toList).map
      fun rest => String.ofList (rest.takeWhile (· != '\n'))
  else none

theorem isHeader_of_hpp {name : String} (h : f.name = name ++ ".rb.hpp") : f.isHeader = true := by
  rw [isHeader, h, Text.before?, String.toList_append, List.reverse_append, Text.after?_append]
  rfl

theorem isHeader_of_cpp {name : String} (h : f.name = name ++ ".rb.cpp") : f.isHeader = false := by
  rw [isHeader, h, Text.before?, String.toList_append, List.reverse_append]
  rfl

theorem headerName_eq (stem : String) : headerName stem = "_" ++ stem ++ ".rb.hpp" := rfl

theorem sourceName_eq (stem : String) : sourceName stem = "_" ++ stem ++ ".rb.cpp" := rfl

theorem headerName_injective {a b : String} (h : headerName a = headerName b) : a = b := by
  rw [headerName_eq, headerName_eq, String.append_left_inj, String.append_right_inj] at h
  exact h

/-- What is left of a stem in the macro of its header. -/
def bare (stem : String) : List Char := stem.toList.dropWhile (· == '_')

theorem guardName_eq (stem : String) :
    guardName stem = "__RICE_GENERATED_" ++ String.ofList (bare stem) ++ "_HPP__" := rfl

theorem guardName_eq_iff {a b : String} : guardName a = guardName b ↔ bare a = bare b := by
  constructor
  · intro h
    have hlists := congrArg String.toList h
    simp only [guardName_eq, String.toList_append, String.toList_ofList] at hlists
    exact List.append_cancel_left (List.append_cancel_right hlists)
  · intro h
    rw [guardName_eq, guardName_eq, h]

/-- A word has no line break. -/
theorem ne_newline_of_isWord {word : String} (h : Text.IsWord word) :
    ∀ c ∈ word.toList, c ≠ '\n' := by
  rintro c hc rfl
  have hnewline := h _ hc
  revert hnewline
  decide

theorem isWord_guardName (hstem : Text.IsWord stem) : Text.IsWord (guardName stem) := by
  have hbare : Text.IsWord (String.ofList (bare stem)) := by
    intro c hc
    rw [String.toList_ofList] at hc
    exact hstem c ((List.dropWhile_sublist _).mem hc)
  have hlead : Text.IsWord "__RICE_GENERATED_" := by decide
  exact (hlead.append hbare).append (by decide)

/-- A header is guarded by the macro for its stem. -/
theorem guard?_header (hstem : Text.IsWord stem) (guarded : List String) :
    (header stem guarded).guard? = some (guardName stem) := by
  have hheader : (header stem guarded).isHeader = true := isHeader_of_hpp (headerName_eq stem)
  have hcontents : ∃ rest, (header stem guarded).contents.toList =
      "// This file generated by rubric\n#ifndef ".toList ++
        ((guardName stem).toList ++ '\n' :: rest) := by
    have hlead : "// This file generated by rubric\n#ifndef ".toList =
        "// This file generated by rubric\n".toList ++ "#ifndef ".toList := rfl
    have hnewline : "\n".toList = ['\n'] := rfl
    rw [header, ofBody, hlead]
    simp only [List.cons_append, String.intercalate_cons_cons, String.toList_append, hnewline,
      List.append_assoc, List.nil_append]
    exact ⟨_, rfl⟩
  obtain ⟨rest, hrest⟩ := hcontents
  rw [guard?, if_pos hheader, hrest, Text.after?_append, Option.map_some]
  rw [List.takeWhile_append_of_pos, List.takeWhile_cons_of_neg, List.append_nil,
    String.ofList_toList]
  · simp
  · intro c hc
    simpa using ne_newline_of_isWord (isWord_guardName hstem) c hc

end OutputFile

namespace Setting

variable {g : Setting} {e : Extension} {converters : List Converter} {files : List OutputFile}

/-- The stems of the parts of an extension. -/
def partStems (e : Extension) : List String := (entries {} e.parts).filterMap Entry.stem?

/-- All stems that files are named by. -/
def fileStems (e : Extension) (converters : List Converter) : List String :=
  partStems e ++ if converters.isEmpty then [] else [converterStem]

/-- A stem is a word. -/
theorem isWord_of_mem_stems (fresh : Fresh) (ps : List Plan) :
    ∀ stem ∈ (entries fresh ps).filterMap Entry.stem?, Text.IsWord stem := by
  induction ps generalizing fresh with
  | nil => exact List.forall_mem_nil _
  | cons p ps ih =>
    cases p with
    | code node code => exact ih fresh
    | region r parts =>
      rw [entries, List.filterMap_cons_some (by rfl)]
      refine List.forall_mem_cons.mpr ⟨?_, ih _⟩
      obtain ⟨k, hk⟩ := Fresh.candidate_eq_numbered fresh.taken (identifier r.name)
      rw [show (fresh.pick (identifier r.name)).1 = _ from hk]
      exact Fresh.isWord_numbered (isWord_identifier _) k

/-- What is read off the files under each stem, one stem after the other. -/
theorem filterMap_files {β : Type} (g : Setting) (e : Extension) (converters : List Converter)
    (read : OutputFile → Option β) (of : String → List β)
    (hparts : ∀ stem p, .part stem p ∈ entries {} e.parts →
      ((Entry.part stem p).files g converters).filterMap read = of stem)
    (hconverters : (g.converterFiles converters).filterMap read = of converterStem) :
    ((entries {} e.parts).flatMap (Entry.files g converters) ++
      if converters.isEmpty then [] else g.converterFiles converters).filterMap read =
        (fileStems e converters).flatMap of := by
  have hentries : ∀ xs : List Entry,
      (∀ stem p, .part stem p ∈ xs → ((Entry.part stem p).files g converters).filterMap read =
        of stem) →
      (xs.flatMap (Entry.files g converters)).filterMap read =
        (xs.filterMap Entry.stem?).flatMap of := by
    intro xs hxs
    induction xs with
    | nil => rfl
    | cons x xs ih =>
      have hrest := ih fun stem p hmem => hxs stem p (List.mem_cons_of_mem _ hmem)
      rw [List.flatMap_cons, List.filterMap_append, hrest]
      cases x with
      | lines node code => rfl
      | part stem p =>
        rw [hxs stem p List.mem_cons_self, List.filterMap_cons_some (by rfl), List.flatMap_cons]
  rw [List.filterMap_append, hentries _ hparts, fileStems, List.flatMap_append, partStems]
  split
  · rfl
  · rw [hconverters, List.flatMap_singleton]

/-- The names of the files: that of the entry point, and two under each stem. -/
theorem names_eq (h : g.render .multiple e converters = .ok files) :
    files.map OutputFile.name = (e.name ++ ".rb.cpp") ::
      (fileStems e converters).flatMap fun stem =>
        [OutputFile.headerName stem, OutputFile.sourceName stem] := by
  obtain ⟨-, rfl⟩ := multipleFiles_eq_ok_iff.mp h
  have hnames := filterMap_files g e converters (some ∘ OutputFile.name)
    (fun stem => [OutputFile.headerName stem, OutputFile.sourceName stem]) (fun _ _ _ => rfl) rfl
  rw [List.append_assoc, List.map_append, ← List.filterMap_eq_map, hnames]
  rfl

/-- The macros of the headers: one for each stem. -/
theorem guards_eq (h : g.render .multiple e converters = .ok files) :
    files.filterMap OutputFile.guard? = (fileStems e converters).map OutputFile.guardName := by
  obtain ⟨-, rfl⟩ := multipleFiles_eq_ok_iff.mp h
  have source_none : ∀ {f : OutputFile} {name : String}, f.name = name ++ ".rb.cpp" →
      f.guard? = none := by
    intro f name hname
    rw [OutputFile.guard?, OutputFile.isHeader_of_cpp hname]
    rfl
  have pair : ∀ {stem : String} {guarded : List String} {f : OutputFile}, Text.IsWord stem →
      f.name = OutputFile.sourceName stem →
      [.header stem guarded, f].filterMap OutputFile.guard? = [OutputFile.guardName stem] := by
    intro stem guarded f hstem hname
    rw [List.filterMap_cons_some (OutputFile.guard?_header hstem guarded),
      List.filterMap_cons_none (source_none (hname.trans (OutputFile.sourceName_eq stem)))]
    rfl
  have hguards := filterMap_files g e converters OutputFile.guard?
    (fun stem => [OutputFile.guardName stem])
    (fun stem p hmem => pair (isWord_of_mem_stems {} e.parts stem
      (List.mem_filterMap.mpr ⟨_, hmem, rfl⟩)) rfl)
    (pair (by decide) rfl)
  have hmain : ∀ body, (OutputFile.ofBody (e.name ++ ".rb.cpp") body).guard? = none :=
    fun _ => source_none rfl
  rw [List.append_assoc, List.singleton_append, List.filterMap_cons_none (hmain _), hguards]
  exact List.map_eq_flatMap.symm

/-- The stem of the conversions is told apart from the others if no part has it. -/
theorem fileStems_nodup_iff :
    (fileStems e converters).Nodup ↔ (converters ≠ [] → converterStem ∉ partStems e) := by
  have hparts : (partStems e).Nodup := (stems_nodup {} e.parts).1
  unfold fileStems
  cases converters with
  | nil => simpa using hparts
  | cons c cs =>
    rw [List.isEmpty_cons, if_neg Bool.false_ne_true, List.nodup_append]
    constructor
    · rintro ⟨-, -, hdisjoint⟩ - hmem
      exact hdisjoint _ hmem _ (List.mem_singleton_self _) rfl
    · intro hnot
      refine ⟨hparts, List.nodup_singleton _, ?_⟩
      rintro a ha _ hb rfl
      rw [List.mem_singleton.mp hb] at ha
      exact hnot (List.cons_ne_nil _ _) ha

theorem cpp_ne_hpp (a b : String) : a ++ ".rb.cpp" ≠ b ++ ".rb.hpp" := by
  intro heq
  have hlists := congrArg String.toList heq
  rw [String.toList_append, String.toList_append] at hlists
  have hlength : ".rb.cpp".toList.length = ".rb.hpp".toList.length := by decide
  have hends : ".rb.cpp".toList ≠ ".rb.hpp".toList := by decide
  exact hends (List.append_inj_right' hlists hlength)

theorem sourceName_eq_iff {name stem : String} :
    name ++ ".rb.cpp" = OutputFile.sourceName stem ↔ name = "_" ++ stem := by
  rw [OutputFile.sourceName_eq]
  exact String.append_left_inj _

/-- The files under different stems have different names. -/
theorem disjoint_iff {a b : String} :
    List.Disjoint [OutputFile.headerName a, OutputFile.sourceName a]
      [OutputFile.headerName b, OutputFile.sourceName b] ↔ a ≠ b := by
  constructor
  · rintro hdisjoint rfl
    exact hdisjoint List.mem_cons_self List.mem_cons_self
  · intro hne n ha hb
    simp only [List.mem_cons, List.not_mem_nil, or_false] at ha hb
    rcases ha with rfl | rfl <;> rcases hb with hb | hb
    · exact hne (OutputFile.headerName_injective hb)
    · exact cpp_ne_hpp _ _ hb.symm
    · exact cpp_ne_hpp _ _ hb
    · exact hne ((String.append_right_inj _).mp (sourceName_eq_iff.mp hb))

/-- The names of headers and source files are different if the stems are, and that of another source
file is different from them if it is named by none of the stems. -/
theorem names_nodup_iff {name : String} {stems : List String} :
    ((name ++ ".rb.cpp") :: stems.flatMap fun stem =>
      [OutputFile.headerName stem, OutputFile.sourceName stem]).Nodup ↔
        (∀ stem ∈ stems, name ≠ "_" ++ stem) ∧ stems.Nodup := by
  have hmem : (name ++ ".rb.cpp") ∈ stems.flatMap (fun stem =>
      [OutputFile.headerName stem, OutputFile.sourceName stem]) ↔
        ∃ stem ∈ stems, name = "_" ++ stem := by
    rw [List.mem_flatMap]
    refine exists_congr fun stem => and_congr_right fun _ => ?_
    rw [List.mem_cons, List.mem_singleton, sourceName_eq_iff]
    exact or_iff_right (cpp_ne_hpp _ _)
  have hstems : (stems.flatMap fun stem =>
      [OutputFile.headerName stem, OutputFile.sourceName stem]).Nodup ↔ stems.Nodup := by
    rw [List.nodup_flatMap]
    constructor
    · rintro ⟨-, hpairwise⟩
      exact hpairwise.imp fun hdisjoint => disjoint_iff.mp hdisjoint
    · intro hnodup
      refine ⟨fun stem _ => ?_, hnodup.imp fun hne => disjoint_iff.mpr hne⟩
      refine List.nodup_cons.mpr ⟨fun hmem => ?_, List.nodup_singleton _⟩
      exact cpp_ne_hpp _ _ (List.mem_singleton.mp hmem).symm
  rw [List.nodup_cons, hmem, hstems]
  simp only [not_exists, not_and, ne_eq]

/-- **When generated names are different.** The functions of the parts always are. The names of the
files are different exactly if the extension is named as no source file, and no part has the stem of
the conversions; the macros of the headers are exactly if the stems differ in more than leading
underscores. -/
theorem distinct_iff (h : g.render .multiple e converters = .ok files) :
    ((partStems e).map registerName).Nodup ∧
      ((files.map OutputFile.name).Nodup ↔
        (∀ stem ∈ fileStems e converters, e.name ≠ "_" ++ stem) ∧
          (converters ≠ [] → converterStem ∉ partStems e)) ∧
      ((files.filterMap OutputFile.guard?).Nodup ↔
        ((fileStems e converters).map OutputFile.bare).Nodup) := by
  refine ⟨?_, ?_, ?_⟩
  · refine (stems_nodup {} e.parts).1.map fun a b heq => ?_
    exact (String.append_right_inj _).mp heq
  · rw [names_eq h, names_nodup_iff, fileStems_nodup_iff]
  · have hmacros : ∀ stems : List String, (stems.map OutputFile.guardName).Nodup ↔
        (stems.map OutputFile.bare).Nodup := by
      intro stems
      rw [List.Nodup, List.Nodup, List.pairwise_map, List.pairwise_map]
      exact List.Pairwise.iff fun a b => not_congr OutputFile.guardName_eq_iff
    rw [guards_eq h, hmacros]

/-- Whether a plan is one of an extension of a name, with parts under given stems. -/
def hasStems (name : String) (stems : List String) (p : Plan) (_ : List Converter) : Bool :=
  match p with
  | .region r parts => r.name = name && (entries {} parts).filterMap Entry.stem? = stems
  | .code _ _ => false

theorem of_hasStems {name : String} {stems : List String}
    (h : hasStems name stems e.plan converters = true) : e.name = name ∧ partStems e = stems := by
  simpa [hasStems, Extension.plan, Extension.name, partStems] using h

/-- Two classes with a conversion: no name or macro is given twice. -/
theorem distinct_node :
    ∃ e s files, ((nodeSetting false).extension "E" (some 0) []).run.run {} = (.ok e, s) ∧
      (nodeSetting false).render .multiple e s.converters = .ok files ∧
      (files.map OutputFile.name).Nodup ∧ (files.filterMap OutputFile.guard?).Nodup := by
  have hpasses : (nodeSetting false).runPasses "E" (some 0) []
      (hasStems "E" ["Node", "Widget"]) = true := by cbv
  obtain ⟨e, s, hrun, htest⟩ := exists_of_runPasses hpasses
  obtain ⟨hname, hstems⟩ := of_hasStems htest
  have hdepth := Library.exists_depth_of_all (nodeSetting false).library (by cbv)
  obtain ⟨files, hfiles⟩ := exists_render_multiple hdepth e s.converters
  obtain ⟨-, hnames, hguards⟩ := distinct_iff hfiles
  refine ⟨e, s, files, hrun, hfiles, hnames.mpr ?_, hguards.mpr ?_⟩
  · rw [hname, fileStems, hstems]
    exact ⟨by split <;> decide, fun _ => by decide⟩
  · rw [fileStems, hstems]
    split <;> decide

/-- Two classes whose names differ in a leading underscore. -/
def underscoreSetting : Setting where
  library.tree :=
    let t := (DeclTree.empty.add DeclTree.root "RGB" (.record false [])).2
    (t.add DeclTree.root "_RGB" (.record false [])).2

/-- The headers of two classes may be guarded by one macro, so that the second is empty where the
first is included. -/
theorem not_nodup_guards_underscore :
    ∃ e s files, (underscoreSetting.extension "shapes" (some 0) []).run.run {} = (.ok e, s) ∧
      underscoreSetting.render .multiple e s.converters = .ok files ∧
      Text.IsIdentifier e.name ∧ ¬ (files.filterMap OutputFile.guard?).Nodup := by
  have hpasses : underscoreSetting.runPasses "shapes" (some 0) []
      (hasStems "shapes" ["RGB", "_RGB"]) = true := by cbv
  obtain ⟨e, s, hrun, htest⟩ := exists_of_runPasses hpasses
  obtain ⟨hname, hstems⟩ := of_hasStems htest
  have hdepth := Library.exists_depth_of_all underscoreSetting.library (by cbv)
  obtain ⟨files, hfiles⟩ := exists_render_multiple hdepth e s.converters
  refine ⟨e, s, files, hrun, hfiles, ?_, ?_⟩
  · rw [hname]
    decide
  · rw [guards_eq hfiles, fileStems, hstems]
    split <;> decide

end Setting

end RubyBinding
