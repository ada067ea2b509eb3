import RubyBinding.Output
import RubyBinding.Proofs.Blocks
import RubyBinding.Proofs.Parallels
import RubyBinding.Proofs.Words

/-!
# Files for two libraries side by side

Where two libraries differ in Ruby names only, so do the files that are generated for them: they
have the same names, and line by line they are the same but for a Ruby name in a statement that
defines something or in a call from a director (`SameLine`). There is one lemma for each step from a
plan to its files, up to `Setting.Parallel.generate`.
-/

namespace RubyBinding

open Code (Statement Definition Director Override literal commaList)

/-! ## Lines -/

/-- The statement in which a director asks Ruby. -/
def Code.Override.asking (o : Override) : String :=
  let call := "getSelf().call(" ++ commaList (literal o.ruby :: o.arguments) ++ ")"
  if o.result.isVoid then "\t\t" ++ call ++ ";"
  else "\t\treturn from_ruby< " ++ o.result.spell ++ " >( " ++ call ++ " );"

theorem Code.Override.dispatch_eq (o : Override) :
    o.dispatch = ["\tvirtual " ++ o.head o.name, o.asking, "\t\x7d"] := rfl

/-- Lines that are the same, but for the Ruby name in a statement that defines something, or the one
that a director asks for. -/
inductive SameLine (R : String → String → Prop) : String → String → Prop
  | same (line : String) : SameLine R line line
  | statement {s s' : Statement} (h : s.Alike R s') : SameLine R s.text s'.text
  | asking {o o' : Override} (h : o.Alike R o') : SameLine R o.asking o'.asking

section Lines

variable {R Q : String → String → Prop}

theorem Code.Statement.Alike.mono {s s' : Statement} (h : s.Alike Q s')
    (hQ : ∀ a b, Q a b → R a b) : s.Alike R s' := by
  cases h with
  | same => exact .same _
  | defineModule h => exact .defineModule (hQ _ _ h) _ _
  | defineClass h => exact .defineClass (hQ _ _ h) _ _ _ _
  | defineEnum h => exact .defineEnum (hQ _ _ h) _ _ _
  | bind h => exact .bind (hQ _ _ h) _ _

theorem SameLine.mono {l l' : String} (h : SameLine Q l l') (hQ : ∀ a b, Q a b → R a b) :
    SameLine R l l' := by
  cases h with
  | same => exact .same _
  | statement h => exact .statement (h.mono hQ)
  | asking h => exact .asking ⟨h.rest, hQ _ _ h.ruby⟩

/-- Two texts that are the same but for a name in quotes. -/
def SameQuoting (R : String → String → Prop) (l l' : String) : Prop :=
  ∃ before ruby ruby' after, R ruby ruby' ∧ l = before ++ literal ruby ++ after ∧
    l' = before ++ literal ruby' ++ after

namespace SameQuoting

variable {ruby ruby' l l' : String}

theorem name (h : R ruby ruby') : SameQuoting R (literal ruby) (literal ruby') :=
  ⟨"", ruby, ruby', "", h, by rw [String.append_empty, String.empty_append],
    by rw [String.append_empty, String.empty_append]⟩

theorem prepend (x : String) (h : SameQuoting R l l') : SameQuoting R (x ++ l) (x ++ l') := by
  obtain ⟨before, ruby, ruby', after, h, rfl, rfl⟩ := h
  refine ⟨x ++ before, ruby, ruby', after, h, ?_, ?_⟩
  · simp only [String.append_assoc]
  · simp only [String.append_assoc]

theorem append (x : String) (h : SameQuoting R l l') : SameQuoting R (l ++ x) (l' ++ x) := by
  obtain ⟨before, ruby, ruby', after, h, rfl, rfl⟩ := h
  refine ⟨before, ruby, ruby', after ++ x, h, ?_, ?_⟩
  · simp only [String.append_assoc]
  · simp only [String.append_assoc]

/-- A list of texts whose first one is a name in quotes. -/
theorem commaList (h : R ruby ruby') (texts : List String) :
    SameQuoting R (commaList (literal ruby :: texts)) (commaList (literal ruby' :: texts)) := by
  cases texts with
  | nil =>
    rw [Code.commaList, Code.commaList, String.intercalate_singleton,
      String.intercalate_singleton]
    exact name h
  | cons text texts =>
    rw [Code.commaList, Code.commaList, String.intercalate_cons_cons,
      String.intercalate_cons_cons]
    exact .append _ (.append _ (.name h))

end SameQuoting

theorem Code.Statement.Alike.quotes {s s' : Statement} (h : s.Alike R s') :
    s = s' ∨ SameQuoting R s.text s'.text := by
  cases h with
  | same s => exact .inl rfl
  | @defineModule ruby ruby' h handle parent =>
    refine .inr (.prepend _ ?_)
    cases parent with
    | none => exact .append _ (.prepend _ (.name h))
    | some p => exact .append _ (.prepend _ (.name h))
  | @defineClass ruby ruby' h handle cpp superclass parent =>
    refine .inr (.prepend _ ?_)
    cases parent with
    | none => exact .append _ (.prepend _ (.name h))
    | some p => exact .append _ (.prepend _ (.name h))
  | defineEnum h => exact .inr (.append _ (.append _ (.prepend _ (.name h))))
  | bind h => exact .inr (.append _ (.append _ (.append _ (.prepend _ (.name h)))))

theorem Code.Override.Alike.quotes {o o' : Override} (h : o.Alike R o') :
    SameQuoting R o.asking o'.asking := by
  have hcall : SameQuoting R ("getSelf().call(" ++ commaList (literal o.ruby :: o.arguments) ++ ")")
      ("getSelf().call(" ++ commaList (literal o'.ruby :: o.arguments) ++ ")") :=
    .append _ (.prepend _ (.commaList h.ruby _))
  rw [h.rest]
  unfold Override.asking
  dsimp only
  split
  · exact .append _ (.prepend _ hcall)
  · exact .append _ (.prepend _ hcall)

theorem SameLine.quotes {l l' : String} (h : SameLine R l l') : l = l' ∨ SameQuoting R l l' := by
  cases h with
  | same line => exact .inl rfl
  | statement h =>
    rcases h.quotes with rfl | h
    · exact .inl rfl
    · exact .inr h
  | asking h => exact .inr h.quotes

/-! ## Blocks -/

/-- A character that is not blank survives trimming. -/
theorem mem_trimmed {c : Char} {l : String} (hc : Text.isBlank c = false) (h : c ∈ l.toList) :
    c ∈ (Text.trimmed l).toList := by
  rw [Text.trimmed, String.toList_ofList]
  exact Text.mem_trim h hc

theorem quote_mem_literal (before ruby after : String) :
    '"' ∈ (before ++ literal ruby ++ after).toList := by
  simp [literal]

/-- Whether a line is blank, or closes a block, does not depend on the names in it. -/
theorem SameLine.trimmed {l l' : String} (h : SameLine R l l') :
    (Text.trimmed l).isEmpty = (Text.trimmed l').isEmpty ∧
      (Text.trimmed l = "\x7d" ↔ Text.trimmed l' = "\x7d") := by
  have visible : ∀ before ruby after, (Text.trimmed (before ++ literal ruby ++ after)).isEmpty =
      false ∧ Text.trimmed (before ++ literal ruby ++ after) ≠ "\x7d" := by
    intro before ruby after
    have hmem := mem_trimmed (by rfl) (quote_mem_literal before ruby after)
    refine ⟨?_, ?_⟩
    · rw [Bool.eq_false_iff]
      intro hempty
      rw [String.isEmpty_iff.mp hempty] at hmem
      cases hmem
    · intro hbrace
      rw [hbrace] at hmem
      revert hmem
      decide
  rcases h.quotes with rfl | ⟨before, ruby, ruby', after, -, rfl, rfl⟩
  · exact ⟨rfl, Iff.rfl⟩
  · obtain ⟨hempty, hbrace⟩ := visible before ruby after
    obtain ⟨hempty', hbrace'⟩ := visible before ruby' after
    exact ⟨by rw [hempty, hempty'], ⟨fun h => absurd h hbrace, fun h => absurd h hbrace'⟩⟩

theorem forall₂_takeWhile {α β : Type} {S : α → β → Prop} {p : α → Bool} {q : β → Bool}
    {l : List α} {l' : List β} (h : List.Forall₂ S l l') (hp : ∀ a b, S a b → p a = q b) :
    List.Forall₂ S (l.takeWhile p) (l'.takeWhile q) ∧
      List.Forall₂ S (l.dropWhile p) (l'.dropWhile q) := by
  induction h with
  | nil => exact ⟨.nil, .nil⟩
  | @cons a b l l' hab hl ih =>
    rw [List.takeWhile_cons, List.takeWhile_cons, List.dropWhile_cons, List.dropWhile_cons,
      ← hp a b hab]
    cases p a with
    | true => exact ⟨.cons hab ih.1, ih.2⟩
    | false => exact ⟨.nil, .cons hab hl⟩

/-- What stays at the end of a body corresponds. -/
theorem forall₂_splitClosing {body body' : List String}
    (h : List.Forall₂ (SameLine R) body body') :
    List.Forall₂ (SameLine R) (splitClosing body).1 (splitClosing body').1 ∧
      List.Forall₂ (SameLine R) (splitClosing body).2 (splitClosing body').2 := by
  obtain ⟨htake, hdrop⟩ := forall₂_takeWhile (List.rel_reverse h)
    (p := fun l => (Text.trimmed l).isEmpty) (q := fun l => (Text.trimmed l).isEmpty)
    fun _ _ hl => hl.trimmed.1
  unfold splitClosing
  dsimp only
  revert hdrop
  generalize body.reverse.dropWhile (fun l => (Text.trimmed l).isEmpty) = rest
  generalize body'.reverse.dropWhile (fun l => (Text.trimmed l).isEmpty) = rest'
  intro hdrop
  cases hdrop with
  | nil => exact ⟨h, .nil⟩
  | @cons last last' before before' hlast hbefore =>
    dsimp only
    by_cases hbrace : Text.trimmed last = "\x7d"
    · rw [if_pos hbrace, if_pos (hlast.trimmed.2.mp hbrace)]
      exact ⟨List.rel_reverse hbefore, .cons hlast (List.rel_reverse htake)⟩
    · rw [if_neg hbrace, if_neg (mt hlast.trimmed.2.mpr hbrace)]
      exact ⟨h, .nil⟩

theorem forall₂_splice {body body' parts parts' : List String}
    (hbody : List.Forall₂ (SameLine R) body body')
    (hparts : List.Forall₂ (SameLine R) parts parts') :
    List.Forall₂ (SameLine R) (splice body parts) (splice body' parts') := by
  obtain ⟨hlead, hclosing⟩ := forall₂_splitClosing hbody
  exact List.rel_append (List.rel_append hlead hparts) hclosing

theorem forall₂_same_lines (ls : List String) : List.Forall₂ (SameLine R) ls ls :=
  List.forall₂_same.mpr fun l _ => .same l

/-! ## Regions -/

theorem Region.Alike.bodyLines {r r' : Region} (h : r.Alike R r') :
    List.Forall₂ (SameLine R) r.bodyLines r'.bodyLines :=
  forall₂_map h.body fun _ _ hs => .statement hs

theorem Code.Override.Alike.lines {o o' : Override} (h : o.Alike R o') (cpp : String) :
    List.Forall₂ (SameLine R) ("" :: (o.dispatch ++ o.implementation cpp))
      ("" :: (o'.dispatch ++ o'.implementation cpp)) := by
  have hhead : "\tvirtual " ++ o'.head o'.name = "\tvirtual " ++ o.head o.name := by rw [h.rest]; rfl
  have himplementation : o'.implementation cpp = o.implementation cpp := by rw [h.rest]; rfl
  rw [Override.dispatch_eq, Override.dispatch_eq, hhead, himplementation]
  refine .cons (.same _) (.cons (.same _) (.cons (.asking h) ?_))
  exact forall₂_same_lines _

theorem Code.Definition.Alike.lines {d d' : Definition} (h : d.Alike R d') :
    List.Forall₂ (SameLine R) d.lines d'.lines := by
  cases h with
  | same d => exact forall₂_same_lines _
  | @director d d' h =>
    obtain ⟨name, cpp, ctor, overrides⟩ := d
    obtain ⟨name', cpp', ctor', overrides'⟩ := d'
    obtain ⟨hrest, hoverrides⟩ := h
    cases hrest
    refine List.rel_append (List.rel_append ?_ ?_) (forall₂_same_lines _)
    · exact forall₂_same_lines _
    · exact List.rel_flatMap hoverrides fun o o' ho => ho.lines cpp

theorem Region.Alike.definitionLines {r r' : Region} (h : r.Alike R r') :
    List.Forall₂ (SameLine R) r.definitionLines r'.definitionLines :=
  List.rel_flatMap h.definitions fun _ _ hd => hd.lines

/-- Regions stay alike when both get the same code. -/
theorem Region.Alike.withCode {r r' : Region} (h : r.Alike R r') (code : CodeLists) :
    (r.withCode code).Alike R (r'.withCode code) where
  rest := by
    have hhandle : r'.handle = r.handle := by rw [h.rest]
    unfold Region.withCode
    rw [hhandle, h.rest]
  definitions := List.rel_append h.definitions (Code.Definition.alike_all _)
  body := by
    have hhandle : r'.handle = r.handle := by rw [h.rest]
    show List.Forall₂ _ (r.body ++ _) (r'.body ++ CodeLists.body r'.handle code)
    rw [hhandle]
    exact List.rel_append h.body (Code.Statement.alike_all _)

end Lines

/-! ## Plans -/

section Plans

variable {R : String → String → Prop} {lib lib' : Library} {p p' : Plan}

/-- Plans for libraries with the same code, by induction: their regions are alike, and so on for
their parts. -/
theorem Plan.Alike.induction {motive : Plan → Plan → Prop}
    (hcode : ∀ i, (lib'.note i).customCode = (lib.note i).customCode)
    (step : ∀ r r' ps ps', r.Alike R r' →
      List.Forall₂ (fun p p' => p.Alike R lib lib' p' ∧ motive p p') ps ps' →
      motive (.region r ps) (.region r' ps'))
    (h : p.Alike R lib lib' p') : motive p p' := by
  induction h with
  | region hr hlength hparts ih =>
    refine step _ _ _ _ hr (List.forall₂_iff_zip.mpr ⟨hlength, fun hp => ?_⟩)
    exact ⟨hparts _ _ hp, ih _ _ hp⟩
  | coded hi hr hlength hparts ih =>
    rw [hcode]
    refine step _ _ _ _ (hr.withCode _) (List.forall₂_iff_zip.mpr ⟨hlength, fun hp => ?_⟩)
    exact ⟨hparts _ _ hp, ih _ _ hp⟩

theorem Plan.Alike.node (h : p.Alike R lib lib' p') : p'.node = p.node := by
  have same : ∀ r r' : Region, r.Alike R r' → r'.node = r.node := by
    intro r r' hr
    rw [hr.rest]
  cases h with
  | region hr => exact same _ _ hr
  | @coded i r r' ps ps' hi hr => exact same r r' hr

theorem Plan.Alike.regions (hcode : ∀ i, (lib'.note i).customCode = (lib.note i).customCode)
    (h : p.Alike R lib lib' p') : List.Forall₂ (Region.Alike R) p.regions p'.regions := by
  refine Plan.Alike.induction
    (motive := fun p p' => List.Forall₂ (Region.Alike R) p.regions p'.regions) hcode ?_ h
  intro r r' ps ps' hr ih
  rw [Plan.regions, Plan.regions, Plan.regionsOf_eq_flatMap, Plan.regionsOf_eq_flatMap]
  exact .cons hr (List.rel_flatMap ih fun _ _ hp => hp.2)

theorem Plan.Alike.includes (hcode : ∀ i, (lib'.note i).customCode = (lib.note i).customCode)
    (h : p.Alike R lib lib' p') : p'.includes = p.includes := by
  have hincludes := map_eq_of_forall₂ (h.regions hcode) (f := Region.includes)
    (k := Region.includes) fun r r' hr => by rw [hr.rest]
  rw [Plan.includes, Plan.includes, List.flatMap_def, List.flatMap_def, hincludes]

theorem Plan.Alike.definitionLines
    (hcode : ∀ i, (lib'.note i).customCode = (lib.note i).customCode)
    (h : p.Alike R lib lib' p') :
    List.Forall₂ (SameLine R) p.definitionLines p'.definitionLines :=
  List.rel_flatMap (h.regions hcode) fun _ _ hr => hr.definitionLines

/-! ## Sorting by depth -/

/-- Sorting by keys that correspond. -/
theorem forall₂_mergeSort {α β : Type} {S : α → β → Prop} {q : α → α → Bool} {q' : β → β → Bool}
    {l : List α} {l' : List β} (h : List.Forall₂ S l l')
    (hq : ∀ a b a' b', S a a' → S b b' → q a b = q' a' b') :
    List.Forall₂ S (l.mergeSort q) (l'.mergeSort q') := by
  -- Both are the two sides of a sorted list of pairs.
  obtain ⟨hlength, hzip⟩ := List.forall₂_iff_zip.mp h
  have hfst : ((l.zip l').mergeSort fun x y => q x.1 y.1).map Prod.fst = l.mergeSort q := by
    rw [List.map_mergeSort (s := q) fun _ _ _ _ => rfl, List.map_fst_zip (Nat.le_of_eq hlength)]
  have hsnd : ((l.zip l').mergeSort fun x y => q x.1 y.1).map Prod.snd = l'.mergeSort q' := by
    rw [List.map_mergeSort (s := q') fun x hx y hy => hq _ _ _ _ (hzip hx) (hzip hy),
      List.map_snd_zip (Nat.le_of_eq hlength.symm)]
  rw [← hfst, ← hsnd, List.forall₂_map_left_iff, List.forall₂_map_right_iff, List.forall₂_same]
  exact fun x hx => hzip (List.mem_mergeSort.mp hx)

theorem Library.Variant.byDepth {α β : Type} {S : α → β → Prop} (h : lib.Variant lib')
    {node : α → Option DeclId} {node' : β → Option DeclId} {items : List α} {items' : List β}
    (hitems : List.Forall₂ S items items') (hnode : ∀ a b, S a b → node' b = node a) :
    Agreeing (List.Forall₂ S) (lib.byDepth node items) (lib'.byDepth node' items') := by
  have hranked : Agreeing (List.Forall₂ fun x y : Nat × _ => x.1 = y.1 ∧ S x.2 y.2)
      (items.mapM fun a => do return (← lib.rank (node a), a))
      (items'.mapM fun b => do return (← lib'.rank (node' b), b)) := by
    refine .mapM hitems fun a b hab => ?_
    rw [hnode a b hab, h.rank]
    refine .bind_same _ fun n => ?_
    exact .ok ⟨rfl, hab⟩
  refine .bind hranked fun ranked ranked' hr => .ok ?_
  refine forall₂_map (forall₂_mergeSort hr ?_) fun _ _ hxy => hxy.2
  rintro x y x' y' ⟨hx, -⟩ ⟨hy, -⟩
  rw [hx, hy]

/-- **The block of a plan.** -/
theorem Plan.Alike.block (hv : lib.Variant lib')
    (hcode : ∀ i, (lib'.note i).customCode = (lib.note i).customCode)
    (h : p.Alike R lib lib' p') :
    Agreeing (List.Forall₂ (SameLine R)) (p.block lib) (p'.block lib') := by
  refine Plan.Alike.induction (motive := fun p p' => Agreeing (List.Forall₂ (SameLine R))
    (p.block lib) (p'.block lib')) hcode ?_ h
  intro r r' ps ps' hr ih
  rw [Plan.block, Plan.block, Plan.blocks_eq_map, Plan.blocks_eq_map]
  have hblocks : List.Forall₂ (fun x y => y.1 = x.1 ∧
      Agreeing (List.Forall₂ (SameLine R)) x.2 y.2)
      (ps.map fun p => (p.node, p.block lib)) (ps'.map fun p => (p.node, p.block lib')) :=
    forall₂_map ih fun _ _ hp => ⟨hp.1.node, hp.2⟩
  refine .bind (hv.byDepth hblocks fun _ _ hxy => hxy.1) fun ordered ordered' hordered => ?_
  refine .bind (.mapM hordered fun _ _ hxy => hxy.2) fun ls ls' hls => .ok ?_
  exact forall₂_splice hr.bodyLines (List.rel_flatten hls)

end Plans

/-! ## Files -/

/-- Files with the same name and the same lines, but for Ruby names. -/
structure OutputFile.Alike (R : String → String → Prop) (f f' : OutputFile) : Prop where
  name : f'.name = f.name
  lines : ∃ ls ls', f.contents = "\n".intercalate ls ∧ f'.contents = "\n".intercalate ls' ∧
    List.Forall₂ (SameLine R) ls ls'

namespace OutputFile

variable {R Q : String → String → Prop}

theorem Alike.mono {f f' : OutputFile} (h : f.Alike Q f') (hQ : ∀ a b, Q a b → R a b) :
    f.Alike R f' where
  name := h.name
  lines := by
    obtain ⟨ls, ls', hcontents, hcontents', hlines⟩ := h.lines
    exact ⟨ls, ls', hcontents, hcontents', hlines.imp fun _ _ hl => hl.mono hQ⟩

theorem Alike.refl (f : OutputFile) : f.Alike R f where
  name := rfl
  lines := ⟨[f.contents], [f.contents], String.intercalate_singleton.symm,
    String.intercalate_singleton.symm, forall₂_same_lines _⟩

theorem Alike.all (fs : List OutputFile) : List.Forall₂ (OutputFile.Alike R) fs fs :=
  List.forall₂_same.mpr fun f _ => .refl f

theorem intercalate_concat {sep : String} {ls : List String} (h : ls ≠ []) (l : String) :
    sep.intercalate (ls ++ [l]) = sep.intercalate ls ++ sep ++ l := by
  induction ls with
  | nil => exact absurd rfl h
  | cons first rest ih =>
    cases rest with
    | nil => rw [List.singleton_append, String.intercalate_cons_cons,
        String.intercalate_singleton, String.intercalate_singleton]
    | cons second rest =>
      have hrest := ih (List.cons_ne_nil second rest)
      rw [List.cons_append] at hrest
      rw [List.cons_append, List.cons_append, String.intercalate_cons_cons, hrest,
        String.intercalate_cons_cons]
      simp only [String.append_assoc]

/-- The lines of a file: one that says where it comes from, its own lines, and an empty one. -/
theorem contents_ofBody (name : String) {ls : List String} (h : ls ≠ []) :
    (ofBody name ("\n".intercalate ls)).contents =
      "\n".intercalate ("// This file generated by rubric" :: ls ++ [""]) := by
  cases ls with
  | nil => exact absurd rfl h
  | cons first rest =>
    rw [intercalate_concat (List.cons_ne_nil _ _), String.append_empty,
      String.intercalate_cons_cons]
    show "// This file generated by rubric\n" ++ _ ++ "\n" = _
    simp only [String.append_assoc]
    rfl

theorem contents_ofUnit (name : String) (includes definitions block : List String) :
    (ofBody name (Plan.unitText includes definitions block)).contents =
      "\n".intercalate ("// This file generated by rubric" ::
        (includes.eraseDups ++ [""] ++ definitions ++ [""] ++ block) ++ [""]) :=
  contents_ofBody name (by simp)

theorem Alike.ofUnit (name : String) (includes : List String)
    {definitions definitions' block block' : List String}
    (hdefinitions : List.Forall₂ (SameLine R) definitions definitions')
    (hblock : List.Forall₂ (SameLine R) block block') :
    (ofBody name (Plan.unitText includes definitions block)).Alike R
      (ofBody name (Plan.unitText includes definitions' block')) where
  name := rfl
  lines := by
    refine ⟨_, _, contents_ofUnit name includes definitions block,
      contents_ofUnit name includes definitions' block', ?_⟩
    refine List.rel_append (.cons (.same _) ?_) (forall₂_same_lines _)
    exact List.rel_append (List.rel_append (List.rel_append (forall₂_same_lines _) hdefinitions)
      (forall₂_same_lines _)) hblock

end OutputFile

/-- Entries with the same stem whose plans are alike. -/
inductive Setting.Entry.Alike (R : String → String → Prop) (lib lib' : Library) :
    Setting.Entry → Setting.Entry → Prop
  | part (stem : String) {p p' : Plan} (h : p.Alike R lib lib' p') :
      Alike R lib lib' (.part stem p) (.part stem p')

namespace Setting

variable {R : String → String → Prop} {lib lib' : Library} {g g' : Setting}

theorem entries_alike {ps ps' : List Plan} (h : List.Forall₂ (Plan.Alike R lib lib') ps ps')
    (fresh : Fresh) :
    List.Forall₂ (Entry.Alike R lib lib') (entries fresh ps) (entries fresh ps') := by
  induction h generalizing fresh with
  | nil => exact .nil
  | @cons p p' ps ps' hp _ ih =>
    have named : ∀ r r' parts parts', (Plan.region r parts).Alike R lib lib' (.region r' parts') →
        r'.name = r.name → List.Forall₂ (Entry.Alike R lib lib')
          (entries fresh (.region r parts :: ps)) (entries fresh (.region r' parts' :: ps')) := by
      intro r r' parts parts' hp hname
      rw [entries, entries, hname]
      exact .cons (.part _ hp) (ih _)
    have same : ∀ r r' : Region, r.Alike R r' → r'.name = r.name := by
      intro r r' hr
      rw [hr.rest]
    cases hp with
    | region hr hlength hparts => exact named _ _ _ _ (.region hr hlength hparts) (same _ _ hr)
    | @coded i r r' parts parts' hi hr hlength hparts =>
      exact named _ _ _ _ (.coded hi hr hlength hparts) (same r r' hr)

theorem Entry.Alike.node {a a' : Entry} (h : a.Alike R lib lib' a') : a'.node = a.node := by
  cases h with
  | part stem h => exact h.node

theorem Entry.Alike.call {a a' : Entry} (h : a.Alike R lib lib' a') : a'.call = a.call := by
  cases h with
  | part stem h => rfl

/-- What is read off the stems only. -/
theorem Entry.Alike.filterMap {γ : Type} {f : Entry → Option γ} {es es' : List Entry}
    (h : List.Forall₂ (Entry.Alike R lib lib') es es')
    (hf : ∀ stem p p', f (.part stem p) = f (.part stem p')) :
    es'.filterMap f = es.filterMap f := by
  have hboth : List.Forall₂ Eq (es.filterMap f) (es'.filterMap f) := by
    refine forall₂_filterMap (h.imp fun a a' ha => ?_)
    cases ha with
    | @part stem p p' hp =>
      rw [hf stem p p']
      cases f (.part stem p') with
      | none => exact .none
      | some c => exact .some rfl
  rw [List.forall₂_eq_eq_eq] at hboth
  exact hboth.symm

namespace Variant

theorem sourceIncludes (h : Variant g g') : g'.sourceIncludes = g.sourceIncludes := by
  rw [Setting.sourceIncludes, Setting.sourceIncludes, h.sources]

theorem converterFiles (h : Variant g g') : g'.converterFiles = g.converterFiles := by
  funext converters
  rw [Setting.converterFiles, Setting.converterFiles, h.sourceIncludes, h.furtherIncludes]

/-- The files of a part. -/
theorem partFiles (h : Variant g g')
    (hcode : ∀ i, (g'.library.note i).customCode = (g.library.note i).customCode)
    (converters : List Converter) (stem : String) {p p' : Plan}
    (hp : p.Alike R g.library g'.library p') :
    Agreeing (List.Forall₂ (OutputFile.Alike R)) (g.partFiles converters stem p)
      (g'.partFiles converters stem p') := by
  unfold Setting.partFiles
  dsimp only
  rw [h.furtherIncludes, hp.includes hcode]
  refine .bind (hp.block h.library hcode) fun block block' hblock => .ok ?_
  refine .cons (.refl _) (.cons (.ofUnit _ _ (hp.definitionLines hcode) ?_) .nil)
  exact List.rel_append (List.rel_append (forall₂_same_lines _) hblock) (forall₂_same_lines _)

/-- **The files of an extension**, given the conversions that its code needs. -/
theorem render (h : Variant g g')
    (hcode : ∀ i, (g'.library.note i).customCode = (g.library.note i).customCode)
    {e e' : Extension} (hroot : e.root.Alike R e'.root)
    (hparts : List.Forall₂ (Plan.Alike R g.library g'.library) e.parts e'.parts)
    (layout : Layout) (converters : List Converter) :
    Agreeing (List.Forall₂ (OutputFile.Alike R)) (g.render layout e converters)
      (g'.render layout e' converters) := by
  have hname : e'.name = e.name := by rw [Extension.name, hroot.rest]; rfl
  have hplan : e.plan.Alike R g.library g'.library e'.plan := by
    obtain ⟨hlength, hzip⟩ := List.forall₂_iff_zip.mp hparts
    exact .region hroot hlength fun p p' hp => hzip hp
  cases layout with
  | single =>
    show Agreeing _ (g.singleFile e converters) (g'.singleFile e' converters)
    unfold singleFile
    dsimp only
    rw [hname, hplan.includes hcode]
    refine .bind (hplan.block h.library hcode) fun block block' hblock => .ok ?_
    refine .cons (.ofUnit _ _ ?_ hblock) .nil
    exact List.rel_append (forall₂_same_lines _) (hplan.definitionLines hcode)
  | multiple =>
    show Agreeing _ (g.multipleFiles e converters) (g'.multipleFiles e' converters)
    have hentries := entries_alike hparts {}
    have hincludes : e'.root.includes = e.root.includes := by rw [hroot.rest]
    unfold multipleFiles
    dsimp only
    rw [hname, hincludes, h.converterFiles, Entry.Alike.filterMap hentries fun _ _ _ => rfl]
    refine .bind (R := List.Forall₂ (List.Forall₂ (OutputFile.Alike R)))
      (.mapM hentries fun a a' ha => ?_) fun files files' hfiles => ?_
    · cases ha with
      | part stem hp => exact h.partFiles hcode converters stem hp
    refine .bind (h.library.byDepth hentries fun _ _ ha => ha.node)
      fun ordered ordered' hordered => .ok ?_
    have hcalls : ordered'.flatMap Entry.call = ordered.flatMap Entry.call := by
      rw [List.flatMap_def, List.flatMap_def, map_eq_of_forall₂ hordered fun _ _ ha => ha.call.symm]
    rw [hcalls]
    refine List.rel_append (List.rel_append (.cons ?_ .nil) (List.rel_flatten hfiles))
      (OutputFile.Alike.all _)
    exact .ofUnit _ _ hroot.definitionLines (forall₂_splice hroot.bodyLines (forall₂_same_lines _))

end Variant

/-- **Generating in parallel settings** fails alike, or gives files with the same names that are the
same, line by line, but for Ruby names. -/
theorem Parallel.generate (h : Parallel R g g')
    (hcode : ∀ i, (g'.library.note i).customCode = (g.library.note i).customCode)
    (layout : Layout) (name : String) (ns : Option DeclId) (modules : List ModuleSpec) :
    Agreeing (List.Forall₂ (OutputFile.Alike R)) (g.generate layout name ns modules)
      (g'.generate layout name ns modules) := by
  obtain ⟨hresult, hsession⟩ := h.extension name ns modules {}
  unfold Setting.generate
  revert hresult hsession
  generalize (g.extension name ns modules).run.run {} = x
  generalize (g'.extension name ns modules).run.run {} = y
  intro hresult hsession
  obtain ⟨result, s⟩ := x
  obtain ⟨result', s'⟩ := y
  dsimp only at hresult hsession
  subst hsession
  cases hresult with
  | error e => exact .error e
  | ok hextension => exact h.render hcode hextension.2.1 hextension.2.2 layout s.converters

end Setting

end RubyBinding
