import RubyBinding.Ty.Spelling
import RubyBinding.Proofs.Orderly
import RubyBinding.Proofs.Paths

/-!
# Plain types and their spellings

A plain type is a builtin type or a name, pointers over it, and perhaps a reference over these; only
the innermost of them may be to a constant. Its spelling is an optional `const`, the spelling of
what it is based on, and a run of declarators. A reader finds the three parts again if the middle
one does not look like either of the others (`Ty.IsBaseText`), which is so of all builtin types, and
of names that are no spelling of one (`Ty.IsName`). So plain types are read as they were written
(`Ty.ofSpelling_spell`).
-/

namespace RubyBinding

theorem Text.eq_append_of_before? {tail cs r : List Char} (h : before? tail cs = some r) :
    cs = r ++ tail := by
  obtain ⟨rest, hrest, rfl⟩ := Option.map_eq_some_iff.mp h
  have hcs := congrArg List.reverse (eq_append_of_after? hrest)
  rwa [List.reverse_reverse, List.reverse_append, List.reverse_reverse] at hcs

namespace Ty

/-! ## Plain types -/

/-- What a builtin type is called without a sign and without `int`, which says nothing beside other
words. -/
def builtinNames : List (List String) :=
  [[], ["void"], ["bool"], ["char"], ["short"], ["long"], ["long", "long"], ["float"], ["double"]]

/-- Whether some words spell a builtin type. -/
def SpellBuiltin (ws : List String) : Prop :=
  ws.filter (· != "int") ∈ builtinNames ∨
    ws.head? ∈ [some "signed", some "unsigned"] ∧ ws.tail.filter (· != "int") ∈ builtinNames

instance (ws : List String) : Decidable (SpellBuiltin ws) :=
  inferInstanceAs (Decidable (_ ∨ _))

/-- A text no end of which is taken for a qualifier or a declarator. -/
structure IsBaseText (cs : List Char) : Prop where
  nonempty : cs ≠ []
  noBlanks : Text.trim cs = cs
  noLeadingConst : ¬ "const ".toList <+: cs
  noDeclarator : ∀ c ∈ cs.getLast?, isDeclarator c = false
  /-- A `const` at the end belongs to a longer word. -/
  noTrailingConst : ∀ c, Text.isBlank c ∨ isDeclarator c → ¬ c :: "const".toList <:+ cs

/-- A name that is read as a name. -/
structure IsName (name : String) : Prop extends IsBaseText name.toList where
  notBuiltin : ¬ SpellBuiltin ((Text.words name.toList).map String.ofList)

/-- A builtin type or a named one. -/
inductive IsBase : Ty → Prop
  | void : IsBase void
  | bool : IsBase bool
  | float : IsBase float
  | double : IsBase double
  | integer (w : Width) (isSigned : Bool) : IsBase (integer w isSigned)
  | named {name : String} (h : IsName name) : IsBase (named name)

/-- Pointers over a base. The innermost one may be to a constant. -/
inductive IsPointers : Ty → Prop
  | innermost {t : Ty} (h : IsBase t) (isConst : Bool) : IsPointers (pointer t isConst)
  | outer {t : Ty} (h : IsPointers t) : IsPointers (pointer t false)

/-- A base, any number of pointers, and a reference or none. -/
inductive IsPlain : Ty → Prop
  | base {t : Ty} (h : IsBase t) : IsPlain t
  | pointers {t : Ty} (h : IsPointers t) : IsPlain t
  | referenceToBase {t : Ty} (h : IsBase t) (isConst isRvalue : Bool) :
    IsPlain (reference t isConst isRvalue)
  | referenceToPointers {t : Ty} (h : IsPointers t) (isRvalue : Bool) :
    IsPlain (reference t false isRvalue)

variable {t : Ty} {cs ds : List Char} {isConst : Bool}

/-! ## Bases -/

theorem filter_dropInt (ws : List String) :
    (dropInt ws).filter (· != "int") = ws.filter (· != "int") := by
  unfold dropInt
  split
  · rfl
  · simp [List.filter_filter]

/-- The words that are read as a builtin type, the sign apart. -/
theorem isSome_builtinWords_iff (isSigned : Bool) (ws : List String) :
    (builtinWords isSigned (dropInt ws)).isSome ↔ ws.filter (· != "int") ∈ builtinNames := by
  constructor
  · intro h
    have hread : ∀ vs, (builtinWords isSigned vs).isSome →
        vs.filter (· != "int") ∈ builtinNames := by
      intro vs hvs
      revert hvs
      fun_cases builtinWords isSigned vs with
      | case11 => exact nofun
      | _ => exact fun _ => by decide
    exact filter_dropInt ws ▸ hread _ h
  · intro h
    have hnames : ∀ vs ∈ builtinNames, (builtinWords isSigned vs).isSome := by
      cases isSigned <;> decide
    unfold dropInt
    split
    next hone =>
      -- The only word is a name as it stands, or it is the `int` that was dropped.
      obtain ⟨w, rfl⟩ := List.length_eq_one_iff.mp hone
      by_cases hint : w = "int"
      · rw [hint]
        rfl
      · refine hnames _ ?_
        rwa [List.filter_cons_of_pos (by simpa using hint)] at h
    next => exact hnames _ h

theorem spellBuiltin_cons_iff {sign : String} (hsign : sign ∈ ["signed", "unsigned"])
    (ws : List String) :
    SpellBuiltin (sign :: ws) ↔ ws.filter (· != "int") ∈ builtinNames := by
  have hnot : (sign :: ws).filter (· != "int") ∉ builtinNames := by
    have hkeep : ∀ s ∈ ["signed", "unsigned"], s != "int" := by decide
    have hnames : ∀ vs ∈ builtinNames, ∀ v ∈ vs.head?, v ∉ ["signed", "unsigned"] := by decide
    have hfilter : (sign :: ws).filter (· != "int") = sign :: ws.filter (· != "int") :=
      List.filter_cons_of_pos (hkeep sign hsign)
    rw [hfilter]
    exact fun hmem => hnames _ hmem sign rfl hsign
  have hhead : (sign :: ws).head? ∈ [some "signed", some "unsigned"] :=
    List.mem_map_of_mem (f := some) hsign
  rw [SpellBuiltin, or_iff_right hnot, and_iff_right hhead, List.tail_cons]

/-- **What is read as a builtin type** is what spells one. -/
theorem isSome_builtin?_iff (hne : cs ≠ []) :
    (builtin? cs).isSome ↔ SpellBuiltin ((Text.words cs).map String.ofList) := by
  unfold builtin?
  rw [if_neg (by simpa using hne)]
  split
  next ws heq => rw [heq, spellBuiltin_cons_iff (by decide), isSome_builtinWords_iff]
  next ws heq => rw [heq, spellBuiltin_cons_iff (by decide), isSome_builtinWords_iff]
  next hunsigned hsigned =>
    rw [isSome_builtinWords_iff, SpellBuiltin, or_iff_left]
    rintro ⟨hhead, -⟩
    rcases List.mem_pair.mp hhead with hhead | hhead
    · obtain ⟨ws, hws⟩ := List.head?_eq_some_iff.mp hhead
      exact hsigned ws hws
    · obtain ⟨ws, hws⟩ := List.head?_eq_some_iff.mp hhead
      exact hunsigned ws hws

/-- Each builtin type is read as it is written. -/
theorem ofBase_spell (h : IsBase t) : ofBase t.spell.toList = t := by
  cases h with
  | integer w isSigned => cases w <;> cases isSigned <;> rfl
  | named h =>
    have hnone := mt (isSome_builtin?_iff h.nonempty).mp h.notBuiltin
    rw [spell, ofBase, Option.not_isSome_iff_eq_none.mp hnone, Option.getD_none,
      String.ofList_toList]
  | _ => rfl

/-- It is enough if a text does not end in `const` at all. -/
theorem IsBaseText.of_not_suffix (hnonempty : cs ≠ []) (hblanks : Text.trim cs = cs)
    (hlead : ¬ "const ".toList <+: cs) (hlast : cs.getLast?.any isDeclarator = false)
    (htrail : ¬ "const".toList <:+ cs) : IsBaseText cs where
  nonempty := hnonempty
  noBlanks := hblanks
  noLeadingConst := hlead
  noDeclarator c hc := by rwa [Option.mem_def.mp hc] at hlast
  noTrailingConst _ _ hc := htrail ((List.suffix_cons _ _).trans hc)

theorem isBaseText_spell (h : IsBase t) : IsBaseText t.spell.toList := by
  cases h with
  | integer w isSigned =>
    cases w <;> cases isSigned <;>
      exact .of_not_suffix (by decide) (by decide) (by decide) (by decide) (by decide)
  | named h => exact h.toIsBaseText
  | _ => exact .of_not_suffix (by decide) (by decide) (by decide) (by decide) (by decide)

/-! ## Declarators -/

/-- A declarator is no blank. -/
theorem isBlank_of_isDeclarator {c : Char} (h : isDeclarator c) : Text.isBlank c = false := by
  rw [isDeclarator, Bool.or_eq_true, beq_iff_eq, beq_iff_eq] at h
  rcases h with rfl | rfl <;> rfl

/-- Declarators are cut off the end of a text that has none of its own there. -/
theorem splitDeclarators_append (hblanks : Text.trim cs = cs)
    (hlast : ∀ c ∈ cs.getLast?, isDeclarator c = false) (hds : ∀ d ∈ ds, isDeclarator d) :
    splitDeclarators (cs ++ ds) = (cs, ds) := by
  have htail : ∀ d ∈ ds.reverse, (isDeclarator d || Text.isBlank d) = true := fun d hd => by
    rw [hds d (List.mem_reverse.mp hd), Bool.true_or]
  rw [splitDeclarators, Text.dropEndWhile, List.reverse_append, List.dropWhile_append_of_pos htail,
    List.takeWhile_append_of_pos htail]
  rcases List.eq_nil_or_concat' cs with rfl | ⟨init, last, rfl⟩
  · rw [List.reverse_nil, List.dropWhile_nil, List.takeWhile_nil, List.append_nil,
      List.reverse_reverse, List.filter_eq_self.mpr hds, List.reverse_nil]
  · have hblank : Text.isBlank last = false := by
      simpa using (Text.trim_eq_self_iff.mp hblanks).2
    have hstop : (isDeclarator last || Text.isBlank last) = false := by
      rw [hlast last List.getLast?_concat, hblank]
      rfl
    rw [List.reverse_concat, List.dropWhile_cons_of_neg (by simp [hstop]),
      List.takeWhile_cons_of_neg (by simp [hstop]), List.append_nil, List.reverse_reverse,
      List.filter_eq_self.mpr hds, List.reverse_cons, List.reverse_reverse]

/-- A text that ends in declarators does not end in `const`. -/
theorem not_suffix_of_isDeclarator (hne : ds ≠ []) (hds : ∀ d ∈ ds, isDeclarator d)
    (cs : List Char) : ¬ "const".toList <:+ cs ++ ds := by
  rintro ⟨front, hfront⟩
  obtain ⟨init, last, rfl⟩ := (List.eq_nil_or_concat' ds).resolve_left hne
  have hlast : 't' = last := by simpa using congrArg List.getLast? hfront
  have hdeclarator := hds last (List.mem_append_right _ List.mem_cons_self)
  rw [← hlast] at hdeclarator
  cases hdeclarator

/-- Pointers are wrapped around a type before what follows them, and what follows them is not to a
constant. -/
theorem wrap_append (hne : ds ≠ []) (hds : ∀ d ∈ ds, d = '*') (es : List Char) :
    wrap t isConst (ds ++ es) = wrap (wrap t isConst ds) false es := by
  induction ds generalizing t isConst with
  | nil => exact absurd rfl hne
  | cons d ds ih =>
    obtain ⟨rfl, hrest⟩ := List.forall_mem_cons.mp hds
    rw [List.cons_append, wrap, wrap]
    cases ds with
    | nil => rfl
    | cons d' ds => exact ih (List.cons_ne_nil _ _) hrest

/-! ## Qualifiers -/

/-- Nothing is taken off a text that does not end in a `const` of its own. -/
theorem dropOuterConst_eq_self
    (h : ∀ c, Text.isBlank c ∨ isDeclarator c → ¬ c :: "const".toList <:+ cs) :
    dropOuterConst cs = cs := by
  unfold dropOuterConst
  split
  · rfl
  next rest hrest =>
    split
    · rfl
    next c hc =>
      rw [if_neg]
      intro hcut
      refine h c (Bool.or_eq_true_iff.mp hcut) ?_
      obtain ⟨init, rfl⟩ := List.getLast?_eq_some_iff.mp hc
      rw [Text.eq_append_of_before? hrest, List.append_assoc]
      exact List.suffix_append _ _

theorem dropTrailingConst_eq (h : IsBaseText cs) : dropTrailingConst cs = (false, cs) := by
  have hnone : Text.before? " const".toList cs = none := by
    refine Option.eq_none_iff_forall_ne_some.mpr fun rest hrest => ?_
    refine h.noTrailingConst ' ' (.inl rfl) ?_
    rw [Text.eq_append_of_before? hrest]
    exact List.suffix_append _ _
  rw [dropTrailingConst, hnone]

/-- The qualifier in front of a base is told apart from it. -/
theorem dropLeadingConst_constPart (hblanks : Text.trim cs = cs)
    (hlead : isConst = false → ¬ "const ".toList <+: cs) :
    dropLeadingConst ((constPart isConst).toList ++ cs) = (isConst, cs) := by
  cases isConst with
  | true =>
    have hafter : Text.after? "const ".toList ("const ".toList ++ cs) = some cs :=
      Text.after?_append _ _
    rw [dropLeadingConst, constPart, if_pos rfl, hafter]
    dsimp only
    rw [hblanks]
  | false =>
    have hnone : Text.after? "const ".toList cs = none := by
      rw [← Option.not_isSome_iff_eq_none, Text.isSome_after?_iff]
      exact hlead rfl
    have hempty : (constPart false).toList ++ cs = cs := rfl
    rw [hempty, dropLeadingConst, hnone]

/-! ## Reading -/

theorem trim_constPart_append (hne : isConst → cs ≠ []) (hblanks : Text.trim cs = cs) :
    Text.trim ((constPart isConst).toList ++ cs) = (constPart isConst).toList ++ cs := by
  cases isConst with
  | true =>
    have hword : "const".toList ≠ [] ∧ Text.trim "const".toList = "const".toList := by decide
    exact Text.trim_append hword.1 (hne rfl) hword.2 hblanks [' ']
  | false => exact hblanks

theorem trim_append_declarators (hcs : Text.trim cs = cs) (hds : ∀ d ∈ ds, isDeclarator d) :
    Text.trim (cs ++ ds) = cs ++ ds := by
  have htrim : Text.trim ds = ds := by
    refine Text.trim_eq_self_iff.mpr ⟨fun h => ?_, fun h => ?_⟩
    · exact isBlank_of_isDeclarator (hds _ (List.head_mem h))
    · exact isBlank_of_isDeclarator (hds _ (List.getLast_mem h))
  by_cases hne : cs = []
  · rwa [hne, List.nil_append]
  by_cases hnil : ds = []
  · rwa [hnil, List.append_nil]
  · simpa using Text.trim_append hne hnil hcs htrim []

/-- **What is read from a qualifier, a base and declarators.** -/
theorem ofSpelling_eq_wrap (h : IsBaseText cs) (hds : ∀ d ∈ ds, isDeclarator d)
    (hconst : isConst → ds ≠ []) {text : String}
    (htext : text.toList = (constPart isConst).toList ++ cs ++ ds) :
    ofSpelling text = wrap (ofBase cs) isConst ds := by
  have hbase := trim_constPart_append (fun _ : isConst = true => h.nonempty) h.noBlanks
  have hlast : ∀ c ∈ ((constPart isConst).toList ++ cs).getLast?, isDeclarator c = false := by
    rw [List.getLast?_append_of_ne_nil _ h.nonempty]
    exact h.noDeclarator
  have houter : dropOuterConst ((constPart isConst).toList ++ cs ++ ds) =
      (constPart isConst).toList ++ cs ++ ds := by
    refine dropOuterConst_eq_self fun c hc hsuffix => ?_
    by_cases hnil : ds = []
    · -- Without declarators there is no qualifier either.
      subst hnil
      cases isConst with
      | true => exact hconst rfl rfl
      | false => exact h.noTrailingConst c hc (by simpa [constPart] using hsuffix)
    · exact not_suffix_of_isDeclarator hnil hds _ ((List.suffix_cons _ _).trans hsuffix)
  -- The parts are taken off from the outside inwards.
  rw [ofSpelling, htext, trim_append_declarators hbase hds, houter,
    splitDeclarators_append hbase hlast hds]
  dsimp only
  rw [hbase, dropLeadingConst_constPart h.noBlanks fun _ => h.noLeadingConst]
  dsimp only
  rw [dropTrailingConst_eq h]
  dsimp only
  rw [Bool.or_false]

/-! ## Writing -/

theorem spell_pointer_of_isBase (h : IsBase t) (isConst : Bool) :
    (pointer t isConst).spell = constPart isConst ++ t.spell ++ "*" := by
  cases h <;> rfl

theorem spell_pointer_of_isPointers (h : IsPointers t) :
    (pointer t false).spell = t.spell ++ "*" := by
  cases h <;> rw [spell] <;> simp [constPart]

/-- What a type is written as: a qualifier, a base, and declarators that make the type of it. -/
structure WrittenAs (t base : Ty) (isConst : Bool) (ds : List Char) : Prop where
  isBase : IsBase base
  spell : t.spell.toList = (constPart isConst).toList ++ base.spell.toList ++ ds
  wrap : Ty.wrap base isConst ds = t

theorem IsPointers.exists_writtenAs (h : IsPointers t) :
    ∃ base isConst ds, ds ≠ [] ∧ (∀ d ∈ ds, d = '*') ∧ WrittenAs t base isConst ds := by
  induction h with
  | @innermost base h isConst =>
    refine ⟨base, isConst, ['*'], List.cons_ne_nil _ _, List.forall_mem_singleton.mpr rfl, h, ?_,
      rfl⟩
    rw [spell_pointer_of_isBase h, String.toList_append, String.toList_append]
    rfl
  | @outer t h ih =>
    obtain ⟨base, isConst, ds, hne, hds, hbase, hspell, hwrap⟩ := ih
    refine ⟨base, isConst, ds ++ ['*'], List.append_ne_nil_of_left_ne_nil hne _,
      List.forall_mem_append.mpr ⟨hds, List.forall_mem_singleton.mpr rfl⟩, hbase, ?_, ?_⟩
    · rw [spell_pointer_of_isPointers h, String.toList_append, hspell, List.append_assoc]
      rfl
    · rw [wrap_append hne hds, hwrap]
      rfl

/-- The declarators of a reference. -/
def referenceSign (isRvalue : Bool) : List Char := if isRvalue then ['&', '&'] else ['&']

theorem toList_spell_reference (t : Ty) (isConst isRvalue : Bool) :
    (reference t isConst isRvalue).spell.toList =
      (constPart isConst).toList ++ t.spell.toList ++ referenceSign isRvalue := by
  rw [spell, String.toList_append, String.toList_append]
  cases isRvalue <;> rfl

theorem wrap_reference (t : Ty) (isConst isRvalue : Bool) :
    wrap t isConst (referenceSign isRvalue) = reference t isConst isRvalue := by
  cases isRvalue <;> rfl

theorem IsPlain.exists_writtenAs (h : IsPlain t) :
    ∃ (base : Ty) (isConst : Bool) (ds : List Char), (∀ d ∈ ds, isDeclarator d) ∧
      (isConst → ds ≠ []) ∧ WrittenAs t base isConst ds := by
  have hstar : ∀ {ds : List Char}, (∀ d ∈ ds, d = '*') → ∀ d ∈ ds, isDeclarator d :=
    fun hds d hd => hds d hd ▸ rfl
  have hsign : ∀ isRvalue, ∀ d ∈ referenceSign isRvalue, isDeclarator d :=
    fun isRvalue => List.all_eq_true.mp (by cases isRvalue <;> rfl)
  have hsome : ∀ isRvalue, referenceSign isRvalue ≠ [] := by decide
  cases h with
  | base h => exact ⟨t, false, [], List.forall_mem_nil _, nofun, h, (List.append_nil _).symm, rfl⟩
  | pointers h =>
    obtain ⟨base, isConst, ds, hne, hds, hwritten⟩ := h.exists_writtenAs
    exact ⟨base, isConst, ds, hstar hds, fun _ => hne, hwritten⟩
  | @referenceToBase base h isConst isRvalue =>
    exact ⟨base, isConst, _, hsign isRvalue, fun _ => hsome isRvalue, h,
      toList_spell_reference base isConst isRvalue, wrap_reference base isConst isRvalue⟩
  | @referenceToPointers t h isRvalue =>
    obtain ⟨base, isConst, ds, hne, hds, hbase, hspell, hwrap⟩ := h.exists_writtenAs
    have hempty : (constPart false).toList = [] := rfl
    refine ⟨base, isConst, ds ++ referenceSign isRvalue,
      List.forall_mem_append.mpr ⟨hstar hds, hsign isRvalue⟩,
      fun _ => List.append_ne_nil_of_left_ne_nil hne _, hbase, ?_, ?_⟩
    · rw [toList_spell_reference, hspell, hempty, List.nil_append, List.append_assoc _ ds]
    · rw [wrap_append hne hds, hwrap, wrap_reference]

/-- **Plain types are read as they were written.** -/
theorem ofSpelling_spell (h : IsPlain t) : ofSpelling t.spell = t := by
  obtain ⟨base, isConst, ds, hds, hconst, hbase, hspell, hwrap⟩ := h.exists_writtenAs
  rw [ofSpelling_eq_wrap (isBaseText_spell hbase) hds hconst hspell, ofBase_spell hbase, hwrap]

/-- A name with a qualifier and a declarator inside of it. -/
theorem isName_arrayOfTexts : IsName "Array<const char*>" where
  toIsBaseText := .of_not_suffix (by decide) (by decide) (by decide) (by decide) (by decide)
  notBuiltin := by decide

/-- A reference to a pointer to a pointer to a constant. -/
def arraysOfTexts : Ty :=
  reference (pointer (pointer (named "Array<const char*>") true) false) false true

theorem ofSpelling_arraysOfTexts :
    arraysOfTexts.IsPlain ∧ arraysOfTexts.spell = "const Array<const char*>**&&" ∧
      ofSpelling "const Array<const char*>**&&" = arraysOfTexts := by
  have hplain : arraysOfTexts.IsPlain :=
    .referenceToPointers (.outer (.innermost (.named isName_arrayOfTexts) true)) true
  have hspell : arraysOfTexts.spell = "const Array<const char*>**&&" := by cbv
  refine ⟨hplain, hspell, ?_⟩
  rw [← hspell]
  exact ofSpelling_spell hplain

end Ty

end RubyBinding
