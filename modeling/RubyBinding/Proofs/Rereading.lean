import RubyBinding.Proofs.PlainTypes
import RubyBinding.Proofs.Qualifiers
import RubyBinding.Proofs.Words

/-!
# Reading a spelling again

A spelling is cut into a qualifier, a base and declarators, and what is read from it is spelled by
putting these together again. The second reading comes to the same type exactly if it finds nothing
more to take off the base (`Parts.NothingLeft`): each step of a reading is made once, so that a
second `const`, or a declarator that a `const` stood behind, stays in the base
(`Ty.ofSpelling_spell_ofSpelling_iff`).
-/

namespace RubyBinding

/-! ## Blanks around a text -/

namespace Text

variable {cs : List Char}

theorem trim_trim (cs : List Char) : trim (trim cs) = trim cs := by
  refine trim_eq_self_iff.mpr ⟨fun h => ?_, fun h => ?_⟩
  · have hfront : trim cs <+: trimStart cs := List.rdropWhile_prefix isBlank _
    have hstart : trimStart cs ≠ [] := fun hnil => h (List.prefix_nil.mp (hnil ▸ hfront))
    rw [hfront.head h]
    exact List.head_dropWhile_not isBlank hstart
  · exact Bool.eq_false_iff.mpr (List.rdropWhile_last_not isBlank (trimStart cs) h)

/-- A text that ends in no blank ends as it does without the blanks around it. -/
theorem getLast?_trim (h : ∀ c ∈ cs.getLast?, isBlank c = false) {c : Char}
    (hc : c ∈ (trim cs).getLast?) : c ∈ cs.getLast? := by
  have hsuffix : trimStart cs <:+ cs := List.dropWhile_suffix isBlank
  obtain ⟨front, hfront⟩ := hsuffix
  have hlast : ∀ d ∈ (trimStart cs).getLast?, d ∈ cs.getLast? := fun d hd => by
    rw [← hfront, List.getLast?_append, Option.mem_def.mp hd]
    rfl
  have htrim : trim cs = trimStart cs :=
    List.rdropWhile_eq_self_iff.mpr fun hne => by
      simpa using h _ (hlast _ (List.getLast_mem_getLast? hne))
  exact hlast c (htrim ▸ hc)

end Text

namespace Ty

/-! ## Parts of a spelling -/

/-- What a spelling is cut into: whether a `const` was taken off its base, what is left of the base,
and the declarators behind it. -/
structure Parts where
  isConst : Bool
  base : List Char
  declarators : List Char

/-- The parts of a spelling, as it is read. -/
def partsOf (cs : List Char) : Parts :=
  let (base, declarators) := splitDeclarators (dropOuterConst (Text.trim cs))
  let (constBefore, base) := dropLeadingConst (Text.trim base)
  let (constAfter, base) := dropTrailingConst base
  ⟨constBefore || constAfter, base, declarators⟩

/-- The type that is put together from parts. -/
def Parts.type (p : Parts) : Ty := wrap (ofBase p.base) p.isConst p.declarators

theorem ofSpelling_eq (text : String) : ofSpelling text = (partsOf text.toList).type := by
  simp only [ofSpelling, partsOf, Parts.type]

/-- Nothing is left in the base that a further reading would take off it: no declarator, and no
`const`, which counts in front and behind where there are no declarators, and right behind a space
where there are. -/
structure Parts.NothingLeft (p : Parts) : Prop where
  noDeclarator : ∀ c ∈ p.base.getLast?, isDeclarator c = false
  noConst : p.declarators = [] → ¬ "const ".toList <+: p.base ∧
    ∀ c, Text.isBlank c ∨ isDeclarator c → ¬ c :: "const".toList <:+ p.base
  noInnerConst : p.declarators ≠ [] → ¬ " const".toList <:+ p.base

variable {cs ds : List Char} {t : Ty} {isConst : Bool} {p : Parts}

/-! ### Steps of a reading -/

theorem dropLeadingConst_cases (cs : List Char) :
    dropLeadingConst cs = (false, cs) ∧ ¬ "const ".toList <+: cs ∨
      ∃ rest, cs = "const ".toList ++ rest ∧ dropLeadingConst cs = (true, Text.trim rest) := by
  unfold dropLeadingConst
  split
  next rest h => exact .inr ⟨rest, Text.eq_append_of_after? h, rfl⟩
  next h => exact .inl ⟨rfl, fun hlead => by
    have hsome := Text.isSome_after?_iff.mpr hlead
    rw [h] at hsome
    cases hsome⟩

theorem dropTrailingConst_cases (cs : List Char) :
    dropTrailingConst cs = (false, cs) ∧ ¬ " const".toList <:+ cs ∨
      ∃ rest, cs = rest ++ " const".toList ∧ dropTrailingConst cs = (true, Text.trim rest) := by
  unfold dropTrailingConst
  split
  next rest h => exact .inr ⟨rest, Text.eq_append_of_before? h, rfl⟩
  next h => exact .inl ⟨rfl, fun htail => by
    have hsome := Text.isSome_before?_iff.mpr htail
    rw [h] at hsome
    cases hsome⟩

/-- What a step of a reading leaves of a text without blanks around it, if it takes a `const` off
exactly where there is one. -/
structure Takes (hasConst : Prop) (cs : List Char) (step : Bool × List Char) : Prop where
  noBlanks : Text.trim step.2 = step.2
  kept : ¬ hasConst → step = (false, cs)
  taken : hasConst → step.1 = true ∧ step.2 ≠ [] ∧ step.2.length < cs.length

theorem Takes.length_le {hasConst : Prop} {step : Bool × List Char} (h : Takes hasConst cs step) :
    step.2.length ≤ cs.length := by
  by_cases hconst : hasConst
  · exact Nat.le_of_lt (h.taken hconst).2.2
  · rw [h.kept hconst]

theorem Takes.not_of_length {hasConst : Prop} {step : Bool × List Char} (h : Takes hasConst cs step)
    (hlength : cs.length ≤ step.2.length) : ¬ hasConst :=
  fun hconst => Nat.not_lt_of_le hlength (h.taken hconst).2.2

/-- A step takes a `const` off if more than blanks are left. -/
theorem takes_trim {hasConst : Prop} {rest : List Char} {c : Char} (hconst : hasConst)
    (hc : c ∈ rest) (hblank : Text.isBlank c = false) (hlength : rest.length < cs.length) :
    Takes hasConst cs (true, Text.trim rest) where
  noBlanks := Text.trim_trim rest
  kept hno := absurd hconst hno
  taken _ := ⟨rfl, List.ne_nil_of_mem (Text.mem_trim hc hblank),
    (Text.trim_infix rest).length_le.trans_lt hlength⟩

theorem takes_dropLeadingConst (h : Text.trim cs = cs) :
    Takes ("const ".toList <+: cs) cs (dropLeadingConst cs) := by
  rcases dropLeadingConst_cases cs with ⟨heq, hno⟩ | ⟨rest, rfl, heq⟩
  · rw [heq]
    exact ⟨h, fun _ => rfl, fun hconst => absurd hconst hno⟩
  · rw [heq]
    -- The text ends in no blank, so it does not end with the qualifier.
    have hne : rest ≠ [] := by
      rintro rfl
      exact absurd h (by decide)
    have hlast : Text.isBlank (rest.getLast hne) = false := by
      have hend := (Text.trim_eq_self_iff.mp h).2 (List.append_ne_nil_of_right_ne_nil _ hne)
      rwa [List.getLast_append_right hne] at hend
    refine takes_trim (List.prefix_append _ _) (List.getLast_mem hne) hlast ?_
    rw [List.length_append]
    exact Nat.lt_add_of_pos_left (by decide)

theorem takes_dropTrailingConst (h : Text.trim cs = cs) :
    Takes (" const".toList <:+ cs) cs (dropTrailingConst cs) := by
  rcases dropTrailingConst_cases cs with ⟨heq, hno⟩ | ⟨rest, rfl, heq⟩
  · rw [heq]
    exact ⟨h, fun _ => rfl, fun hconst => absurd hconst hno⟩
  · rw [heq]
    -- The text begins with no blank, so it does not begin with the qualifier.
    have hne : rest ≠ [] := by
      rintro rfl
      exact absurd h (by decide)
    have hhead : Text.isBlank (rest.head hne) = false := by
      have hstart := (Text.trim_eq_self_iff.mp h).1 (List.append_ne_nil_of_left_ne_nil hne _)
      rwa [List.head_append_left hne] at hstart
    refine takes_trim (List.suffix_append _ _) (List.head_mem hne) hhead ?_
    rw [List.length_append]
    exact Nat.lt_add_of_pos_right (by decide)

/-- The base that declarators are cut off ends in none. -/
theorem noDeclarator_fst_splitDeclarators (cs : List Char) :
    ∀ c ∈ (splitDeclarators cs).1.getLast?, isDeclarator c = false ∧ Text.isBlank c = false := by
  intro c hc
  obtain ⟨hne, rfl⟩ := List.mem_getLast?_eq_getLast hc
  have hstop := List.rdropWhile_last_not (fun c => isDeclarator c || Text.isBlank c) cs hne
  exact Bool.or_eq_false_iff.mp (Bool.eq_false_iff.mpr hstop)

/-- What is true of the parts of every spelling. -/
structure Parts.IsCut (p : Parts) : Prop where
  declarators : ∀ d ∈ p.declarators, isDeclarator d
  noBlanks : Text.trim p.base = p.base
  nonempty : p.isConst → p.base ≠ []
  unqualified : p.isConst = false → ¬ "const ".toList <+: p.base ∧ ¬ " const".toList <:+ p.base ∧
    ∀ c ∈ p.base.getLast?, isDeclarator c = false

theorem isCut_partsOf (cs : List Char) : (partsOf cs).IsCut := by
  have hlast := noDeclarator_fst_splitDeclarators (dropOuterConst (Text.trim cs))
  have hds : ∀ d ∈ (splitDeclarators (dropOuterConst (Text.trim cs))).2, isDeclarator d :=
    fun d hd => List.of_mem_filter hd
  rw [partsOf]
  generalize splitDeclarators (dropOuterConst (Text.trim cs)) = split at hlast hds ⊢
  obtain ⟨base, ds⟩ := split
  dsimp only at hlast hds ⊢
  have hend : ∀ c ∈ (Text.trim base).getLast?, isDeclarator c = false :=
    fun c hc => (hlast c (Text.getLast?_trim (fun c hc => (hlast c hc).2) hc)).1
  have hlead := takes_dropLeadingConst (Text.trim_trim base)
  have htrail := takes_dropTrailingConst hlead.noBlanks
  generalize Text.trim base = cs at hend hlead htrail ⊢
  by_cases hafter : " const".toList <:+ (dropLeadingConst cs).2
  · obtain ⟨htaken, hne, -⟩ := htrail.taken hafter
    refine ⟨hds, htrail.noBlanks, fun _ => hne, fun hconst => ?_⟩
    rw [htaken, Bool.or_true] at hconst
    cases hconst
  · rw [htrail.kept hafter]
    by_cases hbefore : "const ".toList <+: cs
    · obtain ⟨htaken, hne, -⟩ := hlead.taken hbefore
      refine ⟨hds, hlead.noBlanks, fun _ => hne, fun hconst => ?_⟩
      rw [htaken, Bool.true_or] at hconst
      cases hconst
    · have hkept := hlead.kept hbefore
      rw [hkept] at hafter htrail ⊢
      exact ⟨hds, hlead.kept hbefore ▸ hlead.noBlanks, nofun, fun _ => ⟨hbefore, hafter, hend⟩⟩

/-! ### Bases -/

/-- Words that a builtin type is spelled with. -/
def builtinVocabulary : List String :=
  ["signed", "unsigned", "int", "void", "bool", "char", "short", "long", "float", "double"]

theorem SpellBuiltin.mem_vocabulary {ws : List String} (h : SpellBuiltin ws) {w : String}
    (hw : w ∈ ws) : w ∈ builtinVocabulary := by
  have hnames : ∀ vs ∈ builtinNames, ∀ v ∈ vs, v ∈ builtinVocabulary := by decide
  have hfilter : ∀ vs : List String, vs.filter (· != "int") ∈ builtinNames → ∀ v ∈ vs,
      v ∈ builtinVocabulary := by
    intro vs hvs v hv
    by_cases hint : v = "int"
    · rw [hint]
      decide
    · exact hnames _ hvs v (List.mem_filter.mpr ⟨hv, by simpa using hint⟩)
  rcases h with h | ⟨hsign, h⟩
  · exact hfilter ws h w hw
  · cases ws with
    | nil => cases hw
    | cons v vs =>
      rcases List.mem_cons.mp hw with rfl | hw
      · rcases List.mem_pair.mp hsign with hsign | hsign <;>
        · rw [Option.some.inj hsign]
          decide
      · exact hfilter vs h w hw

/-- Nothing could be taken off the spelling of a builtin type. -/
theorem nothingLeft_of_builtin (h : (builtin? p.base).isSome) : p.NothingLeft := by
  have hne : p.base ≠ [] := by
    rintro hnil
    rw [hnil] at h
    cases h
  have hvocabulary : ∀ w ∈ Text.words p.base, String.ofList w ∈ builtinVocabulary := fun w hw =>
    ((isSome_builtin?_iff hne).mp h).mem_vocabulary (List.mem_map_of_mem hw)
  have hdeclarator : ∀ c ∈ p.base, isDeclarator c = false := by
    intro c hc
    by_contra hdecl
    rw [Bool.not_eq_false] at hdecl
    obtain ⟨w, hw, hcw⟩ := Text.exists_word_of_mem hc (isBlank_of_isDeclarator hdecl)
    have hplain : ∀ v ∈ builtinVocabulary, (v.toList.all fun d => !isDeclarator d) = true := by
      decide
    have hnot := List.all_eq_true.mp (hplain _ (hvocabulary w hw)) c (by rwa [String.toList_ofList])
    rw [hdecl] at hnot
    cases hnot
  have hconst : "const".toList ∉ Text.words p.base := fun hw =>
    absurd (hvocabulary _ hw) (by decide)
  have hword : Text.words "const".toList = ["const".toList] := by decide
  have hbehind : ∀ c, Text.isBlank c → ¬ c :: "const".toList <:+ p.base := by
    rintro c hblank ⟨front, hfront⟩
    refine hconst ?_
    rw [← hfront, Text.words_append_blank hblank, hword]
    exact List.mem_append_right _ List.mem_cons_self
  refine ⟨fun c hc => hdeclarator c (List.mem_of_getLast? hc), fun _ => ⟨?_, ?_⟩,
    fun _ => hbehind ' ' rfl⟩
  · rintro ⟨rest, hrest⟩
    refine hconst ?_
    have hspace : p.base = "const".toList ++ ' ' :: rest := hrest.symm
    rw [hspace, Text.words_append_blank rfl, hword]
    exact List.mem_append_left _ List.mem_cons_self
  · rintro c (hblank | hdecl) hsuffix
    · exact hbehind c hblank hsuffix
    · rw [hdeclarator c (hsuffix.subset List.mem_cons_self)] at hdecl
      cases hdecl

/-- A builtin type, other than a name. -/
theorem isBase_of_builtinWords {isSigned : Bool} {ws : List String}
    (h : builtinWords isSigned ws = some t) : IsBase t ∧ ∀ name, t ≠ named name := by
  revert h
  fun_cases builtinWords isSigned ws with
  | case11 => rintro ⟨⟩
  | _ =>
    rintro ⟨⟩
    refine ⟨by constructor, ?_⟩
    rintro name ⟨⟩

theorem isBase_of_builtin? (h : builtin? cs = some t) : IsBase t ∧ ∀ name, t ≠ named name := by
  unfold builtin? at h
  split at h
  · cases h
  · split at h <;> exact isBase_of_builtinWords h

/-- A base is read as a builtin type, or else as a name. -/
theorem ofBase_cases (cs : List Char) :
    (builtin? cs).isSome ∧ IsBase (ofBase cs) ∧ (∀ name, ofBase cs ≠ named name) ∨
      builtin? cs = none ∧ ofBase cs = named (String.ofList cs) := by
  cases h : builtin? cs with
  | none => exact .inr ⟨rfl, by rw [ofBase, h]; rfl⟩
  | some t =>
    have heq : ofBase cs = t := by
      rw [ofBase, h]
      rfl
    rw [heq]
    exact .inl ⟨rfl, isBase_of_builtin? h⟩

/-! ### Wrapping -/

/-- How many characters the pointers and references of a type are spelled with. -/
def signs : Ty → Nat
  | pointer t _ => signs t + 1
  | reference t _ isRvalue => signs t + (referenceSign isRvalue).length
  | _ => 0

theorem signs_wrap (t : Ty) (isConst : Bool) (ds : List Char) :
    (wrap t isConst ds).signs = t.signs + ds.length := by
  fun_induction wrap t isConst ds with
  | case1 => rfl
  | case2 t isConst r ih =>
    rw [ih, signs, List.length_cons]
    omega
  | case3 => rfl
  | case4 t isConst d r _ ih =>
    have htwo : (referenceSign true).length = 2 := rfl
    rw [ih, signs, htwo, List.length_cons, List.length_cons]
    omega
  | case5 t isConst d e r _ _ ih =>
    have hone : (referenceSign false).length = 1 := rfl
    rw [ih, signs, hone, List.length_cons (a := d)]
    omega

theorem bottom_wrap (t : Ty) (isConst : Bool) (ds : List Char) :
    (wrap t isConst ds).bottom = t.bottom := by
  fun_induction wrap t isConst ds with
  | case1 => rfl
  | case2 t isConst r ih => exact ih
  | case3 => rfl
  | case4 t isConst d r _ ih => exact ih
  | case5 t isConst d e r _ _ ih => exact ih

theorem eq_ampersand {d : Char} (h : isDeclarator d) (hstar : d ≠ '*') : d = '&' := by
  rw [isDeclarator, Bool.or_eq_true, beq_iff_eq, beq_iff_eq] at h
  exact h.resolve_left hstar

/-- What is wrapped in declarators is spelled with them, and the qualifier in front. -/
theorem toList_spell_wrap (ht : t.isFunction = false) (isConst : Bool)
    (hds : ∀ d ∈ ds, isDeclarator d) :
    (wrap t isConst ds).spell.toList =
      (if ds = [] then [] else (constPart isConst).toList) ++ t.spell.toList ++ ds := by
  have hempty : ∀ r : List Char, (if r = [] then [] else (constPart false).toList) = [] :=
    fun _ => ite_self []
  fun_induction wrap t isConst ds with
  | case1 => rw [if_pos rfl, List.nil_append, List.append_nil]
  | case2 t isConst r ih =>
    rw [ih rfl fun d hd => hds d (List.mem_cons_of_mem _ hd), hempty, spell_pointer ht,
      if_neg (List.cons_ne_nil _ _)]
    simp only [String.toList_append, List.append_assoc, List.nil_append]
    rfl
  | case3 t isConst d hstar =>
    rw [eq_ampersand (hds d List.mem_cons_self) hstar, toList_spell_reference,
      if_neg (List.cons_ne_nil _ _)]
    rfl
  | case4 t isConst d r hstar ih =>
    rw [eq_ampersand (hds d List.mem_cons_self) hstar,
      ih rfl fun d hd => hds d (List.mem_cons_of_mem _ (List.mem_cons_of_mem _ hd)), hempty,
      toList_spell_reference, if_neg (List.cons_ne_nil _ _)]
    simp only [List.append_assoc, List.nil_append]
    rfl
  | case5 t isConst d e r hstar _ ih =>
    rw [eq_ampersand (hds d List.mem_cons_self) hstar,
      ih rfl fun d hd => hds d (List.mem_cons_of_mem _ hd), hempty, toList_spell_reference,
      if_neg (List.cons_ne_nil _ _)]
    simp only [List.append_assoc, List.nil_append]
    rfl

theorem ofBase_flat (cs : List Char) :
    (ofBase cs).isFunction = false ∧ (ofBase cs).bottom = ofBase cs ∧ (ofBase cs).signs = 0 := by
  rcases ofBase_cases cs with ⟨-, hbase, -⟩ | ⟨-, heq⟩
  · generalize ofBase cs = t at hbase
    cases hbase <;> exact ⟨rfl, rfl, rfl⟩
  · rw [heq]
    exact ⟨rfl, rfl, rfl⟩

/-- Types are the same only over the same base, and with as many declarators. -/
theorem Parts.eq_of_type_eq {q : Parts} (h : q.type = p.type) :
    ofBase q.base = ofBase p.base ∧ q.declarators.length = p.declarators.length := by
  obtain ⟨-, hbottom, hsigns⟩ := ofBase_flat p.base
  obtain ⟨-, hbottom', hsigns'⟩ := ofBase_flat q.base
  have hb := congrArg bottom h
  have hs := congrArg signs h
  rw [type, type, bottom_wrap, bottom_wrap, hbottom, hbottom'] at hb
  rw [type, type, signs_wrap, signs_wrap, hsigns, hsigns', Nat.zero_add, Nat.zero_add] at hs
  exact ⟨hb, hs⟩

/-- Over a name, types are the same only with the same name. -/
theorem Parts.base_eq_of_type_eq {q : Parts} (hname : ofBase p.base = named (String.ofList p.base))
    (h : q.type = p.type) : q.base = p.base := by
  have hbase := (eq_of_type_eq h).1.trans hname
  rcases ofBase_cases q.base with ⟨-, -, hno⟩ | ⟨-, heq⟩
  · exact absurd hbase (hno _)
  · rw [heq] at hbase
    exact String.ofList_injective (named.inj hbase)

/-! ## The second reading -/

/-- The parts of a spelling that was put together from parts. -/
theorem partsOf_append (hblanks : Text.trim cs = cs) (hne : isConst → cs ≠ [])
    (hlead : isConst = false → ¬ "const ".toList <+: cs)
    (hlast : ∀ c ∈ cs.getLast?, isDeclarator c = false) (hds : ∀ d ∈ ds, isDeclarator d)
    (hnil : ds ≠ []) :
    partsOf ((constPart isConst).toList ++ cs ++ ds) =
      ⟨isConst || (dropTrailingConst cs).1, (dropTrailingConst cs).2, ds⟩ := by
  have hbase := trim_constPart_append hne hblanks
  have hlast' : ∀ c ∈ ((constPart isConst).toList ++ cs).getLast?, isDeclarator c = false := by
    cases isConst with
    | true =>
      rw [List.getLast?_append_of_ne_nil _ (hne rfl)]
      exact hlast
    | false => exact hlast
  have houter : dropOuterConst ((constPart isConst).toList ++ cs ++ ds) =
      (constPart isConst).toList ++ cs ++ ds :=
    dropOuterConst_eq_self fun c _ hsuffix =>
      not_suffix_of_isDeclarator hnil hds _ ((List.suffix_cons _ _).trans hsuffix)
  rw [partsOf, trim_append_declarators hbase hds, houter,
    splitDeclarators_append hbase hlast' hds]
  dsimp only
  rw [hbase, dropLeadingConst_constPart hblanks hlead]

/-- A declarator at the end of a base is read with those behind it. -/
theorem lt_length_declarators {lead : List Char} {d : Char} (hd : isDeclarator d)
    (hds : ∀ d ∈ ds, isDeclarator d) (hblanks : Text.trim (lead ++ d :: ds) = lead ++ d :: ds) :
    ds.length < (partsOf (lead ++ d :: ds)).declarators.length := by
  have hcons : ∀ e ∈ d :: ds, isDeclarator e := List.forall_mem_cons.mpr ⟨hd, hds⟩
  have houter : dropOuterConst (lead ++ d :: ds) = lead ++ d :: ds :=
    dropOuterConst_eq_self fun c _ hsuffix =>
      not_suffix_of_isDeclarator (List.cons_ne_nil _ _) hcons _
        ((List.suffix_cons _ _).trans hsuffix)
  have hparts : (partsOf (lead ++ d :: ds)).declarators =
      (splitDeclarators (lead ++ d :: ds)).2 := by
    rw [partsOf, hblanks, houter]
  have htail : ∀ e ∈ (d :: ds).reverse, (isDeclarator e || Text.isBlank e) = true := fun e he => by
    rw [hcons e (List.mem_reverse.mp he), Bool.true_or]
  rw [hparts, splitDeclarators, List.reverse_append, List.takeWhile_append_of_pos htail,
    List.reverse_append, List.filter_append, List.reverse_reverse, List.filter_eq_self.mpr hcons,
    List.length_append, List.length_cons]
  omega

theorem dropOuterConst_prefix (cs : List Char) : dropOuterConst cs <+: cs := by
  unfold dropOuterConst
  split
  · exact List.prefix_rfl
  next rest h =>
    split
    · exact List.prefix_rfl
    · split
      · have htrim : Text.trimEnd rest <+: rest := List.rdropWhile_prefix Text.isBlank rest
        rw [Text.eq_append_of_before? h]
        exact htrim.trans (List.prefix_append _ _)
      · exact List.prefix_rfl

/-- A `const` of its own at the end of a text is taken off. -/
theorem dropOuterConst_ne_self {c : Char} (hc : Text.isBlank c ∨ isDeclarator c)
    (hsuffix : c :: "const".toList <:+ cs) : dropOuterConst cs ≠ cs := by
  obtain ⟨front, rfl⟩ := hsuffix
  have hbefore : Text.before? "const".toList (front ++ c :: "const".toList) =
      some (front ++ [c]) := by
    rw [List.append_cons, Text.before?, List.reverse_append, Text.after?_append, Option.map_some,
      List.reverse_reverse]
  have htrim : Text.trimEnd (front ++ [c]) <+: front ++ [c] :=
    List.rdropWhile_prefix Text.isBlank _
  have hdrop : dropOuterConst (front ++ c :: "const".toList) = Text.trimEnd (front ++ [c]) := by
    rw [dropOuterConst, hbefore]
    dsimp only
    rw [List.getLast?_concat]
    exact if_pos (Bool.or_eq_true_iff.mpr hc)
  intro heq
  have hlength := htrim.length_le
  rw [← hdrop, heq] at hlength
  simp at hlength

/-- If the base is all of a text, nothing can be taken off the text. -/
theorem nothingLeft_of_base_eq (hblanks : Text.trim cs = cs) (h : (partsOf cs).base = cs)
    (hds : p.declarators = []) (hbase : p.base = cs) : p.NothingLeft := by
  have houter := dropOuterConst_prefix cs
  have hsplit : (splitDeclarators (dropOuterConst cs)).1 <+: dropOuterConst cs :=
    List.rdropWhile_prefix _ _
  have hlast := noDeclarator_fst_splitDeclarators (dropOuterConst cs)
  have hlead := takes_dropLeadingConst (Text.trim_trim (splitDeclarators (dropOuterConst cs)).1)
  have htrail := takes_dropTrailingConst hlead.noBlanks
  -- No step shortens the text, since the last one leaves all of it.
  have hlength := congrArg List.length h
  rw [partsOf, hblanks] at hlength
  dsimp only at hlength
  have hle := htrail.length_le
  have hle' := hlead.length_le
  have htrim := (Text.trim_infix (splitDeclarators (dropOuterConst cs)).1).length_le
  have hsplit' := hsplit.length_le
  have houter' := houter.length_le
  have hself : dropOuterConst cs = cs := houter.eq_of_length (by omega)
  rw [hself] at hsplit hlast hlead hlength hle hle' htrim hsplit'
  have hcut : (splitDeclarators cs).1 = cs := hsplit.eq_of_length (by omega)
  rw [hcut] at hlast hlead hlength hle hle'
  rw [hblanks] at hlead hlength hle hle'
  refine ⟨fun c hc => (hlast c (hbase ▸ hc)).1, fun _ => ⟨?_, fun c hc hsuffix => ?_⟩,
    fun hne => absurd hds hne⟩
  · rw [hbase]
    exact hlead.not_of_length (by omega)
  · exact dropOuterConst_ne_self hc (hbase ▸ hsuffix) hself

/-- What is based on a builtin type is read as it is spelled. -/
theorem Parts.IsCut.reads_builtin (h : p.IsCut) (hbuiltin : IsBase (ofBase p.base)) :
    ofSpelling p.type.spell = p.type := by
  have hspell := toList_spell_wrap (ofBase_flat p.base).1 p.isConst h.declarators
  rw [type]
  by_cases hnil : p.declarators = []
  · rw [hnil, wrap, ofSpelling_spell (.base hbuiltin)]
  · rw [if_neg hnil] at hspell
    rw [ofSpelling_eq_wrap (isBaseText_spell hbuiltin) h.declarators (fun _ => hnil) hspell,
      ofBase_spell hbuiltin]

/-- A name alone is read again if nothing of it is taken for something else. -/
theorem Parts.IsCut.reads_name_iff (h : p.IsCut)
    (hname : ofBase p.base = named (String.ofList p.base)) (hnil : p.declarators = []) :
    ofSpelling p.type.spell = p.type ↔ p.NothingLeft := by
  have htype : p.type = named (String.ofList p.base) := by
    rw [type, hnil, wrap, hname]
  have hspell : p.type.spell.toList = p.base := by
    rw [htype, spell, String.toList_ofList]
  constructor
  · intro hread
    rw [ofSpelling_eq, hspell] at hread
    exact nothingLeft_of_base_eq h.noBlanks (base_eq_of_type_eq hname hread) hnil rfl
  · intro hleft
    by_cases hempty : p.base = []
    · rw [htype, hempty]
      rfl
    · obtain ⟨hlead, htrail⟩ := hleft.noConst hnil
      have hbase : IsBaseText p.base := ⟨hempty, h.noBlanks, hlead, hleft.noDeclarator, htrail⟩
      have hread : ofSpelling p.type.spell = wrap (ofBase p.base) false [] :=
        ofSpelling_eq_wrap hbase (List.forall_mem_nil _)
          (fun hno : false = true => absurd hno Bool.false_ne_true)
          (hspell.trans (List.append_nil _).symm)
      rw [hread, wrap, hname, htype]

/-- A name with declarators is read again if it ends neither in one nor in a `const`. -/
theorem Parts.IsCut.reads_wrapped_iff (h : p.IsCut)
    (hname : ofBase p.base = named (String.ofList p.base)) (hne : p.declarators ≠ []) :
    ofSpelling p.type.spell = p.type ↔ p.NothingLeft := by
  have hspell : p.type.spell.toList = (constPart p.isConst).toList ++ p.base ++ p.declarators := by
    have hwrap := toList_spell_wrap (ofBase_flat p.base).1 p.isConst h.declarators
    rwa [if_neg hne, hname, spell, String.toList_ofList, ← hname] at hwrap
  rw [ofSpelling_eq, hspell]
  by_cases hlast : ∀ c ∈ p.base.getLast?, isDeclarator c = false
  · have hparts := partsOf_append h.noBlanks h.nonempty (fun hconst => (h.unqualified hconst).1)
      hlast h.declarators hne
    have htrail := takes_dropTrailingConst h.noBlanks
    by_cases hconst : " const".toList <:+ p.base
    · refine iff_of_false (fun hread => ?_) fun hleft => hleft.noInnerConst hne hconst
      have hbase := base_eq_of_type_eq hname hread
      rw [hparts] at hbase
      exact Nat.ne_of_lt (htrail.taken hconst).2.2 (congrArg List.length hbase)
    · refine iff_of_true ?_ ⟨hlast, fun hnil => absurd hnil hne, fun _ => hconst⟩
      rw [hparts, htrail.kept hconst, Bool.or_false]
  · refine iff_of_false (fun hread => ?_) fun hleft => hlast hleft.noDeclarator
    -- The declarator at the end of the name is read with the others.
    simp only [not_forall, Bool.not_eq_false] at hlast
    obtain ⟨d, hd, hdeclarator⟩ := hlast
    obtain ⟨init, hinit⟩ := List.getLast?_eq_some_iff.mp hd
    have hmore := (eq_of_type_eq hread).2
    have htrim := trim_append_declarators (trim_constPart_append h.nonempty h.noBlanks)
      h.declarators
    rw [hinit, ← List.append_assoc, List.append_assoc _ [d], List.singleton_append]
      at hmore htrim
    exact Nat.ne_of_gt (lt_length_declarators hdeclarator h.declarators htrim) hmore

/-- **A spelling is read to the end in one step** exactly if nothing is left in its base. -/
theorem ofSpelling_spell_ofSpelling_iff (text : String) :
    ofSpelling (ofSpelling text).spell = ofSpelling text ↔
      (partsOf text.toList).NothingLeft := by
  have hcut := isCut_partsOf text.toList
  rw [ofSpelling_eq text]
  rcases ofBase_cases (partsOf text.toList).base with ⟨hsome, hbuiltin, -⟩ | ⟨-, hname⟩
  · exact iff_of_true (hcut.reads_builtin hbuiltin) (nothingLeft_of_builtin hsome)
  · by_cases hnil : (partsOf text.toList).declarators = []
    · exact hcut.reads_name_iff hname hnil
    · exact hcut.reads_wrapped_iff hname hnil

/-- A reference to a constant pointer keeps the pointer in the name. -/
theorem ofSpelling_spell_ne_constantPointer :
    ofSpelling "Node* const&" = reference (named "Node*") true false ∧
      (ofSpelling "Node* const&").spell = "const Node*&" ∧
      ofSpelling "const Node*&" = reference (pointer (named "Node") true) false false ∧
      ofSpelling (ofSpelling "Node* const&").spell ≠ ofSpelling "Node* const&" := by
  have hread : ofSpelling "Node* const&" = reference (named "Node*") true false := by cbv
  have hspell : (ofSpelling "Node* const&").spell = "const Node*&" := by cbv
  have hread' : ofSpelling "const Node*&" = reference (pointer (named "Node") true) false false := by
    cbv
  refine ⟨hread, hspell, hread', ?_⟩
  rw [hspell, hread, hread']
  rintro ⟨⟩

end Ty

end RubyBinding
