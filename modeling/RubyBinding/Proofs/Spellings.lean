import RubyBinding.Proofs.Conversions
import RubyBinding.Proofs.Walks

/-!
# Conversions of one class

For C++, a class and the typedefs for it are one type, so that two conversions for pointers to them
are one specialisation that is defined twice. Conversions are told apart by how generated code
spells them, and it may spell a class in several ways: as itself, and as each typedef that a
signature names. `Setting.one_converter_iff` says when a class has one conversion of each kind
whatever is resolved: if all that denotes it is spelled alike, and this is so, where qualified names
are unique, if the class has no typedef, or gives way to its only one.
-/

namespace RubyBinding

/-! ## Resolved types -/

/-- Names are replaced in place, so that only a pointer to a named type becomes one. -/
theorem Ty.eq_pointer_named_of_mapNames {f : String → String} {t : Ty} {name : String}
    {isConst : Bool} (h : t.mapNames f = .pointer (.named name) isConst) :
    ∃ written, t = .pointer (.named written) isConst ∧ name = f written := by
  cases t with
  | pointer pointee isConst' =>
    cases pointee with
    | named written =>
      simp only [mapNames, pointer.injEq, named.injEq] at h
      exact ⟨written, by rw [h.2], h.1.symm⟩
    | _ => simp [mapNames] at h
  | _ => simp [mapNames] at h

/-! ## Names from the global namespace -/

theorem dropGlobal_of_after?_eq_some {cs rest : List Char}
    (h : Text.after? [':', ':'] cs = some rest) : dropGlobal cs = dropGlobal rest := by
  match cs with
  | [] => cases h
  | [c] =>
    simp only [Text.after?] at h
    split at h <;> cases h
  | c :: d :: cs =>
    simp only [Text.after?] at h
    split at h
    next hc =>
      split at h
      next hd =>
        cases h
        rw [← hc, ← hd, dropGlobal]
      next => cases h
    next => cases h

theorem dropGlobal_of_after?_eq_none {cs : List Char}
    (h : Text.after? [':', ':'] cs = none) : dropGlobal cs = cs := by
  unfold dropGlobal
  split
  next => simp [Text.after?] at h
  next => rfl

namespace DeclTree

variable {t : DeclTree} {scope i : DeclId} {name : String}

theorem isType_of_resolve? (h : t.resolve? scope name = some i) : (t.get i).kind.isType := by
  unfold resolve? at h
  split at h
  next =>
    have hi := List.find?_some h
    exact hi
  next =>
    obtain ⟨s, -, hs⟩ := List.exists_of_findSome?_eq_some h
    have hi := List.find?_some hs
    exact hi

/-- What is found from the global namespace is found first there, if it is a type. -/
theorem find?_lookupAll (hi : t.lookup? name = some i) (htype : (t.get i).kind.isType) :
    (t.lookupAll name).find? (fun c => (t.get c).kind.isType) = some i := by
  obtain ⟨rest, hrest⟩ := List.head?_eq_some_iff.mp hi
  rw [hrest, List.find?_cons, htype]

/-- The name of a type denotes something in every scope: if nothing else, then that type. -/
theorem WellFormed.isSome_resolve? (h : WellFormed t) (hs : scope < t.size)
    (hi : t.lookup? name = some i) (htype : (t.get i).kind.isType) :
    (t.resolve? scope name).isSome := by
  have hfind := find?_lookupAll hi htype
  rw [resolve?]
  split
  next rest hrest =>
    rw [lookupAll, dropGlobal_of_after?_eq_some hrest] at hfind
    rw [hfind]
    rfl
  next hnone =>
    rw [lookupAll, dropGlobal_of_after?_eq_none hnone] at hfind
    rw [List.findSome?_isSome_iff]
    exact ⟨root, h.root_mem_scopes hs, by rw [hfind]; rfl⟩

/-- In the global namespace, the name of a type denotes that type. -/
theorem WellFormed.resolve?_root (h : WellFormed t) (hi : t.lookup? name = some i)
    (htype : (t.get i).kind.isType) : t.resolve? root name = some i := by
  have hfind := find?_lookupAll hi htype
  have hscopes : t.scopes root = [root] := by
    rw [h.scopes_eq, h.parent_root]
    rfl
  rw [resolve?]
  split
  next rest hrest => rwa [lookupAll, dropGlobal_of_after?_eq_some hrest] at hfind
  next hnone =>
    rw [lookupAll, dropGlobal_of_after?_eq_none hnone] at hfind
    rw [hscopes, List.findSome?_cons, hfind]

end DeclTree

/-! ## What a name means -/

namespace Library

variable {lib : Library} {name : String} {c i j d : DeclId}

/-- Whether a name, looked up from the global namespace, leads to a class or to a typedef for it. -/
def Means (lib : Library) (name : String) (c : DeclId) : Prop :=
  (lib.tree.get c).isRecord ∧
    ∃ j, lib.tree.lookup? name = some j ∧ (j = c ∨ lib.tree.typedefTarget? j = some c)

theorem typedefTarget?_eq_none_of_isRecord (hc : (lib.tree.get c).isRecord) :
    lib.tree.typedefTarget? c = none := by
  unfold Decl.isRecord at hc
  unfold DeclTree.typedefTarget?
  split
  next hkind =>
    rw [hkind] at hc
    cases hc
  next => rfl

theorem denotesClass_iff : lib.denotesClass j ↔
    ∃ c, (lib.tree.get c).isRecord ∧ (j = c ∨ lib.tree.typedefTarget? j = some c) := by
  unfold denotesClass
  split
  next hkind =>
    have hj : (lib.tree.get j).isRecord := by
      rw [Decl.isRecord, hkind]
      rfl
    exact iff_of_true rfl ⟨j, hj, .inl rfl⟩
  next target hkind =>
    have htarget : lib.tree.typedefTarget? j =
        lib.tree.resolve? (lib.tree.scopeOf j) target := by
      rw [DeclTree.typedefTarget?, hkind]
    have hj : ¬ (lib.tree.get j).isRecord := by
      rw [Decl.isRecord, hkind]
      exact Bool.false_ne_true
    rw [← htarget]
    split
    next c hc =>
      refine ⟨fun hrecord => ⟨c, hrecord, .inr hc⟩, ?_⟩
      rintro ⟨c', hrecord, rfl | hc'⟩
      · exact absurd hrecord hj
      · rw [hc] at hc'
        cases hc'
        exact hrecord
    next hnone =>
      refine iff_of_false Bool.false_ne_true ?_
      rintro ⟨c', hrecord, rfl | hc'⟩
      · exact hj hrecord
      · rw [hnone] at hc'
        cases hc'
  next hrecord htypedef =>
    refine iff_of_false Bool.false_ne_true ?_
    rintro ⟨c, hc, rfl | hc'⟩
    · unfold Decl.isRecord at hc
      cases hkind : (lib.tree.get j).kind with
      | record isStruct bases => exact hrecord isStruct bases hkind
      | _ => rw [hkind] at hc; cases hc
    · unfold DeclTree.typedefTarget? at hc'
      split at hc'
      next target hkind => exact htypedef target hkind
      next => cases hc'

theorem isType_of_typedefTarget? (h : lib.tree.typedefTarget? j = some c) :
    (lib.tree.get j).kind.isType := by
  unfold DeclTree.typedefTarget? at h
  split at h
  next hkind =>
    rw [hkind]
    rfl
  next => cases h

theorem isType_of_isRecord (h : (lib.tree.get c).isRecord) : (lib.tree.get c).kind.isType := by
  unfold Decl.isRecord at h
  cases hkind : (lib.tree.get c).kind <;> rw [hkind] at h <;> first | rfl | cases h

/-- A pointer is taken for one to a class if the name in it means one. -/
theorem wrappedClass?_eq_some_iff {t : Ty} {isConst : Bool} :
    lib.wrappedClass? t = some (name, isConst) ↔
      t = .pointer (.named name) isConst ∧ ∃ c, lib.Means name c := by
  unfold wrappedClass?
  split
  next name' isConst' =>
    constructor
    · intro h
      split at h
      next j hj =>
        split at h
        next hclass =>
          cases h
          obtain ⟨c, hrecord, hc⟩ := denotesClass_iff.mp hclass
          exact ⟨rfl, c, hrecord, j, hj, hc⟩
        next => cases h
      next => cases h
    · rintro ⟨h, c, hrecord, j, hj, hc⟩
      cases h
      rw [hj]
      exact if_pos (denotesClass_iff.mpr ⟨c, hrecord, hc⟩)
  next hpointer =>
    constructor
    · intro h
      cases h
    · rintro ⟨rfl, -⟩
      exact absurd rfl (hpointer _ _)

/-! ## How a class is spelled -/

/-- Whether some name, in some scope, denotes a declaration that generated code spells by a name
that means a class. -/
def SpelledFor (lib : Library) (c i : DeclId) : Prop :=
  (∃ scope < lib.tree.size, ∃ name, lib.tree.resolve? scope name = some i) ∧
    lib.Means (lib.classType i) c

/-- Whether every type is the first declaration of its qualified name. -/
def PlainlyNamed (lib : Library) : Prop :=
  ∀ x, (lib.tree.get x).kind.isType → lib.tree.lookup? (lib.tree.qualifiedName x) = some x

/-- Whether types are plainly named can be computed, since there are none beyond the array. -/
theorem plainlyNamed_iff_all : lib.PlainlyNamed ↔ lib.tree.ids.all fun x =>
    !(lib.tree.get x).kind.isType || lib.tree.lookup? (lib.tree.qualifiedName x) == some x := by
  have hall : lib.PlainlyNamed ↔ ∀ x ∈ lib.tree.ids, (lib.tree.get x).kind.isType →
      lib.tree.lookup? (lib.tree.qualifiedName x) = some x := by
    refine ⟨fun h x _ => h x, fun h x hx => ?_⟩
    refine h x (List.mem_range.mpr (Nat.lt_of_not_le fun hle => ?_)) hx
    rw [DeclTree.get_of_size_le hle] at hx
    cases hx
  rw [hall, List.all_eq_true]
  refine forall₂_congr fun x _ => ?_
  cases (lib.tree.get x).kind.isType <;> simp

/-- A resolved name that means a class is how generated code spells what the name denoted. -/
theorem exists_resolve?_of_means (hw : lib.tree.WellFormed) {scope : DeclId}
    (hs : scope < lib.tree.size) (h : lib.Means (lib.resolveName scope name) c) :
    ∃ i, lib.tree.resolve? scope name = some i ∧ lib.resolveName scope name = lib.classType i := by
  unfold resolveName at h ⊢
  cases hres : lib.tree.resolve? scope name with
  | some i => exact ⟨i, rfl, rfl⟩
  | none =>
    -- A name that denotes nothing is kept, and it cannot be that of a type.
    rw [hres] at h
    obtain ⟨hrecord, j, hj, hc⟩ := h
    have htype : (lib.tree.get j).kind.isType := by
      rcases hc with rfl | hc
      · exact isType_of_isRecord hrecord
      · exact isType_of_typedefTarget? hc
    have hsome := hw.isSome_resolve? hs hj htype
    rw [hres] at hsome
    cases hsome

/-- Only classes give way to their typedefs. -/
theorem classType_of_not_isRecord (hi : ¬ (lib.tree.get i).isRecord) :
    lib.classType i = lib.tree.qualifiedName i := by
  rw [classType, humanizingTypedef?, Bool.eq_false_iff.mpr hi]
  rfl

theorem mem_typedefsOf (hw : lib.tree.WellFormed) :
    d ∈ lib.tree.typedefsOf c ↔ lib.tree.typedefTarget? d = some c := by
  rw [hw.typedefsOf_eq, List.mem_filter, DeclTree.ids, List.mem_range]
  refine ⟨fun h => by simpa using h.2, fun h => ⟨?_, by simpa using h⟩⟩
  -- Beyond the array there are no typedefs.
  refine Nat.lt_of_not_le fun hle => ?_
  rw [DeclTree.typedefTarget?, DeclTree.get_of_size_le hle] at h
  cases h

/-- A class gives way to its only typedef, unless it keeps its own name. -/
theorem humanizingTypedef?_eq_some_iff (hc : (lib.tree.get c).isRecord) :
    lib.humanizingTypedef? c = some d ↔
      lib.tree.typedefsOf c = [d] ∧ (lib.note c).keepsOwnName = false := by
  unfold humanizingTypedef?
  cases hkeeps : (lib.note c).keepsOwnName with
  | true => simp
  | false =>
    simp only [hc, Bool.not_true, Bool.or_self, Bool.false_eq_true, if_false, and_true]
    split
    next only honly => rw [honly, Option.some.injEq, List.cons.injEq, and_iff_left rfl]
    next hnot =>
      constructor
      · intro h
        cases h
      · intro honly
        exact absurd honly (hnot d)

variable (hw : lib.tree.WellFormed) (hplain : lib.PlainlyNamed)

include hw hplain

/-- Where types are plainly named, each is spelled by some name: its own. -/
theorem exists_resolve?_of_isType (hi : (lib.tree.get i).kind.isType) :
    ∃ scope < lib.tree.size, ∃ name, lib.tree.resolve? scope name = some i :=
  ⟨DeclTree.root, hw.root_lt, _, hw.resolve?_root (hplain i hi) hi⟩

/-- What gives a class its name is the class, or a typedef for it. -/
theorem humanized_cases (c : DeclId) (hc : (lib.tree.get c).isRecord) :
    ∃ d, lib.classType c = lib.tree.qualifiedName d ∧
      lib.tree.lookup? (lib.classType c) = some d ∧
      (d = c ∨ lib.tree.typedefTarget? d = some c) := by
  cases hd : lib.humanizingTypedef? c with
  | none =>
    have hname : lib.classType c = lib.tree.qualifiedName c := by
      rw [classType, hd, Option.getD_none]
    exact ⟨c, hname, by rw [hname, hplain c (isType_of_isRecord hc)], .inl rfl⟩
  | some d =>
    have hname : lib.classType c = lib.tree.qualifiedName d := by
      rw [classType, hd, Option.getD_some]
    have htarget : lib.tree.typedefTarget? d = some c := by
      rw [← mem_typedefsOf hw, ((humanizingTypedef?_eq_some_iff hc).mp hd).1]
      exact List.mem_cons_self
    exact ⟨d, hname, by rw [hname, hplain d (isType_of_typedefTarget? htarget)], .inr htarget⟩

/-- Where types are plainly named, what is spelled for a class is the class and the typedefs for
it. -/
theorem spelledFor_iff (hc : (lib.tree.get c).isRecord) :
    lib.SpelledFor c i ↔ i = c ∨ lib.tree.typedefTarget? i = some c := by
  constructor
  · rintro ⟨⟨scope, -, name, hname⟩, -, j, hj, hjc⟩
    have hi : (lib.tree.get i).kind.isType := DeclTree.isType_of_resolve? hname
    by_cases hrecord : (lib.tree.get i).isRecord
    · obtain ⟨d, -, hd, hdi⟩ := humanized_cases hw hplain i hrecord
      rw [hd] at hj
      cases hj
      -- One declaration cannot be a class and a typedef, nor a typedef for two classes.
      rcases hdi with rfl | hdi <;> rcases hjc with rfl | hjc
      · exact .inl rfl
      · rw [typedefTarget?_eq_none_of_isRecord hrecord] at hjc
        cases hjc
      · rw [typedefTarget?_eq_none_of_isRecord hc] at hdi
        cases hdi
      · rw [hdi] at hjc
        exact .inl (Option.some.inj hjc)
    · rw [classType_of_not_isRecord hrecord, hplain i hi] at hj
      cases hj
      exact hjc
  · intro hi
    have htype : (lib.tree.get i).kind.isType := by
      rcases hi with rfl | hi
      · exact isType_of_isRecord hc
      · exact isType_of_typedefTarget? hi
    refine ⟨exists_resolve?_of_isType hw hplain htype, hc, ?_⟩
    by_cases hrecord : (lib.tree.get i).isRecord
    · have hic : i = c := by
        refine hi.resolve_right fun htarget => ?_
        rw [typedefTarget?_eq_none_of_isRecord hrecord] at htarget
        cases htarget
      obtain ⟨d, -, hd, hdi⟩ := humanized_cases hw hplain i hrecord
      exact ⟨d, hd, hic ▸ hdi⟩
    · exact ⟨i, by rw [classType_of_not_isRecord hrecord, hplain i htype], hi⟩

/-- Where types are plainly named, a class is spelled in one way if it has no typedef, or gives way
to its only one. -/
theorem spelledAlike_iff (hc : (lib.tree.get c).isRecord) :
    (∀ i j, lib.SpelledFor c i → lib.SpelledFor c j → lib.classType i = lib.classType j) ↔
      lib.tree.typedefsOf c = [] ∨
        (∃ d, lib.tree.typedefsOf c = [d]) ∧ (lib.note c).keepsOwnName = false := by
  simp only [spelledFor_iff hw hplain hc, ← mem_typedefsOf hw]
  -- A typedef is spelled by its own name, and no class has that name.
  have htypedef : ∀ d ∈ lib.tree.typedefsOf c, ¬ (lib.tree.get d).isRecord := by
    intro d hd hrecord
    rw [mem_typedefsOf hw, typedefTarget?_eq_none_of_isRecord hrecord] at hd
    cases hd
  have hspelled : ∀ d ∈ lib.tree.typedefsOf c, lib.classType d = lib.tree.qualifiedName d :=
    fun d hd => classType_of_not_isRecord (htypedef d hd)
  constructor
  · intro halike
    cases hds : lib.tree.typedefsOf c with
    | nil => exact .inl rfl
    | cons d rest =>
      have hd : d ∈ lib.tree.typedefsOf c := hds ▸ List.mem_cons_self
      refine .inr ?_
      have hname : lib.classType c = lib.tree.qualifiedName d :=
        (halike c d (.inl rfl) (.inr hd)).trans (hspelled d hd)
      cases hhuman : lib.humanizingTypedef? c with
      | some d' =>
        obtain ⟨honly, hkeeps⟩ := (humanizingTypedef?_eq_some_iff hc).mp hhuman
        exact ⟨⟨d', hds ▸ honly⟩, hkeeps⟩
      | none =>
        rw [classType, hhuman, Option.getD_none] at hname
        have hfirst := hplain c (isType_of_isRecord hc)
        rw [hname, hplain d (isType_of_typedefTarget? ((mem_typedefsOf hw).mp hd))] at hfirst
        have hdc : d = c := Option.some.inj hfirst
        exact absurd (hdc ▸ hc) (htypedef d hd)
  · rintro (hnone | ⟨⟨d, honly⟩, hkeeps⟩) i j hi hj
    · simp only [hnone, List.not_mem_nil, or_false] at hi hj
      rw [hi, hj]
    · have hd : d ∈ lib.tree.typedefsOf c := honly ▸ List.mem_cons_self
      have hhuman := (humanizingTypedef?_eq_some_iff hc).mpr ⟨honly, hkeeps⟩
      have hone : ∀ k, k = c ∨ k ∈ lib.tree.typedefsOf c →
          lib.classType k = lib.tree.qualifiedName d := by
        rintro k (rfl | hk)
        · rw [classType, hhuman, Option.getD_some]
        · rw [honly, List.mem_singleton] at hk
          rw [hk, hspelled d hd]
      rw [hone i hi, hone j hj]

end Library

/-! ## What is noted -/

namespace Converter

variable {lib : Library} {a b : Converter}

/-- The name of the class that is converted. -/
def className : Converter → String
  | toRuby name _ | fromRuby name => name

/-- The direction, and whether the pointer is to a constant object. -/
def shape : Converter → Bool × Bool
  | toRuby _ isConst => (true, isConst)
  | fromRuby _ => (false, true)

/-- Whether two conversions are for C++ the same one of a class: they have one direction, and are
for pointers of one constness to the class. -/
def SameFor (lib : Library) (c : DeclId) (a b : Converter) : Prop :=
  a.shape = b.shape ∧ lib.Means a.className c ∧ lib.Means b.className c

theorem eq_of_shape_of_className (hs : a.shape = b.shape) (hn : a.className = b.className) :
    a = b := by
  cases a <;> cases b <;> simp_all [shape, className]

theorem signature_toRuby_inj {m n : String}
    (h : (toRuby m false).signature = (toRuby n false).signature) : m = n := by
  simpa [signature, pointer, Ty.spell, Ty.constPart] using h

end Converter

namespace Setting

/-- A type that is resolved, as that of a result or of a parameter, in some scope. -/
structure Use where
  isResult : Bool
  scope : DeclId
  ty : Ty

/-- A result that is a pointer to what a name denotes. -/
def Use.pointerTo (scope : DeclId) (name : String) : Use :=
  ⟨true, scope, .pointer (.named name) false⟩

/-- Resolve a type as what it is used for. -/
def resolveUse (g : Setting) (u : Use) : Run Ty :=
  if u.isResult then g.resolveResult u.scope u.ty else g.resolveParam u.scope u.ty

/-- The conversions that are noted when some types are resolved, one after the other. -/
def convertersOf (g : Setting) (us : List Use) : List Converter :=
  (us.foldl (fun s u => ((g.resolveUse u).run s).2) {}).converters

/-- Whether a list of conversions is one that resolving can lead to: no two have one signature, and
each is for something that is spelled for a class. -/
structure Noted (g : Setting) (cs : List Converter) : Prop where
  distinct : cs.Pairwise fun a b => a.signature ≠ b.signature
  spelled : ∀ a ∈ cs, ∃ c i, g.library.SpelledFor c i ∧ a.className = g.library.classType i

variable {g : Setting} {c : DeclId} {us : List Use} {cs : List Converter}

theorem Noted.note (h : g.Noted cs) {a : Converter}
    (ha : ∃ c i, g.library.SpelledFor c i ∧ a.className = g.library.classType i) :
    g.Noted (Converter.note cs a) := by
  have hsignatures := Converter.nodup_note (List.pairwise_map.mpr h.distinct) a
  refine ⟨List.pairwise_map.mp hsignatures, fun b hb => ?_⟩
  rcases Converter.mem_note hb with hb | rfl
  · exact h.spelled b hb
  · exact ha

theorem Noted.need {s : Session} (h : g.Noted s.converters) {needed : Option Converter}
    (hneeded : ∀ a, needed = some a →
      ∃ c i, g.library.SpelledFor c i ∧ a.className = g.library.classType i) :
    g.Noted (s.need needed).converters := by
  cases needed with
  | none => exact h
  | some a => exact h.note (hneeded a rfl)

/-- A conversion for a resolved type is for a class that the type denotes where it was written. -/
theorem exists_spelledFor_of_wrappedClass? (hw : g.library.tree.WellFormed) {scope : DeclId}
    (hs : scope < g.library.tree.size) {t : Ty} {name : String} {isConst : Bool}
    (h : g.library.wrappedClass? (g.library.resolve scope t) = some (name, isConst)) :
    ∃ c i, g.library.SpelledFor c i ∧ name = g.library.classType i := by
  obtain ⟨ht, c, hmeans⟩ := Library.wrappedClass?_eq_some_iff.mp h
  obtain ⟨written, -, rfl⟩ := Ty.eq_pointer_named_of_mapNames ht
  obtain ⟨i, hi, hspelled⟩ := Library.exists_resolve?_of_means hw hs hmeans
  rw [hspelled] at hmeans
  exact ⟨c, i, ⟨⟨scope, hs, written, hi⟩, hmeans⟩, hspelled⟩

/-- Resolving a type notes at most what the type is spelled for. -/
theorem Noted.resolveUse (hw : g.library.tree.WellFormed) {u : Use}
    (hu : u.scope < g.library.tree.size) {s : Session} (h : g.Noted s.converters) :
    g.Noted ((g.resolveUse u).run s).2.converters := by
  unfold Setting.resolveUse
  split
  next =>
    refine h.need fun a ha => ?_
    rw [Converter.ofResult?, Option.map_eq_some_iff] at ha
    obtain ⟨⟨name, isConst⟩, hclass, rfl⟩ := ha
    exact exists_spelledFor_of_wrappedClass? hw hu hclass
  next =>
    refine h.need fun a ha => ?_
    unfold Converter.ofParam? at ha
    split at ha
    next name hclass =>
      cases ha
      exact exists_spelledFor_of_wrappedClass? hw hu hclass
    next => cases ha

theorem Noted.foldl (hw : g.library.tree.WellFormed) :
    ∀ (us : List Use) (s : Session), (∀ u ∈ us, u.scope < g.library.tree.size) →
      g.Noted s.converters →
      g.Noted (us.foldl (fun s u => ((g.resolveUse u).run s).2) s).converters
  | [], _, _, h => h
  | u :: us, s, hus, h => by
    obtain ⟨hu, hus⟩ := List.forall_mem_cons.mp hus
    exact Noted.foldl hw us _ hus (h.resolveUse hw hu)

theorem noted_convertersOf (hw : g.library.tree.WellFormed)
    (hus : ∀ u ∈ us, u.scope < g.library.tree.size) : g.Noted (g.convertersOf us) :=
  Noted.foldl hw us {} hus ⟨.nil, fun _ h => absurd h List.not_mem_nil⟩

/-! ## One conversion -/

/-- If all that denotes a class is spelled alike, the class has one conversion of each kind. -/
theorem Noted.not_sameFor (h : g.Noted cs)
    (halike : ∀ i j, g.library.SpelledFor c i → g.library.SpelledFor c j →
      g.library.classType i = g.library.classType j) :
    cs.Pairwise fun a b => ¬ Converter.SameFor g.library c a b := by
  have hspelled : ∀ a ∈ cs, g.library.Means a.className c →
      ∃ i, g.library.SpelledFor c i ∧ a.className = g.library.classType i := by
    intro a ha hmeans
    obtain ⟨_, i, hi, hname⟩ := h.spelled a ha
    exact ⟨i, ⟨hi.1, hname ▸ hmeans⟩, hname⟩
  refine h.distinct.imp_of_mem ?_
  rintro a b ha hb hne ⟨hshape, hac, hbc⟩
  obtain ⟨i, hi, hai⟩ := hspelled a ha hac
  obtain ⟨j, hj, hbj⟩ := hspelled b hb hbc
  have hname : a.className = b.className := by rw [hai, hbj, halike i j hi hj]
  exact hne (by rw [Converter.eq_of_shape_of_className hshape hname])

theorem run_resolveUse_result (g : Setting) (scope : DeclId) (t : Ty) (s : Session) :
    ((g.resolveUse ⟨true, scope, t⟩).run s).2 =
      s.need (Converter.ofResult? g.library (g.library.resolve scope t)) := rfl

/-- A result that is a pointer to a class needs the conversion that is spelled for the class. -/
theorem run_resolveUse_pointerTo {scope i : DeclId} {name : String} (s : Session)
    (hname : g.library.tree.resolve? scope name = some i)
    (hmeans : g.library.Means (g.library.classType i) c) :
    ((g.resolveUse (.pointerTo scope name)).run s).2 =
      s.need (some (.toRuby (g.library.classType i) false)) := by
  have hresolved : g.library.resolve scope (.pointer (.named name) false) =
      .pointer (.named (g.library.classType i)) false := by
    simp only [Library.resolve, Ty.mapNames, Library.resolveName, hname]
  have hclass : g.library.wrappedClass? (.pointer (.named (g.library.classType i)) false) =
      some (g.library.classType i, false) :=
    Library.wrappedClass?_eq_some_iff.mpr ⟨rfl, c, hmeans⟩
  have hneeded : Converter.ofResult? g.library (g.library.resolve scope
      (.pointer (.named name) false)) = some (.toRuby (g.library.classType i) false) := by
    rw [hresolved, Converter.ofResult?, hclass, Option.map_some]
  rw [Use.pointerTo, run_resolveUse_result, hneeded]

/-- If a class is spelled in two ways, there are two results that lead to two conversions for it. -/
theorem exists_not_pairwise {i j : DeclId} (hi : g.library.SpelledFor c i)
    (hj : g.library.SpelledFor c j) (hne : g.library.classType i ≠ g.library.classType j) :
    ∃ us : List Use, (∀ u ∈ us, u.scope < g.library.tree.size) ∧
      ¬ (g.convertersOf us).Pairwise fun a b => ¬ Converter.SameFor g.library c a b := by
  obtain ⟨⟨scope, hscope, name, hname⟩, hmeans⟩ := hi
  obtain ⟨⟨scope', hscope', name', hname'⟩, hmeans'⟩ := hj
  let a : Converter := .toRuby (g.library.classType i) false
  let b : Converter := .toRuby (g.library.classType j) false
  have hsig : (a.signature == b.signature) = false :=
    beq_eq_false_iff_ne.mpr fun h => hne (Converter.signature_toRuby_inj h)
  have hboth : g.convertersOf [.pointerTo scope name, .pointerTo scope' name'] = [a, b] := by
    rw [convertersOf, List.foldl_cons, List.foldl_cons, List.foldl_nil,
      run_resolveUse_pointerTo _ hname hmeans, run_resolveUse_pointerTo _ hname' hmeans']
    simp [Session.need, Converter.note, a, b, hsig]
  refine ⟨[.pointerTo scope name, .pointerTo scope' name'], ?_, ?_⟩
  · simp [Use.pointerTo, hscope, hscope']
  · rw [hboth, List.pairwise_pair, not_not]
    exact ⟨rfl, hmeans, hmeans'⟩

/-- A class has one conversion of each kind, whatever is resolved, exactly if all that denotes it is
spelled alike. Where types are plainly named, that is so if the class has no typedef, or gives way
to its only one. -/
theorem one_converter_iff (g : Setting) (hw : g.library.tree.WellFormed) (c : DeclId)
    (hc : (g.library.tree.get c).isRecord) :
    ((∀ us : List Use, (∀ u ∈ us, u.scope < g.library.tree.size) →
        (g.convertersOf us).Pairwise fun a b => ¬ Converter.SameFor g.library c a b) ↔
      ∀ i j, g.library.SpelledFor c i → g.library.SpelledFor c j →
        g.library.classType i = g.library.classType j) ∧
    (g.library.PlainlyNamed →
      ((∀ us : List Use, (∀ u ∈ us, u.scope < g.library.tree.size) →
          (g.convertersOf us).Pairwise fun a b => ¬ Converter.SameFor g.library c a b) ↔
        g.library.tree.typedefsOf c = [] ∨
          (∃ d, g.library.tree.typedefsOf c = [d]) ∧
            (g.library.note c).keepsOwnName = false)) := by
  have hiff : (∀ us : List Use, (∀ u ∈ us, u.scope < g.library.tree.size) →
        (g.convertersOf us).Pairwise fun a b => ¬ Converter.SameFor g.library c a b) ↔
      ∀ i j, g.library.SpelledFor c i → g.library.SpelledFor c j →
        g.library.classType i = g.library.classType j := by
    constructor
    · intro hone i j hi hj
      by_contra hne
      obtain ⟨us, hus, htwo⟩ := exists_not_pairwise hi hj hne
      exact htwo (hone us hus)
    · intro halike us hus
      exact (noted_convertersOf hw hus).not_sameFor halike
  exact ⟨hiff, fun hplain => hiff.trans (Library.spelledAlike_iff hw hplain hc)⟩

/-- A class and typedefs for it. -/
def vectorTree (typedefs : List String) : DeclTree :=
  typedefs.foldl (fun t name => (t.add DeclTree.root name (.typedef (.named "VectorImpl"))).2)
    (DeclTree.empty.add DeclTree.root "VectorImpl" (.record false [])).2

def vectorSetting (typedefs : List String) : Setting where
  library := { tree := vectorTree typedefs }

/-- With one typedef there is one conversion of each kind. -/
theorem one_converter_vector :
    (vectorTree ["Vector"]).WellFormed ∧ ((vectorTree ["Vector"]).get 1).isRecord ∧
      (vectorSetting ["Vector"]).library.PlainlyNamed ∧
      ∀ us : List Use, (∀ u ∈ us, u.scope < (vectorTree ["Vector"]).size) →
        ((vectorSetting ["Vector"]).convertersOf us).Pairwise fun a b =>
          ¬ Converter.SameFor (vectorSetting ["Vector"]).library 1 a b := by
  have hw : (vectorTree ["Vector"]).WellFormed :=
    (DeclTree.Built.add (.add .empty (by decide) _ _) (by decide) _ _).wellFormed
  have hplain : (vectorSetting ["Vector"]).library.PlainlyNamed :=
    Library.plainlyNamed_iff_all.mpr (by cbv)
  have hiff := (one_converter_iff (vectorSetting ["Vector"]) hw 1 rfl).2 hplain
  exact ⟨hw, rfl, hplain, hiff.mpr (.inr ⟨⟨2, by cbv⟩, rfl⟩)⟩

/-- With two typedefs, results that are spelled by the class and by a typedef lead to two
conversions for one type. -/
theorem not_one_converter_vector :
    (vectorTree ["Vector", "Points"]).WellFormed ∧
      (vectorTree ["Vector", "Points"]).typedefTarget? 2 = some 1 ∧
      (vectorSetting ["Vector", "Points"]).convertersOf
        [.pointerTo DeclTree.root "VectorImpl", .pointerTo DeclTree.root "Vector"] =
        [.toRuby "VectorImpl" false, .toRuby "Vector" false] ∧
      Converter.SameFor (vectorSetting ["Vector", "Points"]).library 1 (.toRuby "VectorImpl" false)
        (.toRuby "Vector" false) := by
  refine ⟨?_, by cbv, by cbv, rfl, ⟨rfl, 1, by cbv, .inl rfl⟩, ⟨rfl, 2, by cbv, .inr (by cbv)⟩⟩
  exact (DeclTree.Built.add (.add (.add .empty (by decide) _ _) (by decide) _ _) (by decide)
    _ _).wellFormed

end Setting

end RubyBinding
