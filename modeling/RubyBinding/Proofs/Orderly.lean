import RubyBinding.Header.Entry
import RubyBinding.Proofs.Growth

/-!
# Trees in which everything suits its scope

A tree is orderly (`Orderly`) if each declaration in it suits the scope that it stands in, and no
scope has two namespaces, two classes or two enumerations of one name. It stays so when something is
declared that fits (`Fits`). `Extends` says of a tree that grew what it keeps, and where the rest is
from.
-/

namespace RubyBinding

/-! ## Qualified names -/

namespace Text

theorem isSome_after?_iff {lead cs : List Char} : (after? lead cs).isSome ↔ lead <+: cs := by
  constructor
  · intro h
    obtain ⟨r, hr⟩ := Option.isSome_iff_exists.mp h
    exact ⟨r, (eq_append_of_after? hr).symm⟩
  · rintro ⟨r, rfl⟩
    rw [after?_append]
    rfl

theorem isSome_before?_iff {tail cs : List Char} : (before? tail cs).isSome ↔ tail <:+ cs := by
  rw [before?, Option.isSome_map, isSome_after?_iff, List.reverse_prefix]

theorem hasPart_iff {part cs : List Char} : hasPart part cs ↔ part <:+: cs := by
  induction cs with
  | nil => simp [hasPart]
  | cons c cs ih => rw [hasPart, Bool.or_eq_true, ih, isSome_after?_iff, List.infix_cons_iff]

theorem trim_infix (cs : List Char) : trim cs <:+: cs := by
  have hend : trim cs <+: trimStart cs := by
    rw [← List.reverse_suffix, trim, trimEnd, dropEndWhile, List.reverse_reverse]
    exact List.dropWhile_suffix _
  exact hend.isInfix.trans (List.dropWhile_suffix _).isInfix

end Text

namespace DeclTree

/-- The first piece of a text stands at its beginning. -/
theorem head_splitPath_prefix (cs : List Char) : ∃ w ws, splitPath cs = w :: ws ∧ w <+: cs := by
  induction cs using splitPath.induct with
  | case1 => exact ⟨[], [], rfl, List.prefix_rfl⟩
  | case2 r _ => exact ⟨[], splitPath r, rfl, List.nil_prefix⟩
  | case3 c r hne ih =>
    obtain ⟨w, ws, hw, hprefix⟩ := ih
    refine ⟨c :: w, ws, ?_, List.cons_prefix_cons.mpr ⟨rfl, hprefix⟩⟩
    rw [splitPath.eq_3 c r hne, hw, Text.extendHead]

/-- What a text is split at occurs in none of its pieces. -/
theorem not_infix_of_mem_splitPath {cs s : List Char} (hs : s ∈ splitPath cs) :
    ¬[':', ':'] <:+: s := by
  induction cs using splitPath.induct generalizing s with
  | case1 =>
    rw [List.mem_singleton.mp hs]
    simp
  | case2 r ih =>
    rcases List.mem_cons.mp hs with rfl | hs
    · simp
    · exact ih hs
  | case3 c r hne ih =>
    obtain ⟨w, ws, hw, hprefix⟩ := head_splitPath_prefix r
    rw [splitPath.eq_3 c r hne, hw, Text.extendHead] at hs
    rcases List.mem_cons.mp hs with rfl | hs
    · rw [List.infix_cons_iff]
      rintro (hhead | htail)
      · -- The piece would go on with the mark that the text was not split at.
        obtain ⟨rfl, hcolon⟩ := List.cons_prefix_cons.mp hhead
        obtain ⟨r', rfl⟩ := hcolon.trans hprefix
        exact hne r' rfl rfl
      · exact ih (hw ▸ List.mem_cons_self) htail
    · exact ih (hw ▸ List.mem_cons_of_mem w hs)

end DeclTree

namespace Header

open DeclTree

theorem isQualified_eq_false_iff {name : String} :
    isQualified name = false ↔ ¬[':', ':'] <:+: name.toList := by
  rw [isQualified, ← Text.hasPart_iff, Bool.not_eq_true]

theorem isQualified_of_mem_segments {path : List Char} {s : String} (hs : s ∈ segments path) :
    isQualified s = false := by
  obtain ⟨piece, hpiece, rfl⟩ := List.mem_map.mp hs
  rw [isQualified_eq_false_iff, String.toList_ofList]
  exact fun h => not_infix_of_mem_splitPath hpiece (h.trans (Text.trim_infix piece))

theorem isQualified_lastSegment (name : String) : isQualified (lastSegment name) = false := by
  obtain ⟨w, ws, hw, -⟩ := head_splitPath_prefix name.toList.reverse
  have hnot : ¬[':', ':'] <:+: w := not_infix_of_mem_splitPath (hw ▸ List.mem_cons_self)
  rw [isQualified_eq_false_iff, lastSegment, hw, String.toList_ofList]
  exact fun h => hnot (List.reverse_infix.mp (h.trans (Text.trim_infix w.reverse)))

theorem isQualified_of_typedefName? {ds : List Declarator} {name : String}
    (h : typedefName? ds = some name) : isQualified name = false := by
  unfold typedefName? at h
  split at h
  · split at h
    · cases h
    · next text _ hq =>
      cases h
      exact Bool.eq_false_iff.mpr hq
  · cases h

end Header

/-! ## Declarations that suit their scope -/

/-- The kinds of which a scope has one declaration of each name. -/
def Kind.sole : List (Kind → Bool) := [isNamespace, isRecord, isEnumeration]

theorem Kind.mem_sole_iff {isOne : Kind → Bool} :
    isOne ∈ sole ↔ isOne = isNamespace ∨ isOne = isRecord ∨ isOne = isEnumeration := by
  simp [sole]

/-- A kind is one of those at most. -/
theorem Kind.eq_of_sole {isOne isOther : Kind → Bool} (hone : isOne ∈ sole)
    (hother : isOther ∈ sole) {kind : Kind} (h : isOne kind) (h' : isOther kind) :
    isOne = isOther := by
  rw [mem_sole_iff] at hone hother
  rcases hone with rfl | rfl | rfl <;> rcases hother with rfl | rfl | rfl <;> cases kind <;>
    simp_all [isNamespace, isRecord, isEnumeration]

theorem Kind.not_sole_of_member {isOne : Kind → Bool} (hone : isOne ∈ sole) {kind : Kind}
    (h : isOne kind) : kind.isFunction = false ∧ kind.isMethod = false ∧ kind.isCtor = false ∧
      kind.isField = false := by
  rw [mem_sole_iff] at hone
  rcases hone with rfl | rfl | rfl <;> cases kind <;>
    simp_all [isNamespace, isRecord, isEnumeration, isFunction, isMethod, isCtor, isField]

namespace DeclTree

variable {t u v : DeclTree} {name file : String} {kind : Kind} {scope : DeclId} {access : Access}

/-- Whether a declaration of a name and a kind may stand in a scope. -/
structure Suits (around : Decl) (name : String) (kind : Kind) : Prop where
  isScope : around.isNamespace ∨ around.isRecord
  function : kind.isFunction → around.isNamespace
  member : kind.isMethod ∨ kind.isCtor ∨ kind.isField → around.isRecord
  ctor : kind.isCtor → name = around.name
  unqualified : kind.isNamespace ∨ kind.isRecord ∨ kind.isEnumeration ∨ kind.isFunction ∨
    kind.isMethod ∨ kind.isCtor → Header.isQualified name = false

/-- Whether something suits a scope depends on the name and the kind of the scope. -/
theorem Suits.of_eq {a b : Decl} (h : Suits a name kind) (hname : b.name = a.name)
    (hkind : b.kind = a.kind) : Suits b name kind := by
  have hns : b.isNamespace = a.isNamespace := by rw [Decl.isNamespace, hkind, Decl.isNamespace]
  have hrec : b.isRecord = a.isRecord := by rw [Decl.isRecord, hkind, Decl.isRecord]
  constructor
  · rw [hns, hrec]
    exact h.isScope
  · rw [hns]
    exact h.function
  · rw [hrec]
    exact h.member
  · rw [hname]
    exact h.ctor
  · exact h.unqualified

/-- Whether a name may be declared in a scope of a tree: it suits the scope, and does not repeat. -/
structure Fits (t : DeclTree) (scope : DeclId) (name : String) (kind : Kind) : Prop where
  lt_size : scope < t.size
  suits : Suits (t.get scope) name kind
  fresh : ∀ isOne ∈ Kind.sole, isOne kind → ∀ c ∈ t.children scope, isOne (t.get c).kind →
    (t.get c).name ≠ name

/-- A tree in which every declaration suits its scope. -/
structure Orderly (t : DeclTree) : Prop extends WellFormed t where
  suits : ∀ p c, t.parent? c = some p → Suits (t.get p) (t.get c).name (t.get c).kind
  classes : Unrepeated (fun _ kind => kind.isRecord) t
  enumerations : Unrepeated (fun _ kind => kind.isEnumeration) t
  namespaces : Unrepeated (fun _ kind => kind.isNamespace) t

theorem Orderly.empty : Orderly empty where
  toWellFormed := .empty
  suits := by
    intro p c hpar
    rw [parent?, get_empty] at hpar
    cases hpar
  classes := Unrepeated.empty _
  enumerations := Unrepeated.empty _
  namespaces := Unrepeated.empty _

/-- One declaration more, where it fits. -/
theorem Orderly.add (h : Orderly t) (hfits : Fits t scope name kind) :
    Orderly (t.add scope name kind).2 where
  toWellFormed := h.toWellFormed.add hfits.lt_size name kind
  suits := by
    intro p c hpar
    have hname : ∀ i, i ≠ t.size → ((t.add scope name kind).2.get i).name = (t.get i).name :=
      fun i hi => (apply_get_add Decl.name (fun _ _ => rfl) hfits.lt_size name kind i).trans
        (if_neg hi)
    have hkind : ∀ i, i ≠ t.size → ((t.add scope name kind).2.get i).kind = (t.get i).kind :=
      fun i hi => (apply_get_add Decl.kind (fun _ _ => rfl) hfits.lt_size name kind i).trans
        (if_neg hi)
    rw [parent?_add hfits.lt_size] at hpar
    by_cases hc : c = t.size
    · rw [if_pos hc] at hpar
      cases hpar
      have hps : scope ≠ t.size := Nat.ne_of_lt hfits.lt_size
      rw [hc, get_add hfits.lt_size _ _ t.size, if_neg hps.symm, if_pos rfl]
      exact hfits.suits.of_eq (hname scope hps) (hkind scope hps)
    · rw [if_neg hc] at hpar
      have hps : p ≠ t.size := Nat.ne_of_lt
        (Nat.lt_trans (h.toWellFormed.parent_lt_of_eq hpar) (lt_size_of_parent hpar))
      rw [hname c hc, hkind c hc]
      exact (h.suits p c hpar).of_eq (hname p hps) (hkind p hps)
  classes := h.classes.add h.toWellFormed hfits.lt_size (hfits.fresh _ (by simp [Kind.sole]))
  enumerations := h.enumerations.add h.toWellFormed hfits.lt_size
    (hfits.fresh _ (by simp [Kind.sole]))
  namespaces := h.namespaces.add h.toWellFormed hfits.lt_size (hfits.fresh _ (by simp [Kind.sole]))

/-- A change of one declaration that leaves its place, its name and its kind. -/
theorem Orderly.modify (h : Orderly t) (j : DeclId) (change : Decl → Decl)
    (hid : ∀ d, (change d).id = d.id) (hname : ∀ d, (change d).name = d.name)
    (hkind : ∀ d, (change d).kind = d.kind) (hparent : ∀ d, (change d).parent = d.parent)
    (hchildren : ∀ d, (change d).children = d.children) :
    Orderly ⟨t.decls.modify j change⟩ where
  toWellFormed := h.toWellFormed.modify j change hid hkind hparent hchildren
  suits := by
    intro p c hpar
    rw [parent?, apply_get_modify Decl.parent change hparent] at hpar
    rw [apply_get_modify Decl.name change hname, apply_get_modify Decl.kind change hkind]
    exact (h.suits p c hpar).of_eq (apply_get_modify Decl.name change hname t j p)
      (apply_get_modify Decl.kind change hkind t j p)
  classes := h.classes.modify j change hname hkind hchildren
  enumerations := h.enumerations.modify j change hname hkind hchildren
  namespaces := h.namespaces.modify j change hname hkind hchildren

/-- Reading after a change of one declaration. -/
theorem get_modify {j : DeclId} (change : Decl → Decl) (hj : j < t.size) (i : DeclId) :
    get ⟨t.decls.modify j change⟩ i = if i = j then change (t.get j) else t.get i := by
  have hj' : j < t.decls.size := hj
  simp only [get, Array.getElem?_modify]
  by_cases hij : i = j
  · subst hij
    simp [hj']
  · have hji : j ≠ i := fun h => hij h.symm
    rw [if_neg hij, if_neg hji]

/-! ## What stays in its place -/

/-- A tree `u` has everything that a tree `t` has, as it was but for members that were added. -/
structure Keeps (t u : DeclTree) : Prop where
  size_le : t.size ≤ u.size
  kept : ∀ i < t.size, ∃ added, u.get i = { t.get i with children := t.children i ++ added } ∧
    ∀ c ∈ added, t.size ≤ c

/-- What is new in a tree was read from a file, which all but namespaces tell. -/
structure Extends (file : String) (t u : DeclTree) : Prop extends Keeps t u where
  noted : ∀ i, t.size ≤ i → i < u.size →
    (u.get i).file = if (u.get i).isNamespace then none else some file

theorem Keeps.refl (t : DeclTree) : Keeps t t where
  size_le := Nat.le_refl _
  kept := fun i _ => ⟨[], by rw [List.append_nil]; rfl, by simp⟩

theorem Keeps.trans (htu : Keeps t u) (huv : Keeps u v) : Keeps t v where
  size_le := Nat.le_trans htu.size_le huv.size_le
  kept := by
    intro i hi
    obtain ⟨added, hget, hle⟩ := htu.kept i hi
    obtain ⟨more, hget', hle'⟩ := huv.kept i (Nat.lt_of_lt_of_le hi htu.size_le)
    refine ⟨added ++ more, ?_, ?_⟩
    · rw [hget', children, hget, List.append_assoc]
    · intro c hc
      rcases List.mem_append.mp hc with hc | hc
      · exact hle c hc
      · exact Nat.le_trans htu.size_le (hle' c hc)

/-- Reading a declaration that stays in its place, where `f` does not read the members. -/
theorem Keeps.apply_get {β : Type} (h : Keeps t u) (f : Decl → β)
    (hf : ∀ d cs, f { d with children := cs } = f d) {i : DeclId} (hi : i < t.size) :
    f (u.get i) = f (t.get i) := by
  obtain ⟨added, hget, -⟩ := h.kept i hi
  rw [hget, hf]

theorem Extends.refl (file : String) (t : DeclTree) : Extends file t t where
  toKeeps := .refl t
  noted := fun _ hle hlt => absurd hle (Nat.not_le_of_lt hlt)

theorem Extends.trans (htu : Extends file t u) (huv : Extends file u v) : Extends file t v where
  toKeeps := htu.toKeeps.trans huv.toKeeps
  noted := by
    intro i hle hlt
    by_cases hi : i < u.size
    · rw [huv.apply_get Decl.file (fun _ _ => rfl) hi,
        huv.apply_get Decl.isNamespace (fun _ _ => rfl) hi]
      exact htu.noted i hle hi
    · exact huv.noted i (Nat.le_of_not_lt hi) hlt

/-- A scope has a member more, and that is there itself. -/
theorem Extends.of_get (hs : scope < t.size) (hsize : u.size = t.size + 1) {d : Decl}
    (hget : ∀ i, u.get i =
      if i = scope then { t.get scope with children := t.children scope ++ [t.size] }
      else if i = t.size then d else t.get i)
    (hfile : d.file = if d.isNamespace then none else some file) : Extends file t u where
  size_le := by
    rw [hsize]
    exact Nat.le_succ _
  kept := by
    intro i hi
    rw [hget]
    by_cases his : i = scope
    · exact ⟨[t.size], by rw [if_pos his, his], by simp⟩
    · exact ⟨[], by rw [if_neg his, if_neg (Nat.ne_of_lt hi), List.append_nil]; rfl, by simp⟩
  noted := by
    intro i hle hlt
    rw [hsize] at hlt
    have hi : i = t.size := Nat.le_antisymm (Nat.le_of_lt_succ hlt) hle
    have hne : i ≠ scope := fun h => Nat.not_lt_of_le hle (h ▸ hs)
    rw [hget, if_neg hne, if_pos hi]
    exact hfile

end DeclTree

end RubyBinding
