import RubyBinding.Ty.Spelling

/-!
# Qualifiers in a spelling

The qualifier of a pointer or a reference stands in front of the whole spelling of what it is over.
So all the qualifiers of a type come to stand together, in front of what the type is based on, and a
spelling tells how many levels of the type are to something constant, but not which
(`Ty.spell_eq_iff_constLevels`).
-/

namespace RubyBinding.Ty

variable {t u : Ty}

/-- What a type is based on: what is left below all pointers and references. -/
def bottom : Ty → Ty
  | pointer t _ => bottom t
  | reference t _ _ => bottom t
  | t => t

def isFunction : Ty → Bool
  | function _ _ => true
  | _ => false

/-- A type with the same pointers and references, none of them to something constant. -/
def unqualified : Ty → Ty
  | pointer t _ => pointer (unqualified t) false
  | reference t _ isRvalue => reference (unqualified t) false isRvalue
  | t => t

/-- How many of the pointers and references of a type are to something constant. -/
def constLevels : Ty → Nat
  | pointer t isConst => constLevels t + isConst.toNat
  | reference t isConst _ => constLevels t + isConst.toNat
  | _ => 0

theorem isFunction_of_bottom (h : t.bottom.isFunction = false) : t.isFunction = false := by
  cases t with
  | function => exact h
  | _ => rfl

theorem bottom_unqualified (t : Ty) : t.unqualified.bottom = t.bottom := by
  fun_induction unqualified t with
  | case1 t _ ih => exact ih
  | case2 t _ _ ih => exact ih
  | case3 => rfl

theorem spell_pointer (h : t.isFunction = false) (isConst : Bool) :
    (pointer t isConst).spell = constPart isConst ++ t.spell ++ "*" := by
  cases t with
  | function => cases h
  | _ => rfl

/-- Some qualifiers, one after the other. -/
def qualifiers (n : Nat) : List Char := (List.replicate n "const ".toList).flatten

theorem constPart_append_qualifiers (isConst : Bool) (n : Nat) :
    (constPart isConst).toList ++ qualifiers n = qualifiers (n + isConst.toNat) := by
  cases isConst with
  | false => rfl
  | true => rw [qualifiers, qualifiers, Bool.toNat_true, List.replicate_succ]; rfl

/-- All qualifiers stand in front of what is spelled without them. -/
theorem toList_spell_eq (h : t.bottom.isFunction = false) :
    t.spell.toList = qualifiers t.constLevels ++ t.unqualified.spell.toList := by
  fun_induction bottom t with
  | case1 t isConst ih =>
    have hun : t.unqualified.isFunction = false :=
      isFunction_of_bottom (by rwa [bottom_unqualified])
    rw [spell_pointer (isFunction_of_bottom h), unqualified, spell_pointer hun, constLevels,
      ← constPart_append_qualifiers]
    simp only [String.toList_append, ih h, List.append_assoc]
    rfl
  | case2 t isConst isRvalue ih =>
    rw [spell, unqualified, spell, constLevels, ← constPart_append_qualifiers]
    simp only [String.toList_append, ih h, List.append_assoc]
    rfl
  | case3 t hpointer hreference =>
    cases t with
    | pointer t isConst => exact absurd rfl (hpointer t isConst)
    | reference t isConst isRvalue => exact absurd rfl (hreference t isConst isRvalue)
    | _ => rfl

theorem length_qualifiers (n : Nat) : (qualifiers n).length = n * 6 := by
  rw [qualifiers, List.length_flatten, List.map_replicate, List.sum_replicate_nat]
  rfl

/-- **A spelling tells the number of qualifiers only.** Two types with the same pointers and
references over the same base are spelled alike exactly if equally many levels of each are to
something constant. -/
theorem spell_eq_iff_constLevels (hbase : t.bottom.isFunction = false)
    (hsame : t.unqualified = u.unqualified) :
    t.spell = u.spell ↔ t.constLevels = u.constLevels := by
  have hbase' : u.bottom.isFunction = false := by
    rwa [← bottom_unqualified, ← hsame, bottom_unqualified]
  rw [← String.toList_inj, toList_spell_eq hbase, toList_spell_eq hbase', hsame,
    List.append_left_inj]
  constructor
  · intro h
    have hlength := congrArg List.length h
    rw [length_qualifiers, length_qualifiers] at hlength
    omega
  · exact fun h => congrArg qualifiers h

/-- A pointer to a constant pointer to a node. -/
def constantLink : Ty := pointer (pointer (named "Node") false) true

/-- A pointer to a pointer to a constant node. -/
def linkToConstant : Ty := pointer (pointer (named "Node") true) false

/-- A pointer to a constant pointer to a constant node. -/
def constantLinkToConstant : Ty := pointer (pointer (named "Node") true) true

/-- Two constants are told from one. -/
theorem spell_constantLinkToConstant_ne :
    constantLink.bottom.isFunction = false ∧
      constantLink.unqualified = constantLinkToConstant.unqualified ∧
      constantLink.spell ≠ constantLinkToConstant.spell := by
  have hbase : constantLink.bottom.isFunction = false := rfl
  have hsame : constantLink.unqualified = constantLinkToConstant.unqualified := rfl
  refine ⟨hbase, hsame, fun h => ?_⟩
  exact absurd ((spell_eq_iff_constLevels hbase hsame).mp h) (by decide)

/-- Of one constant, the level cannot be seen. -/
theorem spell_constantLink_eq :
    constantLink.unqualified = linkToConstant.unqualified ∧ constantLink ≠ linkToConstant ∧
      constantLink.spell = "const Node**" ∧ linkToConstant.spell = "const Node**" :=
  ⟨rfl, nofun, by cbv, by cbv⟩

end RubyBinding.Ty
