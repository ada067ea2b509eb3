import Mathlib
import RubyBinding.Proofs.Replacements

/-!
# Other lexemes in a function body

A group in braces among the lexemes of a header (`Group`) may be filled with other lexemes, and the
rest of the header moves along (`Parsed.refill`). Where the group is a function body, what is entered
is the same, unless `=delete` comes or goes with its text, blanks apart; a function with `=delete` in
its body is not entered (`Parsed.enter_refill`).
-/

namespace RubyBinding.Header

open Grammar.Tree Header.Tree

/-! ## Groups -/

/-- A group in braces among some lexemes. -/
structure Group (ls : List Lexeme) where
  front : List Lexeme
  opening : Lexeme
  inside : List Lexeme
  closing : Lexeme
  rest : List Lexeme
  lexemes_eq : ls = front ++ opening :: inside ++ closing :: rest
  opens : opening.text = "\x7b"
  closes : closing.text = "\x7d"

namespace Group

variable {ls : List Lexeme} (g : Group ls)

def start : Nat := g.front.length

def stop : Nat := g.front.length + g.inside.length + 2

/-- The text between the braces. -/
def inner : String := joined g.inside ++ g.closing.gap

/-- The lexemes with other ones in the group, and another gap in front of the closing brace. -/
def refilled (inside : List Lexeme) (gap : String) : List Lexeme :=
  g.front ++ g.opening :: inside ++ { g.closing with gap } :: g.rest

def refill (inside : List Lexeme) (gap : String) : Group (g.refilled inside gap) where
  front := g.front
  opening := g.opening
  inside := inside
  closing := { g.closing with gap }
  rest := g.rest
  lexemes_eq := rfl
  opens := g.opens
  closes := g.closes

/-- Where a place beside the group goes when it is filled with other lexemes. -/
def moved (inside : List Lexeme) (i : Nat) : Nat :=
  if i ≤ g.start then i else i - g.stop + (g.front.length + inside.length + 2)

/-! ### Stretches -/

theorem start_lt_stop : g.start < g.stop := by
  rw [start, stop]
  omega

theorem drop_of_ge {i : Nat} (hi : g.stop ≤ i) : ls.drop i = g.rest.drop (i - g.stop) := by
  have hlength : (g.front ++ g.opening :: g.inside ++ [g.closing]).length = g.stop := by
    simp [stop]
    omega
  calc ls.drop i
      = ((g.front ++ g.opening :: g.inside ++ [g.closing]) ++ g.rest).drop i := by
        rw [List.append_assoc _ [g.closing], List.singleton_append, ← g.lexemes_eq]
    _ = g.rest.drop (i - g.stop) := by
        rw [List.drop_append, List.drop_of_length_le (by omega), hlength, List.nil_append]

theorem drop_of_le {i : Nat} (hi : i ≤ g.start) :
    ls.drop i = g.front.drop i ++ g.opening :: g.inside ++ g.closing :: g.rest := by
  calc ls.drop i
      = (g.front ++ (g.opening :: g.inside ++ g.closing :: g.rest)).drop i := by
        rw [← List.append_assoc, ← g.lexemes_eq]
    _ = g.front.drop i ++ g.opening :: g.inside ++ g.closing :: g.rest := by
        rw [List.drop_append_of_le_length hi, List.append_assoc]

/-- A stretch in front of the group. -/
theorem extract_of_le {a b : Nat} (ha : a ≤ g.start) (hb : b ≤ g.start) :
    ls.extract a b = g.front.extract a b := by
  have hle : b - a ≤ (g.front.drop a).length := by
    rw [List.length_drop]
    exact Nat.sub_le_sub_right hb a
  rw [List.extract_eq_take_drop, List.extract_eq_take_drop, g.drop_of_le ha, List.append_assoc,
    List.take_append_of_le_length hle]

/-- A stretch behind the group. -/
theorem extract_of_ge {a b : Nat} (ha : g.stop ≤ a) :
    ls.extract a b = g.rest.extract (a - g.stop) (b - g.stop) := by
  have hsize : b - g.stop - (a - g.stop) = b - a := by omega
  rw [List.extract_eq_take_drop, List.extract_eq_take_drop, g.drop_of_ge ha, hsize]

/-- A stretch around the group has it whole. -/
theorem extract_around {a b : Nat} (ha : a ≤ g.start) (hb : g.stop ≤ b) :
    ls.extract a b =
      g.front.drop a ++ g.opening :: g.inside ++ g.closing :: g.rest.take (b - g.stop) := by
  have hlength : (g.front.drop a ++ g.opening :: g.inside ++ [g.closing]).length = g.stop - a := by
    simp only [start] at ha
    simp [stop]
    omega
  have hrest : b - a - (g.stop - a) = b - g.stop := by
    have hlt := g.start_lt_stop
    omega
  rw [List.extract_eq_take_drop, g.drop_of_le ha]
  calc (g.front.drop a ++ g.opening :: g.inside ++ g.closing :: g.rest).take (b - a)
      = ((g.front.drop a ++ g.opening :: g.inside ++ [g.closing]) ++ g.rest).take (b - a) := by
        rw [List.append_assoc _ [g.closing], List.singleton_append]
    _ = g.front.drop a ++ g.opening :: g.inside ++ [g.closing] ++ g.rest.take (b - g.stop) := by
        rw [List.take_append, List.take_of_length_le (by omega), hlength, hrest]
    _ = g.front.drop a ++ g.opening :: g.inside ++ g.closing :: g.rest.take (b - g.stop) := by
        rw [List.append_assoc _ [g.closing], List.singleton_append]

theorem getElem?_of_le {i : Nat} (hi : i ≤ g.start) : ls[i]? = (g.front ++ [g.opening])[i]? := by
  have hlt : i < (g.front ++ [g.opening]).length := by
    rw [List.length_append]
    exact Nat.lt_succ_of_le hi
  calc ls[i]?
      = ((g.front ++ [g.opening]) ++ (g.inside ++ g.closing :: g.rest))[i]? := by
        rw [List.append_assoc, List.singleton_append, ← List.cons_append, ← List.append_assoc,
          ← g.lexemes_eq]
    _ = (g.front ++ [g.opening])[i]? := List.getElem?_append_left hlt

theorem getElem?_of_ge {i : Nat} (hi : g.stop ≤ i) : ls[i]? = g.rest[i - g.stop]? := by
  rw [← List.head?_drop, g.drop_of_ge hi, List.head?_drop]

/-! ### Texts -/

/-- The text of a stretch around the group, with the braces in it. -/
theorem joined_around (front rest : List Lexeme) :
    joined (front ++ g.opening :: g.inside ++ g.closing :: rest) =
      joined front ++ g.opening.gap ++ "\x7b" ++ g.inner ++ "\x7d" ++ joined rest := by
  simp only [joined_append, joined_cons, g.opens, g.closes, inner, String.append_assoc]

theorem textOf_cons (l : Lexeme) (ms : List Lexeme) : textOf (l :: ms) = l.text ++ joined ms := rfl

theorem textOf_around (front rest : List Lexeme) :
    textOf (front ++ g.opening :: g.inside ++ g.closing :: rest) =
      (if front = [] then "" else textOf front ++ g.opening.gap) ++ "\x7b" ++ g.inner ++ "\x7d" ++
        joined rest := by
  cases front with
  | nil =>
    rw [if_pos rfl, List.nil_append, List.cons_append, textOf_cons, joined_append, joined_cons,
      g.opens, g.closes, inner]
    simp only [String.append_assoc, String.empty_append]
  | cons l front =>
    rw [if_neg (List.cons_ne_nil l front), List.cons_append, List.cons_append, textOf_cons,
      g.joined_around, textOf_cons]
    simp only [String.append_assoc]

/-! ### Filling a group -/

variable (inside : List Lexeme) (gap : String)

theorem moved_of_le {i : Nat} (hi : i ≤ g.start) : g.moved inside i = i := if_pos hi

theorem moved_of_ge {i : Nat} (hi : g.stop ≤ i) :
    g.moved inside i = i - g.stop + (g.refill inside gap).stop := by
  have hlt := g.start_lt_stop
  exact if_neg (by omega)

/-- A stretch around the group, before it is filled with other lexemes and after. -/
theorem extract_around_refilled {a b : Nat} (ha : a ≤ g.start) (hb : g.stop ≤ b) :
    (g.refilled inside gap).extract (g.moved inside a) (g.moved inside b) =
      g.front.drop a ++ g.opening :: inside ++
        { g.closing with gap } :: g.rest.take (b - g.stop) := by
  rw [g.moved_of_le inside ha, g.moved_of_ge inside gap hb,
    (g.refill inside gap).extract_around ha (Nat.le_add_left _ _), Nat.add_sub_cancel]
  rfl

/-- Nothing stretches from behind the group to the front of it. -/
theorem extract_across {a b : Nat} (ha : g.stop ≤ a) (hb : b ≤ g.start) :
    ls.extract a b = [] := by
  have hlt := g.start_lt_stop
  have hsize : b - a = 0 := by omega
  rw [List.extract_eq_take_drop, hsize, List.take_zero]

variable {inside gap} {lexemes : Array Lexeme} (g : Group lexemes.toList)

theorem keeps_before :
    Keeps lexemes (g.refilled inside gap).toArray (g.moved inside) fun i => decide (i ≤ g.start) where
  extract a b ha hb := by
    have ha : a ≤ g.start := of_decide_eq_true ha
    have hb : b ≤ g.start := of_decide_eq_true hb
    rw [g.moved_of_le inside ha, g.moved_of_le inside hb, Array.toList_extract, Array.toList_extract,
      g.extract_of_le ha hb, (g.refill inside gap).extract_of_le ha hb]
    rfl
  next i hi := by
    have hi : i ≤ g.start := of_decide_eq_true hi
    rw [g.moved_of_le inside hi, ← Array.getElem?_toList, ← Array.getElem?_toList,
      g.getElem?_of_le hi, (g.refill inside gap).getElem?_of_le hi]
    rfl

theorem keeps_after :
    Keeps lexemes (g.refilled inside gap).toArray (g.moved inside) fun i => decide (g.stop ≤ i) where
  extract a b ha hb := by
    have ha : g.stop ≤ a := of_decide_eq_true ha
    have hb : g.stop ≤ b := of_decide_eq_true hb
    rw [g.moved_of_ge inside gap ha, g.moved_of_ge inside gap hb, Array.toList_extract,
      Array.toList_extract, g.extract_of_ge ha,
      (g.refill inside gap).extract_of_ge (Nat.le_add_left _ _), Nat.add_sub_cancel,
      Nat.add_sub_cancel]
    rfl
  next i hi := by
    have hi : g.stop ≤ i := of_decide_eq_true hi
    rw [g.moved_of_ge inside gap hi, ← Array.getElem?_toList, ← Array.getElem?_toList,
      g.getElem?_of_ge hi, (g.refill inside gap).getElem?_of_ge (Nat.le_add_left _ _),
      Nat.add_sub_cancel]
    rfl

/-- Filling a group with other lexemes replaces what stands between its braces. -/
theorem replaces_refilled (inside : List Lexeme) (gap : String) :
    Replaces lexemes (g.refilled inside gap).toArray (g.moved inside) g.start g.stop g.inner
      (joined inside ++ gap) where
  before := g.keeps_before
  after := g.keeps_after
  across a b ha hb := by
    rw [Array.toList_extract, Array.toList_extract, g.extract_across ha hb,
      g.moved_of_ge inside gap ha, g.moved_of_le inside hb]
    exact (g.refill inside gap).extract_across (Nat.le_add_left _ _) hb
  stretch_around a b ha hb := by
    rw [stretch, stretch, Array.toList_extract, Array.toList_extract, g.extract_around ha hb,
      g.extract_around_refilled inside gap ha hb]
    exact ⟨_, _, g.textOf_around _ _, (g.refill inside gap).textOf_around _ _⟩
  joined_around a b ha hb := by
    rw [Array.toList_extract, Array.toList_extract, g.extract_around ha hb,
      g.extract_around_refilled inside gap ha hb]
    exact ⟨_, _, g.joined_around _ _, (g.refill inside gap).joined_around _ _⟩

end Group

/-! ## Headers -/

namespace Parsed

variable (p : Parsed) (g : Group p.lexemes.toList)

/-- A header with other lexemes in a group, and the same tree but for that. -/
def refill (inside : List Lexeme) (gap : String) : Parsed :=
  ⟨(g.refilled inside gap).toArray, moveAll (g.moved inside) p.trees⟩

/-- A header with nothing in a group, not even blanks. -/
def emptied : Parsed := p.refill g [] ""

/-- **Function bodies.** A function body may be filled with anything else that is free of `=delete`
as it is, or is not, and the same is entered; so it may be emptied if it is free of that. If it is not,
then a declaration around it enters no function. -/
theorem enter_refill (hbody : holdsAmong g.start g.stop p.trees) :
    (∀ inside gap, isDeleted (joined inside ++ gap) = isDeleted g.inner →
      ∀ t file, enter t file (p.refill g inside gap).items = enter t file p.items) ∧
    (isDeleted g.inner = false →
      ∀ t file, enter t file (p.emptied g).items = enter t file p.items) ∧
    (isDeleted g.inner = true →
      ∀ (tree : Tree) (d : Declaration), tree.holds g.start g.stop →
        readMember p.lexemes tree = some (.declaration d) → d.isField = false →
        ∀ t file access scope, enterDeclaration t file access scope d =
          enterDeclaration t file access scope d.withoutDeclarators) := by
  have hsound : AllSound g.start g.stop p.trees := allSound_of_holdsAmong hbody
  have hsame : ∀ inside gap, isDeleted (joined inside ++ gap) = isDeleted g.inner →
      ∀ t file, enter t file (p.refill g inside gap).items = enter t file p.items :=
    fun inside gap hinner t file => (g.replaces_refilled inside gap).enter_eq hinner hsound t file
  refine ⟨hsame, fun hfree => hsame [] "" ?_, fun hdeleted tree d htree hd hfield => ?_⟩
  · rw [hfree]
    decide
  · exact (g.replaces_refilled [] "").enterDeclaration_of_holds hdeleted htree hd hfield

/-- What a header with one function consists of: a type, a name, `()` and a body. -/
def functionTree (stop : Nat) : Tree :=
  part .functionDefinition 0 stop [
    part .typeSpecifier 0 1 [token .primitive 0 1],
    part (.declarator .plain) 1 4 [
      part (.function .plain) 1 4 [
        part (.declarator .plain) 1 2 [token .word 1 2],
        part .parameters 2 4 [token (.literal "(") 2 3, token (.literal ")") 3 4]]],
    token .body 4 stop]

/-- The lexemes of a function without parameters in front of its body. -/
def functionHead (name : String) : List Lexeme :=
  [⟨"", "int", .word⟩, ⟨" ", name, .word⟩, ⟨"", "(", .mark⟩, ⟨"", ")", .mark⟩]

def openingBrace : Lexeme := ⟨" ", "\x7b", .mark⟩

def closingBrace : Lexeme := ⟨" ", "\x7d", .mark⟩

/-- A header with one function, by its name and the lexemes in its body. -/
def ofFunction (name : String) (inside : List Lexeme) : Parsed where
  lexemes := (functionHead name ++ openingBrace :: inside ++ [closingBrace]).toArray
  trees := [functionTree (inside.length + 6)]

def bodyOfFunction (name : String) (inside : List Lexeme) :
    Group (ofFunction name inside).lexemes.toList where
  front := functionHead name
  opening := openingBrace
  inside := inside
  closing := closingBrace
  rest := []
  lexemes_eq := rfl
  opens := rfl
  closes := rfl

/-- A body that returns a number. -/
def returning : List Lexeme := [⟨" ", "return", .word⟩, ⟨" ", "1", .number⟩, ⟨"", ";", .mark⟩]

theorem enter_emptied_returning :
    holdsAmong (bodyOfFunction "next" returning).start (bodyOfFunction "next" returning).stop
        (ofFunction "next" returning).trees = true ∧
      isDeleted (bodyOfFunction "next" returning).inner = false ∧
      ∀ t file, enter t file
          ((ofFunction "next" returning).emptied (bodyOfFunction "next" returning)).items =
        enter t file (ofFunction "next" returning).items := by
  have hbody : holdsAmong (bodyOfFunction "next" returning).start
      (bodyOfFunction "next" returning).stop (ofFunction "next" returning).trees = true := by cbv
  have hfree : isDeleted (bodyOfFunction "next" returning).inner = false := by cbv
  exact ⟨hbody, hfree, (enter_refill _ _ hbody).2.1 hfree⟩

/-- A body with a variable that is set to something with `delete` in front. -/
def resetting : List Lexeme :=
  [⟨" ", "int", .word⟩, ⟨" ", "state", .word⟩, ⟨" ", "=", .mark⟩, ⟨" ", "deleted", .word⟩,
    ⟨"", ";", .mark⟩, ⟨" ", "return", .word⟩, ⟨" ", "state", .word⟩, ⟨"", ";", .mark⟩]

/-- What is read of the function `reset`, by the text of its body. -/
def resetItem (body : String) : Item :=
  .member (.declaration (.mk none { base := some (.integer .int true) }
    [.function (.name "reset") [] false false] false none "int reset()" body))

/-- With an empty body the function is entered, and with this one it is not. -/
theorem enter_emptied_resetting_ne :
    holdsAmong (bodyOfFunction "reset" resetting).start (bodyOfFunction "reset" resetting).stop
        (ofFunction "reset" resetting).trees = true ∧
      (enter .empty "a.h"
          ((ofFunction "reset" resetting).emptied (bodyOfFunction "reset" resetting)).items).named
        DeclTree.root "reset" = [1] ∧
      (enter .empty "a.h" (ofFunction "reset" resetting).items).named DeclTree.root "reset" = [] := by
  have hfull : (ofFunction "reset" resetting).items =
      [resetItem " \x7b int state = deleted; return state; \x7d"] := by cbv
  have hemptied : ((ofFunction "reset" resetting).emptied (bodyOfFunction "reset" resetting)).items =
      [resetItem " \x7b\x7d"] := by cbv
  rw [hfull, hemptied]
  exact ⟨by cbv, by decide +kernel, by decide +kernel⟩

end Parsed

end RubyBinding.Header
