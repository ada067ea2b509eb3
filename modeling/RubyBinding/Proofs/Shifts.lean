import RubyBinding.Header.Reading

/-!
# Reading a part that was moved

What is read from a tree depends on its shape and on the lexemes at its places. So a part of a
header reads the same wherever it stands (`Keeps`): each reading function has a lemma for that here,
from texts and types to declarators, enumerators and bases.
-/

namespace RubyBinding.Header

open Grammar.Tree

/-! ## Moving -/

namespace Tree

mutual

/-- A tree with its places moved. -/
def move (f : Nat → Nat) : Tree → Tree
  | token t start stop => token t (f start) (f stop)
  | part p start stop children => part p (f start) (f stop) (moveAll f children)

def moveAll (f : Nat → Nat) : List Tree → List Tree
  | [] => []
  | t :: ts => t.move f :: moveAll f ts

end

mutual

/-- Whether all places of a tree satisfy a condition. -/
def within (P : Nat → Bool) : Tree → Bool
  | token _ start stop => P start && P stop
  | part _ start stop children => P start && P stop && allWithin P children

def allWithin (P : Nat → Bool) : List Tree → Bool
  | [] => true
  | t :: ts => t.within P && allWithin P ts

end

variable {f : Nat → Nat} {P : Nat → Bool} {t : Tree} {ts : List Tree}

theorem moveAll_eq_map (f : Nat → Nat) (ts : List Tree) : moveAll f ts = ts.map (move f) := by
  induction ts with
  | nil => rfl
  | cons t ts ih => rw [moveAll, ih, List.map_cons]

theorem allWithin_iff : allWithin P ts ↔ ∀ t ∈ ts, t.within P := by
  induction ts with
  | nil => simp [allWithin]
  | cons t ts ih => rw [allWithin, Bool.and_eq_true, ih, List.forall_mem_cons]

@[simp] theorem isPart_move (p : Part) (t : Tree) : (t.move f).isPart p = t.isPart p := by
  cases t <;> rfl

@[simp] theorem isToken_move (u : Terminal) (t : Tree) : (t.move f).isToken u = t.isToken u := by
  cases t <;> rfl

@[simp] theorem isDeclarator_move (t : Tree) : isDeclarator (t.move f) = isDeclarator t := by
  cases t <;> rfl

theorem children_move (t : Tree) : (t.move f).children = moveAll f t.children := by
  cases t <;> rfl

theorem directive?_part {p : Part} (hp : p ≠ .line) (start stop : Nat) (children : List Tree) :
    directive? (part p start stop children) = none := by
  unfold directive?
  split
  next h =>
    cases h
    exact absurd rfl hp
  next => rfl

theorem directive?_move (t : Tree) : (t.move f).directive? = t.directive? := by
  cases t with
  | token => rfl
  | part p start stop children =>
    by_cases hp : p = .line
    · subst hp
      match children with
      | [] => rfl
      | [token u _ _] => cases u <;> rfl
      | [part _ _ _ _] => rfl
      | token u _ _ :: _ :: _ => cases u <;> rfl
      | part _ _ _ _ :: _ :: _ => rfl
    · rw [move, directive?_part hp, directive?_part hp]

@[simp] theorem depthBehind_move (depth : Nat) (t : Tree) :
    (t.move f).depthBehind depth = t.depthBehind depth := by
  rw [depthBehind, depthBehind, directive?_move]

theorem allWithin_children (h : t.within P) : allWithin P t.children := by
  cases t with
  | token => rfl
  | part => exact (Bool.and_eq_true_iff.mp h).2

end Tree

open Header.Tree

section

variable {f : Nat → Nat} {P : Nat → Bool} {ts : List Tree}

theorem find?_moveAll {q : Tree → Bool} (hq : ∀ t : Tree, q (t.move f) = q t) (ts : List Tree) :
    (moveAll f ts).find? q = (ts.find? q).map (Tree.move f) := by
  have hsame : q ∘ Tree.move f = q := funext hq
  rw [moveAll_eq_map, List.find?_map, hsame]

theorem child?_moveAll (p : Part) (ts : List Tree) :
    child? p (moveAll f ts) = (child? p ts).map (Tree.move f) :=
  find?_moveAll (isPart_move p) ts

theorem any_moveAll {q : Tree → Bool} (h : ∀ t ∈ ts, q (t.move f) = q t) :
    (moveAll f ts).any q = ts.any q := by
  rw [moveAll_eq_map, List.any_map, Bool.eq_iff_iff, List.any_eq_true, List.any_eq_true]
  exact exists_congr fun t => and_congr_right fun ht => by rw [Function.comp_apply, h t ht]

theorem any_isToken_moveAll (u : Terminal) (ts : List Tree) :
    (moveAll f ts).any (Tree.isToken u) = ts.any (Tree.isToken u) :=
  any_moveAll fun t _ => isToken_move u t

theorem any_isPart_moveAll (p : Part) (ts : List Tree) :
    (moveAll f ts).any (Tree.isPart p) = ts.any (Tree.isPart p) :=
  any_moveAll fun t _ => isPart_move p t

theorem any_isDeclarator_moveAll (ts : List Tree) :
    (moveAll f ts).any isDeclarator = ts.any isDeclarator :=
  any_moveAll fun t _ => isDeclarator_move t

theorem isHeadToken_moveAll (u : Terminal) (ts : List Tree) :
    (moveAll f ts).head?.any (Tree.isToken u) = ts.head?.any (Tree.isToken u) := by
  cases ts with
  | nil => rfl
  | cons t ts =>
    rw [moveAll, List.head?_cons, List.head?_cons, Option.any_some, Option.any_some, isToken_move]

@[simp] theorem isTemplateName_move (t : Tree) :
    isTemplateName (t.move f) = isTemplateName t := by
  rw [isTemplateName, isTemplateName, children_move, any_isPart_moveAll]

theorem any_isTemplateName_moveAll (p : Part) (ts : List Tree) :
    (child? p (moveAll f ts)).any isTemplateName = (child? p ts).any isTemplateName := by
  rw [child?_moveAll]
  cases child? p ts with
  | none => rfl
  | some t => rw [Option.map_some, Option.any_some, Option.any_some, isTemplateName_move]

theorem child?_within {p : Part} {t : Tree} (h : allWithin P ts) (ht : child? p ts = some t) :
    t.within P :=
  allWithin_iff.mp h t (List.mem_of_find?_eq_some ht)

end

/-! ## One turn of each reading -/

/-- Whether a part is a class, a struct, a union or an enumeration. -/
def isTagged (p : Part) : Bool :=
  p == .structType || p == .classType || p == .unionType || p == .enumeration

theorem typeNamed_of_children {ls : Array Lexeme} {t : Tree} {p : Part} {start stop : Nat}
    {inner : List Tree} (hc : t.children = [part p start stop inner]) :
    typeNamed ls t =
      if p == .sizedType then some (.ofSpelling (t.text ls))
      else if isTagged p then
        ((child? .className inner).map (Tree.text ls)).map .named
      else some (.named (collapsed (t.text ls))) := by
  unfold typeNamed
  rw [hc, Option.map_map]
  rfl

/-- The type that a class names is that of its name. -/
theorem typeNamed_of_isTagged {ls : Array Lexeme} {t : Tree} {p : Part} {start stop : Nat}
    {inner : List Tree} (hc : t.children = [part p start stop inner]) (hp : isTagged p) :
    typeNamed ls t = ((child? .className inner).map (Tree.text ls)).map .named := by
  have hsized : (p == .sizedType) = false := by
    rw [beq_eq_false_iff_ne]
    rintro rfl
    cases hp
  rw [typeNamed_of_children hc, hsized, hp]
  rfl

theorem parametersAmong_cons (ls : Array Lexeme) (p : Part) (start stop : Nat)
    (children ts : List Tree) :
    parametersAmong ls (part p start stop children :: ts) =
      if p = .parameters then readParameters ls children else parametersAmong ls ts := by
  split
  next hp => rw [hp, parametersAmong]
  next hp =>
    rw [parametersAmong]
    intro _ _ _ h
    cases h
    exact hp rfl

theorem readParameters_cons (ls : Array Lexeme) (p : Part) (start stop : Nat)
    (children ts : List Tree) :
    readParameters ls (part p start stop children :: ts) =
      if p = .parameter ∨ p = .optionalParameter then
        readParameter ls children :: readParameters ls ts
      else readParameters ls ts := by
  split
  next hp => rcases hp with rfl | rfl <;> rw [readParameters]
  next hp =>
    rw [readParameters]
    · intro _ _ _ h
      cases h
      exact hp (.inl rfl)
    · intro _ _ _ h
      cases h
      exact hp (.inr rfl)

theorem membersAmong_cons (ls : Array Lexeme) (p : Part) (start stop : Nat)
    (children ts : List Tree) :
    membersAmong ls (part p start stop children :: ts) =
      if p = .members then some (readMembers ls 0 children) else membersAmong ls ts := by
  split
  next hp => rw [hp, membersAmong]
  next hp =>
    rw [membersAmong]
    intro _ _ _ h
    cases h
    exact hp rfl

/-! ## Reading what was moved -/

/-- The lexemes `ls'` have, wherever `f` moves a place that satisfies `P`, what `ls` has there. -/
structure Keeps (ls ls' : Array Lexeme) (f : Nat → Nat) (P : Nat → Bool) : Prop where
  extract : ∀ start stop, P start → P stop →
    (ls'.extract (f start) (f stop)).toList = (ls.extract start stop).toList
  next : ∀ place, P place → ls'[f place]? = ls[place]?

namespace Keeps

variable {ls ls' : Array Lexeme} {f : Nat → Nat} {P : Nat → Bool} (h : Keeps ls ls' f P)
include h

theorem stretch_move {start stop : Nat} (hstart : P start) (hstop : P stop) :
    stretch ls' (f start) (f stop) = stretch ls start stop := by
  rw [stretch, stretch, h.extract start stop hstart hstop]

theorem text_move {t : Tree} (ht : t.within P) : (t.move f).text ls' = t.text ls := by
  cases t with
  | token u start stop =>
    obtain ⟨hstart, hstop⟩ := Bool.and_eq_true_iff.mp ht
    exact h.stretch_move hstart hstop
  | part p start stop children =>
    obtain ⟨hstart, hstop⟩ := Bool.and_eq_true_iff.mp (Bool.and_eq_true_iff.mp ht).1
    exact h.stretch_move hstart hstop

theorem isSpelled_move {t : Tree} (ht : t.within P) (p : Part) (spelling : String) :
    (t.move f).isSpelled ls' p spelling = t.isSpelled ls p spelling := by
  rw [isSpelled, isSpelled, isPart_move, h.text_move ht]

/-! ### Types -/

theorem className_move {ts : List Tree} (hts : allWithin P ts) :
    (child? .className (moveAll f ts)).map (Tree.text ls') =
      (child? .className ts).map (Tree.text ls) := by
  rw [child?_moveAll, Option.map_map]
  exact Option.map_congr fun t ht => h.text_move (child?_within hts ht)

theorem typeNamed_move {t : Tree} (ht : t.within P) :
    typeNamed ls' (t.move f) = typeNamed ls t := by
  have htext : (t.move f).text ls' = t.text ls := h.text_move ht
  have hchildren : allWithin P t.children := allWithin_children ht
  -- Only a part that stands alone is looked into.
  match hc : t.children with
  | [part p start stop inner] =>
    have hc' : (t.move f).children = [part p (f start) (f stop) (moveAll f inner)] := by
      rw [children_move, hc, moveAll, move, moveAll]
    rw [hc, allWithin, allWithin, Bool.and_true, within, Bool.and_eq_true] at hchildren
    rw [typeNamed_of_children hc, typeNamed_of_children hc', htext, ← h.className_move hchildren.2]
  | [token u start stop] =>
    unfold typeNamed
    rw [children_move, hc, htext]
    cases u <;> rfl
  | [] =>
    unfold typeNamed
    rw [children_move, hc, htext]
    rfl
  | token u _ _ :: _ :: _ =>
    unfold typeNamed
    rw [children_move, hc, htext]
    cases u <;> rfl
  | part _ _ _ _ :: _ :: _ =>
    unfold typeNamed
    rw [children_move, hc, htext]
    rfl

/-! ### Declarators -/

theorem hidesNext_move {ts : List Tree} (hts : allWithin P ts) :
    hidesNext ls' (moveAll f ts) = hidesNext ls ts := by
  match ts with
  | [] => rfl
  | part _ _ _ _ :: _ => rfl
  | token _ start stop :: _ =>
    obtain ⟨hstart, hstop⟩ := Bool.and_eq_true_iff.mp (Bool.and_eq_true_iff.mp hts).1
    rw [moveAll, move, hidesNext, hidesNext, h.next stop hstop]

theorem any_isSpelled_move {ts : List Tree} (hts : allWithin P ts) (p : Part) (spelling : String) :
    (moveAll f ts).any (Tree.isSpelled ls' p spelling) = ts.any (Tree.isSpelled ls p spelling) := by
  rw [moveAll_eq_map, List.any_map, Bool.eq_iff_iff, List.any_eq_true, List.any_eq_true]
  exact exists_congr fun t => and_congr_right fun ht => by
    rw [Function.comp_apply, h.isSpelled_move (allWithin_iff.mp hts t ht)]

theorem specifiersAmong_move {ts : List Tree} (hts : allWithin P ts) :
    specifiersAmong ls' (moveAll f ts) = specifiersAmong ls ts := by
  have hbase : (child? .typeSpecifier (moveAll f ts)).bind (typeNamed ls') =
      (child? .typeSpecifier ts).bind (typeNamed ls) := by
    rw [child?_moveAll, Option.bind_map]
    exact Option.bind_congr fun t ht => h.typeNamed_move (child?_within hts ht)
  simp only [specifiersAmong, hbase, h.any_isSpelled_move hts, any_isToken_moveAll]

omit h

-- By induction on the tree, with one lemma for each function of the reading.
mutual

theorem readDeclarator_move (h : Keeps ls ls' f P) :
    (t : Tree) → t.within P → readDeclarator ls' (t.move f) = readDeclarator ls t
  | token u start stop, ht => by
    obtain ⟨hstart, hstop⟩ := Bool.and_eq_true_iff.mp ht
    have htext : stretch ls' (f start) (f stop) = stretch ls start stop :=
      h.stretch_move hstart hstop
    cases u <;> simp only [move, readDeclarator, htext]
  | part p start stop children, ht => by
    obtain ⟨hplaces, hchildren⟩ := Bool.and_eq_true_iff.mp ht
    obtain ⟨hstart, hstop⟩ := Bool.and_eq_true_iff.mp hplaces
    rw [move]
    unfold readDeclarator
    rw [h.stretch_move hstart hstop, declaratorAmong_move h children hchildren,
      parametersAmong_move h children hchildren, h.hidesNext_move hchildren, isHeadToken_moveAll,
      child?_moveAll, Option.isSome_map, h.any_isSpelled_move hchildren, any_isPart_moveAll]

theorem declaratorAmong_move (h : Keeps ls ls' f P) :
    (ts : List Tree) → allWithin P ts →
      declaratorAmong ls' (moveAll f ts) = declaratorAmong ls ts
  | [], _ => by rw [moveAll, declaratorAmong, declaratorAmong]
  | t :: ts, hts => by
    obtain ⟨ht, hts⟩ := Bool.and_eq_true_iff.mp hts
    rw [moveAll, declaratorAmong, declaratorAmong, isDeclarator_move, readDeclarator_move h t ht,
      declaratorAmong_move h ts hts]

theorem parametersAmong_move (h : Keeps ls ls' f P) :
    (ts : List Tree) → allWithin P ts →
      parametersAmong ls' (moveAll f ts) = parametersAmong ls ts
  | [], _ => by rw [moveAll, parametersAmong, parametersAmong]
  | token u start stop :: ts, hts => by
    obtain ⟨ht, hts⟩ := Bool.and_eq_true_iff.mp hts
    simp only [moveAll, move, parametersAmong, parametersAmong_move h ts hts]
  | part p start stop children :: ts, hts => by
    obtain ⟨ht, hts⟩ := Bool.and_eq_true_iff.mp hts
    have hchildren : allWithin P children := allWithin_children ht
    rw [moveAll, move, parametersAmong_cons, parametersAmong_cons,
      readParameters_move h children hchildren, parametersAmong_move h ts hts]

theorem readParameters_move (h : Keeps ls ls' f P) :
    (ts : List Tree) → allWithin P ts →
      readParameters ls' (moveAll f ts) = readParameters ls ts
  | [], _ => by rw [moveAll, readParameters, readParameters]
  | token u start stop :: ts, hts => by
    obtain ⟨ht, hts⟩ := Bool.and_eq_true_iff.mp hts
    simp only [moveAll, move, readParameters, readParameters_move h ts hts]
  | part p start stop children :: ts, hts => by
    obtain ⟨ht, hts⟩ := Bool.and_eq_true_iff.mp hts
    have hchildren : allWithin P children := allWithin_children ht
    rw [moveAll, move, readParameters_cons, readParameters_cons,
      readParameter_move h children hchildren, readParameters_move h ts hts]

theorem readParameter_move (h : Keeps ls ls' f P) :
    (ts : List Tree) → allWithin P ts →
      readParameter ls' (moveAll f ts) = readParameter ls ts
  | ts, hts => by
    rw [readParameter, readParameter, h.specifiersAmong_move hts, any_isDeclarator_moveAll,
      declaratorAmong_move h ts hts]

end

/-! ### Enumerators and bases -/

theorem headText_move (h : Keeps ls ls' f P) {ts : List Tree} (hts : allWithin P ts) :
    (moveAll f ts).head?.map (Tree.text ls') = ts.head?.map (Tree.text ls) := by
  cases ts with
  | nil => rfl
  | cons t ts =>
    obtain ⟨ht, -⟩ := Bool.and_eq_true_iff.mp hts
    rw [moveAll, List.head?_cons, List.head?_cons, Option.map_some, Option.map_some, h.text_move ht]

theorem readEnumerators_move (h : Keeps ls ls' f P) (depth : Nat) {ts : List Tree}
    (hts : allWithin P ts) :
    readEnumerators ls' depth (moveAll f ts) = readEnumerators ls depth ts := by
  induction ts generalizing depth with
  | nil => rfl
  | cons t ts ih =>
    obtain ⟨ht, hts⟩ := Bool.and_eq_true_iff.mp hts
    have hchildren : allWithin P t.children := allWithin_children ht
    have hvalue : (child? .expression (moveAll f t.children)).bind
          (fun e => integer? (e.text ls').toList) =
        (child? .expression t.children).bind fun e => integer? (e.text ls).toList := by
      rw [child?_moveAll, Option.bind_map]
      exact Option.bind_congr fun e he => by
        rw [Function.comp_apply, h.text_move (child?_within hchildren he)]
    simp only [moveAll, readEnumerators, isPart_move, depthBehind_move, ih _ hts, children_move,
      hvalue, h.headText_move hchildren]

theorem readEnumeration_move (h : Keeps ls ls' f P) {ts : List Tree} (hts : allWithin P ts) :
    readEnumeration ls' (moveAll f ts) = readEnumeration ls ts := by
  rw [readEnumeration, readEnumeration, h.className_move hts, child?_moveAll .enumerators,
    Option.map_map]
  refine Option.map_congr fun body hbody => ?_
  have hchildren : allWithin P body.children := allWithin_children (child?_within hts hbody)
  rw [Function.comp_apply, children_move, h.readEnumerators_move 0 hchildren, any_isToken_moveAll,
    any_isToken_moveAll]

theorem readBases_move (h : Keeps ls ls' f P) (default : Access) (access : Option Access)
    (isVirtual : Bool) {ts : List Tree} (hts : allWithin P ts) :
    readBases ls' default access isVirtual (moveAll f ts) =
      readBases ls default access isVirtual ts := by
  induction ts generalizing access isVirtual with
  | nil => rfl
  | cons t ts ih =>
    obtain ⟨ht, hts⟩ := Bool.and_eq_true_iff.mp hts
    simp only [moveAll, readBases, isPart_move, isToken_move, h.text_move ht, ih _ _ hts]

end Keeps

end RubyBinding.Header
