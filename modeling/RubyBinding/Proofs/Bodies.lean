import RubyBinding.Proofs.Gists
import RubyBinding.Proofs.Shifts

/-!
# Function bodies in a header

Where a function body stands in a tree (`Tree.holds`): each part around it is a definition or one of
what definitions stand in, and all other parts stand in front of it or behind it (`Beside`). The text
of a part around the body has the braces of the body in it (`Braced`), and a declaration whose text
has a deletion, be it there, enters no function (`enterDeclaration_of_isDeleted`).
-/

namespace RubyBinding.Header

open Grammar.Tree Header.Tree

/-! ## Texts around braces -/

/-- The text of lexemes with the gap in front of the first. -/
def joined (ls : List Lexeme) : String := String.join (ls.map fun l => l.gap ++ l.text)

theorem joined_append (ls ms : List Lexeme) : joined (ls ++ ms) = joined ls ++ joined ms := by
  rw [joined, List.map_append, String.join_append]
  rfl

theorem joined_cons (l : Lexeme) (ls : List Lexeme) :
    joined (l :: ls) = l.gap ++ l.text ++ joined ls := by
  rw [joined, List.map_cons, String.join_cons]
  rfl

/-- Two texts that differ between two braces only, where one has `inner` and one has `inner'`. -/
def Braced (inner inner' s s' : String) : Prop :=
  ∃ u v, s = u ++ "\x7b" ++ inner ++ "\x7d" ++ v ∧ s' = u ++ "\x7b" ++ inner' ++ "\x7d" ++ v

namespace Braced

variable {inner inner' s s' : String}

theorem append_left (h : Braced inner inner' s s') (w : String) :
    Braced inner inner' (w ++ s) (w ++ s') := by
  obtain ⟨u, v, rfl, rfl⟩ := h
  exact ⟨w ++ u, v, by simp only [String.append_assoc], by simp only [String.append_assoc]⟩

theorem append_right (h : Braced inner inner' s s') (w : String) :
    Braced inner inner' (s ++ w) (s' ++ w) := by
  obtain ⟨u, v, rfl, rfl⟩ := h
  exact ⟨u, v ++ w, String.append_assoc, String.append_assoc⟩

/-- Whether there is a deletion between the braces is all that matters. -/
theorem gistOfText_eq (h : Braced inner inner' s s') (hinner : isDeleted inner' = isDeleted inner) :
    gistOfText s' = gistOfText s := by
  obtain ⟨u, v, rfl, rfl⟩ := h
  simp only [gistOfText, isDeleted_braces, endsPure_braces, hinner]

theorem isDeleted_eq_true (h : Braced inner inner' s s') (hinner : isDeleted inner) :
    isDeleted s := by
  obtain ⟨u, v, rfl, -⟩ := h
  rw [isDeleted_braces, hinner, Bool.or_true, Bool.true_or]

/-- No text with a brace is a zero. -/
theorem trimmed_ne (h : Braced inner inner' s s') : Text.trimmed s ≠ "0" := by
  obtain ⟨u, v, rfl, -⟩ := h
  intro h
  have hmem : '\x7b' ∈ (u ++ "\x7b" ++ inner ++ "\x7d" ++ v).toList := by
    simp [String.toList_append]
  have htrim := Text.mem_trim hmem (by decide)
  rw [← String.toList_ofList (l := Text.trim _), ← Text.trimmed, h] at htrim
  exact absurd htrim (by decide)

theorem symm (h : Braced inner inner' s s') : Braced inner' inner s' s := by
  obtain ⟨u, v, hs, hs'⟩ := h
  exact ⟨u, v, hs', hs⟩

theorem gistOfDefault_eq (h : Braced inner inner' s s') : gistOfDefault s' = gistOfDefault s := by
  rw [gistOfDefault, gistOfDefault, if_neg (by simpa using h.symm.trimmed_ne),
    if_neg (by simpa using h.trimmed_ne)]

end Braced

/-! ## Deleted declarations -/

namespace Declaration

def isField : Declaration → Bool
  | .mk _ _ _ isField _ _ _ => isField

def text : Declaration → String
  | .mk _ _ _ _ _ head body => head ++ body

/-- What a declaration defines on the way, and nothing that it declares. -/
def withoutDeclarators : Declaration → Declaration
  | .mk definition specifiers _ isField default head body =>
    .mk definition specifiers [] isField default head body

end Declaration

theorem enterDeclarators_of_isDeleted {text : String} (h : isDeleted text) (t : DeclTree)
    (file : String) (access : Access) (scope : DeclId) (specifiers : Specifiers)
    (default : Option String) (ds : List Declarator) :
    enterDeclarators t file access scope specifiers false text default ds = t := by
  have hfunction : ∀ name d s,
      functionKind? t scope specifiers text default name d s = none := fun name d s => by
    rw [functionKind?, h, Bool.or_true, if_pos rfl]
  -- What is no function is not entered either, as it is no field.
  have hkind : ∀ name d, declaredKind? t scope specifiers false text default name d = none :=
    fun name d => by
      rw [declaredKind?]
      split
      · exact hfunction name d _
      · rfl
  induction ds with
  | nil => rfl
  | cons d ds ih =>
    rw [enterDeclarators]
    simp only [hkind]
    split <;> exact ih

/-- A declaration that is taken for deleted enters only what it defines on the way. -/
theorem enterDeclaration_of_isDeleted {d : Declaration} (hfield : d.isField = false)
    (hdeleted : isDeleted d.text) (t : DeclTree) (file : String) (access : Access)
    (scope : DeclId) :
    enterDeclaration t file access scope d =
      enterDeclaration t file access scope d.withoutDeclarators := by
  obtain ⟨definition, specifiers, declarators, isField, default, head, body⟩ := d
  cases hfield
  have htext : isDeleted (head ++ body) := hdeleted
  cases definition <;>
    simp only [Declaration.withoutDeclarators, enterDeclaration, enterDeclarators_of_isDeleted htext]

/-! ## Places -/

/-- The parts that may stand around a function body, up to the whole header. -/
def mayHold : Part → Bool
  | .nspace | .itemList | .linkage | .conditionalSection | .elsePart | .elifPart | .elifdefPart
  | .statement | .declaration | .typedefDeclaration | .functionDefinition | .templateDeclaration
  | .friendDeclaration | .typeSpecifier | .structType | .classType | .unionType | .members | .field
  | .methodDefinition | .constructorDefinition | .conversionDefinition | .tryBlock
  | .constructorTry => true
  | _ => false

/-- Whether a type specifier consists of a class, a struct, a union or an enumeration. -/
def isTaggedAlone : List Tree → Bool
  | [part p _ _ _] => isTagged p
  | _ => false

theorem exists_of_isTaggedAlone {ts : List Tree} (h : isTaggedAlone ts) :
    ∃ p start stop children, ts = [part p start stop children] ∧ isTagged p := by
  unfold isTaggedAlone at h
  split at h
  next p start stop children => exact ⟨p, start, stop, children, rfl, h⟩
  next => cases h

mutual

/-- Whether the lexemes from `start` to `stop` are a function body in a tree, with nothing but
definitions and what these stand in around it. -/
def Tree.holds (start stop : Nat) : Tree → Bool
  | token t a b => t == .body && a == start && b == stop
  | part p a b children =>
    mayHold p && decide (a ≤ start) && decide (stop ≤ b) &&
      (p != .typeSpecifier || isTaggedAlone children) && holdsAmong start stop children

/-- Whether one of some trees holds the body, with those before and behind it on either side. -/
def holdsAmong (start stop : Nat) : List Tree → Bool
  | [] => false
  | t :: ts =>
    (t.holds start stop && allWithin (fun i => decide (stop ≤ i)) ts) ||
      (t.within (fun i => decide (i ≤ start)) && holdsAmong start stop ts)

end

section

variable {start stop : Nat} {t : Tree} {ts : List Tree}

/-- Whether a tree stands on one side of the body. -/
def Beside (start stop : Nat) (t : Tree) : Prop :=
  t.within (fun i => decide (i ≤ start)) ∨ t.within (fun i => decide (stop ≤ i))

/-- A tree of a header with the body: it stands on one side, or it holds the body. -/
def Sound (start stop : Nat) (t : Tree) : Prop := Beside start stop t ∨ t.holds start stop

def AllSound (start stop : Nat) (ts : List Tree) : Prop := ∀ t ∈ ts, Sound start stop t

theorem allSound_of_holdsAmong (h : holdsAmong start stop ts) : AllSound start stop ts := by
  induction ts with
  | nil => cases h
  | cons t ts ih =>
    rw [holdsAmong, Bool.or_eq_true, Bool.and_eq_true, Bool.and_eq_true] at h
    refine List.forall_mem_cons.mpr ?_
    rcases h with ⟨ht, hts⟩ | ⟨ht, hts⟩
    · exact ⟨.inr ht, fun u hu => .inl (.inr (allWithin_iff.mp hts u hu))⟩
    · exact ⟨.inl (.inl ht), ih hts⟩

theorem Beside.of_mem {u : Tree} (h : Beside start stop t) (hu : u ∈ t.children) :
    Beside start stop u :=
  h.imp (fun h => allWithin_iff.mp (allWithin_children h) u hu) fun h =>
    allWithin_iff.mp (allWithin_children h) u hu

theorem holds_part {p : Part} {a b : Nat} {children : List Tree} :
    Tree.holds start stop (part p a b children) ↔
      mayHold p ∧ a ≤ start ∧ stop ≤ b ∧ (p = .typeSpecifier → isTaggedAlone children) ∧
        holdsAmong start stop children := by
  rw [holds]
  simp only [Bool.and_eq_true, Bool.or_eq_true, decide_eq_true_eq, bne_iff_ne, ne_eq, and_assoc,
    imp_iff_not_or]

theorem Sound.allSound_children (h : Sound start stop t) : AllSound start stop t.children := by
  rcases h with h | h
  · exact fun u hu => .inl (h.of_mem hu)
  · cases t with
    | token => nofun
    | part p a b children => exact allSound_of_holdsAmong (holds_part.mp h).2.2.2.2

/-- What may not hold the body stands beside it. -/
theorem Sound.beside {p : Part} (h : Sound start stop t) (hp : t.isPart p)
    (hhold : mayHold p = false) : Beside start stop t := by
  refine h.resolve_right fun h => ?_
  cases t with
  | token => cases hp
  | part q a b children =>
    have hq : q = p := by simpa [isPart, part?] using hp
    rw [← hq, (holds_part.mp h).1] at hhold
    cases hhold

theorem isDeclarator_of_isWord (h : t.isToken .word) : isDeclarator t := by
  cases t with
  | token u a b =>
    have hu : u = .word := by simpa [isToken] using h
    rw [hu]
    rfl
  | part => cases h

theorem mayHold_of_isDeclarator {p : Part} {a b : Nat} {children : List Tree}
    (h : isDeclarator (part p a b children)) : mayHold p = false := by
  cases p <;> first | rfl | cases h

theorem Sound.beside_of_isDeclarator (h : Sound start stop t) (ht : isDeclarator t) :
    Beside start stop t := by
  refine h.resolve_right fun h => ?_
  cases t with
  | token u a b =>
    rw [holds] at h
    have hu : u = .body := by simpa using (Bool.and_eq_true_iff.mp (Bool.and_eq_true_iff.mp h).1).1
    subst hu
    cases ht
  | part p a b children =>
    have hp : mayHold p = false := mayHold_of_isDeclarator ht
    rw [(holds_part.mp h).1] at hp
    cases hp

end

/-! ## Where a body begins and what initialises -/

namespace Tree

/-- Where a tree begins. -/
def start : Tree → Nat
  | token _ a _ => a
  | part _ a _ _ => a

/-- Where a tree ends. -/
def stop : Tree → Nat
  | token _ _ b => b
  | part _ _ b _ => b

/-- Whether a tree is what a definition has for a body. -/
def isBody : Tree → Bool
  | token u _ _ => u == .body
  | part p _ _ _ => p == .tryBlock || p == .constructorTry

theorem start_move {f : Nat → Nat} (t : Tree) : (t.move f).start = f t.start := by
  cases t <;> rfl

theorem stop_move {f : Nat → Nat} (t : Tree) : (t.move f).stop = f t.stop := by
  cases t <;> rfl

theorem text_eq (ls : Array Lexeme) (t : Tree) : t.text ls = stretch ls t.start t.stop := by
  cases t <;> rfl

theorem within_ends {P : Nat → Bool} {t : Tree} (h : t.within P) : P t.start ∧ P t.stop := by
  cases t with
  | token => exact Bool.and_eq_true_iff.mp h
  | part => exact Bool.and_eq_true_iff.mp (Bool.and_eq_true_iff.mp h).1

theorem isBody_move {f : Nat → Nat} (t : Tree) : (t.move f).isBody = t.isBody := by
  cases t <;> rfl

end Tree

section

variable {f : Nat → Nat} {start stop : Nat} {t : Tree} {ts : List Tree}

theorem bodyStart?_eq (ts : List Tree) : bodyStart? ts = (ts.find? Tree.isBody).map Tree.start := by
  fun_induction bodyStart? ts with
  | case1 => rfl
  | case2 => rfl
  | case3 => rfl
  | case4 => rfl
  | case5 t ts htoken htry hctor ih =>
    have hno : t.isBody = false := by
      cases t with
      | token u a b =>
        rw [isBody, beq_eq_false_iff_ne]
        rintro rfl
        exact htoken a b rfl
      | part p a b children =>
        rw [isBody, Bool.or_eq_false_iff, beq_eq_false_iff_ne, beq_eq_false_iff_ne]
        constructor
        · rintro rfl
          exact htry a b children rfl
        · rintro rfl
          exact hctor a b children rfl
    rw [ih, List.find?_cons_of_neg (by simp [hno])]

theorem bodyStart?_moveAll (ts : List Tree) :
    bodyStart? (moveAll f ts) = (bodyStart? ts).map f := by
  have hsame : Tree.isBody ∘ Tree.move f = Tree.isBody := funext isBody_move
  rw [bodyStart?_eq, bodyStart?_eq, moveAll_eq_map, List.find?_map, hsame, Option.map_map,
    Option.map_map]
  exact Option.map_congr fun t _ => start_move t

/-- A place in front of the body or behind it. -/
def IsSide (start stop i : Nat) : Prop := i ≤ start ∨ stop ≤ i

theorem Sound.isSide (h : Sound start stop t) :
    IsSide start stop t.start ∧ IsSide start stop t.stop := by
  rcases h with (h | h) | h
  · exact (within_ends h).imp (fun h => .inl (of_decide_eq_true h)) fun h =>
      .inl (of_decide_eq_true h)
  · exact (within_ends h).imp (fun h => .inr (of_decide_eq_true h)) fun h =>
      .inr (of_decide_eq_true h)
  · cases t with
    | token u a b =>
      rw [holds] at h
      simp only [Bool.and_eq_true, beq_iff_eq] at h
      exact ⟨.inl (Nat.le_of_eq h.1.2), .inr (Nat.le_of_eq h.2.symm)⟩
    | part p a b children =>
      have hp := holds_part.mp h
      exact ⟨.inl hp.2.1, .inr hp.2.2.1⟩

/-- The function body in a declaration begins in front of the body or behind it. -/
theorem isSide_of_bodyStart? {m : Nat} (hts : AllSound start stop ts) (hm : bodyStart? ts = some m) :
    IsSide start stop m := by
  rw [bodyStart?_eq] at hm
  obtain ⟨t, ht, rfl⟩ := Option.map_eq_some_iff.mp hm
  exact (hts t (List.mem_of_find?_eq_some ht)).isSide.1

theorem initialiserAmong_moveAll (ts : List Tree) :
    initialiserAmong (moveAll f ts) = (initialiserAmong ts).map (Tree.move f) := by
  induction ts with
  | nil => rfl
  | cons t ts ih =>
    have hhead : (moveAll f ts).head? = ts.head?.map (Tree.move f) := by cases ts <;> rfl
    simp only [moveAll, initialiserAmong, isToken_move, ih, hhead]
    split
    · rfl
    · split <;> rfl

theorem mem_of_initialiserAmong (h : initialiserAmong ts = some t) : t ∈ ts := by
  induction ts with
  | nil => cases h
  | cons u ts ih =>
    rw [initialiserAmong] at h
    split at h
    · cases h
      exact List.mem_cons_self
    · split at h
      · exact List.mem_cons_of_mem u (List.mem_of_mem_head? h)
      · exact List.mem_cons_of_mem u (ih h)

end

end RubyBinding.Header
