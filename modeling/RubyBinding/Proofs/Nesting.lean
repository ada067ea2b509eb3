import Mathlib
import RubyBinding.Json.Reader
import RubyBinding.Proofs.Scalars

/-!
# Reading what is written

The text of a value is cut into the tokens of the value (`Token.scan?_prettyAt`): line breaks and
indentation are passed over, and whatever follows a number or a literal ends it. The tokens of a
value lead the reader from where the value is due to where it has ended (`State.foldlM_tokens`),
provided that the containers open already and those that the value opens are together no more than
the reader allows. So a value whose numbers are whole is read back exactly if it is not nested too
deep (`read?_pretty`).
-/

namespace RubyBinding.Json

namespace Value

mutual

/-- How deep arrays and objects nest in a value. -/
def depth : Value → Nat
  | array items => depthOfItems items + 1
  | object members => depthOfMembers members + 1
  | _ => 0

def depthOfItems : List Value → Nat
  | [] => 0
  | v :: vs => max v.depth (depthOfItems vs)

def depthOfMembers : List (String × Value) → Nat
  | [] => 0
  | (_, v) :: ms => max v.depth (depthOfMembers ms)

end

mutual

/-- Whether all numbers in a value are whole and take 64 bits at most. -/
def IsWhole : Value → Prop
  | integer n => -2 ^ 63 ≤ n ∧ n < 2 ^ 64
  | decimal _ => False
  | array items => AreWhole items
  | object members => MembersAreWhole members
  | _ => True

def AreWhole : List Value → Prop
  | [] => True
  | v :: vs => v.IsWhole ∧ AreWhole vs

def MembersAreWhole : List (String × Value) → Prop
  | [] => True
  | (_, v) :: ms => v.IsWhole ∧ MembersAreWhole ms

end

mutual

/-- The tokens that a value is written with. -/
def tokens : Value → List Token
  | array [] => [.openBracket, .closeBracket]
  | array (v :: vs) => .openBracket :: (v.tokens ++ tokensOfItems vs)
  | object [] => [.openBrace, .closeBrace]
  | object ((k, v) :: ms) =>
    .openBrace :: .scalar (.string k) :: .colon :: (v.tokens ++ tokensOfMembers ms)
  | v => [.scalar v]

/-- The tokens of an array behind its first item. -/
def tokensOfItems : List Value → List Token
  | [] => [.closeBracket]
  | v :: vs => .comma :: (v.tokens ++ tokensOfItems vs)

/-- The tokens of an object behind its first member. -/
def tokensOfMembers : List (String × Value) → List Token
  | [] => [.closeBrace]
  | (k, v) :: ms => .comma :: .scalar (.string k) :: .colon :: (v.tokens ++ tokensOfMembers ms)

end

theorem areWhole_iff {vs : List Value} : AreWhole vs ↔ ∀ v ∈ vs, v.IsWhole := by
  induction vs with
  | nil => simp [AreWhole]
  | cons v vs ih => rw [AreWhole, ih, List.forall_mem_cons]

theorem membersAreWhole_iff {ms : List (String × Value)} :
    MembersAreWhole ms ↔ ∀ m ∈ ms, m.2.IsWhole := by
  induction ms with
  | nil => simp [MembersAreWhole]
  | cons m ms ih => rw [MembersAreWhole, ih, List.forall_mem_cons]

end Value

/-! ## From text to tokens -/

namespace Token

theorem scan?_space {c : Char} (hc : isSpace c = true) (r : List Char) :
    scan? (c :: r) = scan? r := by
  rw [scan?, if_pos hc]

theorem scan?_mark {c : Char} {t : Token} (ht : mark? c = some t) (r : List Char) :
    scan? (c :: r) = (scan? r).map (t :: ·) := by
  have hc : ¬ isSpace c = true := by
    intro hspace
    simp only [isSpace, Bool.or_eq_true, beq_iff_eq] at hspace
    rcases hspace with ((rfl | rfl) | rfl) | rfl <;> cases ht
  rw [scan?, if_neg hc, ht]

theorem scan?_quoted (s : String) (r : List Char) :
    scan? ((quoted s).toList ++ r) = (scan? r).map (scalar (.string s) :: ·) := by
  have hbody := stringBody?_quoted s.toList r
  have hmark : mark? '"' = none := by decide
  rw [quoted, String.toList_ofList, List.cons_append, List.append_assoc, List.singleton_append,
    scan?, if_neg (by decide), hmark]
  simp only [↓reduceIte]
  split
  · next h =>
    rw [hbody] at h
    cases h
  · next body rest h =>
    rw [hbody] at h
    cases h
    rw [String.ofList_toList]

/-- Nothing that could belong to a word comes next. -/
def EndsWord (r : List Char) : Prop := ∀ c ∈ r.head?, isWordChar c = false

theorem endsWord_cons {c : Char} (hc : isWordChar c = false) (r : List Char) :
    EndsWord (c :: r) := by
  rintro d ⟨⟩
  exact hc

/-- A word is one token: the digits and letters go as far as it does. -/
theorem scan?_word {c : Char} {w r : List Char} {v : Value} (hv : word? (c :: w) = some v)
    (hw : ∀ d ∈ c :: w, isWordChar d = true) (hr : EndsWord r) :
    scan? (c :: w ++ r) = (scan? r).map (scalar v :: ·) := by
  have hc : isWordChar c = true := hw c List.mem_cons_self
  have hne : ∀ d, isWordChar d = false → c ≠ d := by
    rintro d hd rfl
    rw [hc] at hd
    cases hd
  have hspace : ¬ isSpace c = true := by
    intro hspace
    simp only [isSpace, Bool.or_eq_true, beq_iff_eq] at hspace
    rcases hspace with ((rfl | rfl) | rfl) | rfl <;> cases hc
  have hmark : mark? c = none := by
    unfold mark?
    simp only [if_neg (hne '[' rfl), if_neg (hne ']' rfl), if_neg (hne '\x7b' rfl),
      if_neg (hne '\x7d' rfl), if_neg (hne ':' rfl), if_neg (hne ',' rfl)]
  have hquote : c ≠ '"' := hne '"' rfl
  have hin : ∀ d ∈ w, isWordChar d = true := fun d hd => hw d (List.mem_cons_of_mem _ hd)
  have hend : r.takeWhile isWordChar = [] ∧ r.dropWhile isWordChar = r := by
    cases r with
    | nil => exact ⟨rfl, rfl⟩
    | cons d r =>
      have hd := hr d rfl
      rw [List.takeWhile_cons_of_neg (by simp [hd]), List.dropWhile_cons_of_neg (by simp [hd])]
      exact ⟨rfl, rfl⟩
  have htake : (w ++ r).takeWhile isWordChar = w := by
    rw [List.takeWhile_append_of_pos hin, hend.1, List.append_nil]
  have hdrop : (w ++ r).dropWhile isWordChar = r := by
    rw [List.dropWhile_append_of_pos hin, hend.2]
  rw [List.cons_append, scan?, if_neg hspace, hmark]
  simp only [if_neg hquote, htake, hdrop, hv]

theorem scan?_scalar {w : List Char} {v : Value} (hv : word? w = some v)
    (hw : ∀ c ∈ w, isWordChar c = true) {r : List Char} (hr : EndsWord r) :
    scan? (w ++ r) = (scan? r).map (scalar v :: ·) := by
  cases w with
  | nil => cases hv
  | cons c cs => exact scan?_word hv hw hr

theorem toList_newline (level : Nat) :
    (newline level).toList = '\n' :: List.replicate (2 * level) ' ' := by
  simp [newline]

theorem scan?_newline (level : Nat) (r : List Char) :
    scan? ((newline level).toList ++ r) = scan? r := by
  rw [toList_newline, List.cons_append, scan?_space rfl]
  induction 2 * level with
  | zero => rfl
  | succ n ih => rw [List.replicate_succ, List.cons_append, scan?_space rfl, ih]

theorem endsWord_newline (level : Nat) (r : List Char) :
    EndsWord ((newline level).toList ++ r) := by
  rw [toList_newline, List.cons_append]
  exact endsWord_cons (by decide) _

theorem endsWord_prettyItems (level : Nat) (vs : List Value) (r : List Char) :
    EndsWord ((Value.prettyItems level vs).toList ++ ((newline level).toList ++ r)) := by
  cases vs with
  | nil => exact endsWord_newline level r
  | cons v vs =>
    simp only [Value.prettyItems, String.toList_append, List.append_assoc]
    exact endsWord_cons (c := ',') (by decide) _

theorem endsWord_prettyMembers (level : Nat) (ms : List (String × Value)) (r : List Char) :
    EndsWord ((Value.prettyMembers level ms).toList ++ ((newline level).toList ++ r)) := by
  cases ms with
  | nil => exact endsWord_newline level r
  | cons m ms =>
    obtain ⟨k, v⟩ := m
    simp only [Value.prettyMembers, String.toList_append, List.append_assoc]
    exact endsWord_cons (c := ',') (by decide) _

mutual

/-- **A value is cut into its tokens.** -/
theorem scan?_prettyAt {v : Value} (hv : v.IsWhole) (level : Nat) {r : List Char}
    (hr : EndsWord r) :
    scan? ((v.prettyAt level).toList ++ r) = (scan? r).map (v.tokens ++ ·) := by
  cases v with
  | null =>
    have htext : (Value.null.prettyAt level).toList = ['n', 'u', 'l', 'l'] := by
      simp [Value.prettyAt]
    rw [htext]
    exact scan?_scalar (by simp [word?]) (List.all_eq_true.mp rfl) hr
  | bool b =>
    have htext : ((Value.bool b).prettyAt level).toList =
        if b then ['t', 'r', 'u', 'e'] else ['f', 'a', 'l', 's', 'e'] := by
      cases b <;> simp [Value.prettyAt]
    rw [htext]
    cases b with
    | false => exact scan?_scalar (by simp [word?]) (List.all_eq_true.mp rfl) hr
    | true => exact scan?_scalar (by simp [word?]) (List.all_eq_true.mp rfl) hr
  | integer n =>
    exact scan?_scalar (word?_toString hv.1 hv.2) (fun _ => isWordChar_of_mem_toString) hr
  | decimal text => exact hv.elim
  | string s => exact scan?_quoted s r
  | array items =>
    cases items with
    | nil =>
      have htext : ((Value.array []).prettyAt level).toList = ['[', ']'] := by
        simp [Value.prettyAt]
      rw [htext, List.cons_append, List.cons_append, List.nil_append,
        scan?_mark (t := .openBracket) rfl, scan?_mark (t := .closeBracket) rfl, Option.map_map]
      rfl
    | cons v vs =>
      have htext : ((Value.array (v :: vs)).prettyAt level).toList ++ r =
          '[' :: ((newline (level + 1)).toList ++ ((v.prettyAt (level + 1)).toList ++
            ((Value.prettyItems level vs).toList ++ ((newline level).toList ++ ']' :: r)))) := by
        simp [Value.prettyAt]
      rw [htext, scan?_mark (t := .openBracket) rfl, scan?_newline,
        scan?_prettyAt hv.1 (level + 1) (endsWord_prettyItems level vs _), scan?_prettyItems hv.2,
        Option.map_map, Option.map_map]
      refine congrArg (Option.map · _) (funext fun ts => ?_)
      simp [Value.tokens]
  | object members =>
    cases members with
    | nil =>
      have htext : ((Value.object []).prettyAt level).toList = ['\x7b', '\x7d'] := by
        simp [Value.prettyAt]
      rw [htext, List.cons_append, List.cons_append, List.nil_append,
        scan?_mark (t := .openBrace) rfl, scan?_mark (t := .closeBrace) rfl, Option.map_map]
      rfl
    | cons m ms =>
      obtain ⟨k, v⟩ := m
      have htext : ((Value.object ((k, v) :: ms)).prettyAt level).toList ++ r =
          '\x7b' :: ((newline (level + 1)).toList ++ ((quoted k).toList ++ ':' :: ' ' ::
            ((v.prettyAt (level + 1)).toList ++ ((Value.prettyMembers level ms).toList ++
              ((newline level).toList ++ '\x7d' :: r))))) := by
        simp [Value.prettyAt]
      rw [htext, scan?_mark (t := .openBrace) rfl, scan?_newline, scan?_quoted,
        scan?_mark (t := .colon) rfl, scan?_space rfl,
        scan?_prettyAt hv.1 (level + 1) (endsWord_prettyMembers level ms _),
        scan?_prettyMembers hv.2, Option.map_map, Option.map_map, Option.map_map, Option.map_map]
      refine congrArg (Option.map · _) (funext fun ts => ?_)
      simp [Value.tokens]

/-- The items of an array behind its first are cut into their tokens. -/
theorem scan?_prettyItems {vs : List Value} (hvs : Value.AreWhole vs) (level : Nat)
    {r : List Char} :
    scan? ((Value.prettyItems level vs).toList ++ ((newline level).toList ++ ']' :: r)) =
      (scan? r).map (Value.tokensOfItems vs ++ ·) := by
  cases vs with
  | nil =>
    show scan? ((newline level).toList ++ ']' :: r) = _
    rw [scan?_newline, scan?_mark (t := .closeBracket) rfl]
    rfl
  | cons v vs =>
    have htext : (Value.prettyItems level (v :: vs)).toList ++
        ((newline level).toList ++ ']' :: r) =
        ',' :: ((newline (level + 1)).toList ++ ((v.prettyAt (level + 1)).toList ++
          ((Value.prettyItems level vs).toList ++ ((newline level).toList ++ ']' :: r)))) := by
      simp [Value.prettyItems]
    rw [htext, scan?_mark (t := .comma) rfl, scan?_newline,
      scan?_prettyAt hvs.1 (level + 1) (endsWord_prettyItems level vs _), scan?_prettyItems hvs.2,
      Option.map_map, Option.map_map]
    refine congrArg (Option.map · _) (funext fun ts => ?_)
    simp [Value.tokensOfItems]

/-- The members of an object behind its first are cut into their tokens. -/
theorem scan?_prettyMembers {ms : List (String × Value)} (hms : Value.MembersAreWhole ms)
    (level : Nat) {r : List Char} :
    scan? ((Value.prettyMembers level ms).toList ++ ((newline level).toList ++ '\x7d' :: r)) =
      (scan? r).map (Value.tokensOfMembers ms ++ ·) := by
  cases ms with
  | nil =>
    show scan? ((newline level).toList ++ '\x7d' :: r) = _
    rw [scan?_newline, scan?_mark (t := .closeBrace) rfl]
    rfl
  | cons m ms =>
    obtain ⟨k, v⟩ := m
    have htext : (Value.prettyMembers level ((k, v) :: ms)).toList ++
        ((newline level).toList ++ '\x7d' :: r) =
        ',' :: ((newline (level + 1)).toList ++ ((quoted k).toList ++ ':' :: ' ' ::
          ((v.prettyAt (level + 1)).toList ++ ((Value.prettyMembers level ms).toList ++
            ((newline level).toList ++ '\x7d' :: r))))) := by
      simp [Value.prettyMembers]
    rw [htext, scan?_mark (t := .comma) rfl, scan?_newline, scan?_quoted,
      scan?_mark (t := .colon) rfl, scan?_space rfl,
      scan?_prettyAt hms.1 (level + 1) (endsWord_prettyMembers level ms _),
      scan?_prettyMembers hms.2, Option.map_map, Option.map_map, Option.map_map, Option.map_map]
    refine congrArg (Option.map · _) (funext fun ts => ?_)
    simp [Value.tokensOfMembers]

end

end Token

/-! ## From tokens to values -/

namespace State

/-- A first item is read as any value is. -/
theorem foldlM_firstItem (v : Value) (stack : List Container) :
    v.tokens.foldlM step? (firstItem stack) =
      v.tokens.foldlM step? (value (.array [] :: stack)) := by
  cases v with
  | array items => cases items <;> rfl
  | object members => cases members <;> rfl
  | _ => rfl

/-- A state that is reached if so many more arrays and objects may be open. -/
def reach? (stack : List Container) (more : Nat) (next : State) : Option State :=
  if stack.length + more ≤ depthLimit then some next else none

section Reach

variable {stack : List Container} {c : Container} {m n : Nat} {s s' : State}

theorem reach?_of_le (h : stack.length + n ≤ depthLimit) : reach? stack n s = some s := if_pos h

theorem reach?_cons : reach? (c :: stack) n s = reach? stack (n + 1) s := by
  rw [reach?, reach?, List.length_cons]
  exact if_congr (by omega) rfl rfl

/-- One way after the other: as many may be open as the one that needs more needs. -/
theorem reach?_bind {f : State → Option State}
    (hf : stack.length + m ≤ depthLimit → f s = reach? stack n s') :
    (reach? stack m s).bind f = reach? stack (max m n) s' := by
  unfold reach? at hf ⊢
  by_cases hm : stack.length + m ≤ depthLimit
  · rw [if_pos hm, Option.bind_some, hf hm]
    exact if_congr (by omega) rfl rfl
  · rw [if_neg hm, if_neg (by omega)]
    rfl

end Reach

mutual

/-- **A value is read from its tokens.** They lead from where it is due to where it has ended, if
what is open already and what the value opens are not too many. -/
theorem foldlM_tokens (v : Value) (stack : List Container) (h : stack.length ≤ depthLimit) :
    v.tokens.foldlM step? (value stack) = reach? stack v.depth (ended v stack) := by
  cases v with
  | array items =>
    have hopen : step? (value stack) .openBracket = reach? stack 1 (firstItem stack) := rfl
    cases items with
    | nil =>
      rw [Value.tokens, List.foldlM_cons, hopen]
      exact reach?_bind (n := 1) fun hlt => (reach?_of_le hlt).symm
    | cons v vs =>
      have hdepth : (Value.array (v :: vs)).depth =
          max 1 (max (v.depth + 1) (Value.depthOfItems vs + 1)) := by
        rw [Value.depth, Value.depthOfItems]
        omega
      rw [Value.tokens, List.foldlM_cons, hopen, hdepth]
      refine reach?_bind fun hlt => ?_
      rw [List.foldlM_append, foldlM_firstItem, foldlM_tokens v (.array [] :: stack) hlt,
        reach?_cons]
      exact reach?_bind fun _ => foldlM_items v vs [] stack hlt
  | object members =>
    have hopen : step? (value stack) .openBrace = reach? stack 1 (firstKey stack) := rfl
    cases members with
    | nil =>
      rw [Value.tokens, List.foldlM_cons, hopen]
      exact reach?_bind (n := 1) fun hlt => (reach?_of_le hlt).symm
    | cons m ms =>
      obtain ⟨k, v⟩ := m
      have hdepth : (Value.object ((k, v) :: ms)).depth =
          max 1 (max (v.depth + 1) (Value.depthOfMembers ms + 1)) := by
        rw [Value.depth, Value.depthOfMembers]
        omega
      rw [Value.tokens, List.foldlM_cons, hopen, hdepth]
      refine reach?_bind fun hlt => ?_
      show List.foldlM step? (value (.object [] k :: stack)) _ = _
      rw [List.foldlM_append, foldlM_tokens v (.object [] k :: stack) hlt, reach?_cons]
      exact reach?_bind fun _ => foldlM_members k v ms [] stack hlt
  | null => exact (reach?_of_le h).symm
  | bool b => exact (reach?_of_le h).symm
  | integer n => exact (reach?_of_le h).symm
  | decimal t => exact (reach?_of_le h).symm
  | string s => exact (reach?_of_le h).symm

/-- An item has ended, and the tokens behind it lead to the end of the array. -/
theorem foldlM_items (v : Value) (vs done : List Value) (stack : List Container)
    (h : stack.length + 1 ≤ depthLimit) :
    (Value.tokensOfItems vs).foldlM step? (ended v (.array done :: stack)) =
      reach? stack (Value.depthOfItems vs + 1)
        (ended (.array ((v :: done).reverse ++ vs)) stack) := by
  cases vs with
  | nil =>
    rw [List.append_nil]
    exact (reach?_of_le h).symm
  | cons w ws =>
    rw [Value.tokensOfItems, List.foldlM_cons]
    show List.foldlM step? (value (.array (v :: done) :: stack)) _ = _
    rw [List.foldlM_append, foldlM_tokens w (.array (v :: done) :: stack) h, reach?_cons]
    refine (reach?_bind fun _ => foldlM_items w ws (v :: done) stack h).trans ?_
    rw [Value.depthOfItems, List.reverse_cons, List.append_assoc, Nat.add_max_add_right]
    rfl

/-- A member has ended, and the tokens behind it lead to the end of the object. -/
theorem foldlM_members (k : String) (v : Value) (ms done : List (String × Value))
    (stack : List Container) (h : stack.length + 1 ≤ depthLimit) :
    (Value.tokensOfMembers ms).foldlM step? (ended v (.object done k :: stack)) =
      reach? stack (Value.depthOfMembers ms + 1)
        (ended (.object (((k, v) :: done).reverse ++ ms)) stack) := by
  cases ms with
  | nil =>
    rw [List.append_nil]
    exact (reach?_of_le h).symm
  | cons m ms =>
    obtain ⟨l, w⟩ := m
    have hreverse : ((l, w) :: (k, v) :: done).reverse ++ ms =
        ((k, v) :: done).reverse ++ (l, w) :: ms := by
      simp
    rw [Value.tokensOfMembers, List.foldlM_cons]
    show List.foldlM step? (value (.object ((k, v) :: done) l :: stack)) _ = _
    rw [List.foldlM_append, foldlM_tokens w (.object ((k, v) :: done) l :: stack) h, reach?_cons]
    refine (reach?_bind fun _ => foldlM_members l w ms ((k, v) :: done) stack h).trans ?_
    rw [Value.depthOfMembers, hreverse, Nat.add_max_add_right]

end

end State

theorem ofTokens?_tokens (v : Value) :
    ofTokens? v.tokens = if v.depth ≤ depthLimit then some v else none := by
  rw [ofTokens?, State.foldlM_tokens v [] (Nat.zero_le _), State.reach?, List.length_nil,
    Nat.zero_add]
  split <;> rfl

/-- **What is written is read back, if it is not nested too deep.** -/
theorem read?_pretty {v : Value} (hv : v.IsWhole) :
    read? v.pretty = if v.depth ≤ depthLimit then some v else none := by
  have hscan : Token.scan? v.pretty.toList = some v.tokens := by
    have h := Token.scan?_prettyAt hv 0 (r := []) (fun c hc => nomatch hc)
    rw [List.append_nil, Token.scan?, Option.map_some, List.append_nil] at h
    exact h
  rw [read?, hscan]
  exact ofTokens?_tokens v

end RubyBinding.Json
