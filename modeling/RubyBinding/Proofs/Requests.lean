import Mathlib.Data.List.Nodup
import RubyBinding.Library.Find
import RubyBinding.Proofs.Edits
import RubyBinding.Proofs.Order
import RubyBinding.Proofs.Walks

/-!
# Libraries that requests lead to

A library is annotated on request: declarations are found by name or position, and some requests
take several edits (`request_cases`). One request speaks of one declaration, its subject, and
leaves everything else as it was (`Changes`). So what is kept about a declaration fits what the tree
says of it, and the list of moves is the record of the moves that went well, less those that a later
one undid (`Consistent`).
-/

namespace RubyBinding

/-- How a request names a class. -/
inductive ClassRef where
  | named (name : String)
  | position (i : DeclId)
  deriving DecidableEq, Repr

/-- What is found by name besides classes. -/
inductive Handle where
  | function
  | method
  | enumeration
  deriving DecidableEq, Repr

/-- What can be said about whatever is found. -/
inductive Mark where
  | ignore
  | rename (name : String)
  deriving DecidableEq, Repr

/-- What can be said about a class that is found. -/
inductive ClassEdit where
  | mark (m : Mark)
  /-- Move a declaration into the class. -/
  | take (i : DeclId)
  | takeAsInstanceMethod (i : DeclId)
  | useSuperclass (name : String)
  | useCtor (index : Nat)
  | addCustomCode (code : CustomCode)
  | keepOwnName
  deriving DecidableEq, Repr

/-- What can be asked of a library. Several requests about one class name it by its position, which
is that of a class whatever is said about it. -/
inductive Request where
  | edit (e : Edit)
  | onClass (c : ClassRef) (e : ClassEdit)
  | onNamed (n : Handle) (name : String) (m : Mark)
  deriving DecidableEq, Repr

/-- The declaration that an edit changes. -/
def Edit.subject : Edit → DeclId
  | ignore i | rename i _ | addCustomCode i _ | keepOwnName i | setInstanceMethod i | moveTo i _
  | chooseSuperclass i _ | chooseCtor i _ => i

/-- Where an edit moves its subject. -/
def Edit.target? : Edit → Option DeclId
  | moveTo _ owner => some owner
  | _ => none

/-- The position of the class that is meant. -/
def ClassRef.find (lib : Library) : ClassRef → Except AnnotationError DeclId
  | named name => lib.findClass name
  | position i => lib.asClass i

/-- The position of the declaration of a name. -/
def Handle.find (lib : Library) : Handle → String → Except AnnotationError DeclId
  | function => lib.findFunction
  | method => lib.findMethod
  | enumeration => lib.findEnumeration

def Mark.edit (i : DeclId) : Mark → Edit
  | ignore => .ignore i
  | rename name => .rename i name

theorem Mark.subject_edit (m : Mark) (i : DeclId) : (m.edit i).subject = i := by
  cases m <;> rfl

theorem Mark.target?_edit (m : Mark) (i : DeclId) : (m.edit i).target? = none := by
  cases m <;> rfl

namespace ClassEdit

/-- The library after something was said about a class, or why it was refused. -/
def apply (lib : Library) (c : DeclId) : ClassEdit → Except AnnotationError Library
  | mark m => (m.edit c).apply lib
  | take i => lib.moveTo i c
  | takeAsInstanceMethod i => lib.includeAsInstanceMethod c i
  | useSuperclass name => lib.useSuperclass c name
  | useCtor index => lib.useCtor c index
  | addCustomCode code => .ok (lib.addCustomCode c code)
  | keepOwnName => .ok (lib.keepOwnName c)

/-- The declaration that changes when something is said about a class: what the class takes, or the
class. -/
def subject (c : DeclId) : ClassEdit → DeclId
  | take i | takeAsInstanceMethod i => i
  | _ => c

/-- Where the subject is moved. -/
def target? (c : DeclId) : ClassEdit → Option DeclId
  | take _ | takeAsInstanceMethod _ => some c
  | _ => none

end ClassEdit

namespace Request

/-- The library after a request, or why it was refused. -/
def apply (lib : Library) : Request → Except AnnotationError Library
  | edit e => e.apply lib
  | onClass c e => do e.apply lib (← c.find lib)
  | onNamed n name m => do (m.edit (← n.find lib name)).apply lib

/-- The declaration that a request changes, and where it moves it, if it does. -/
def effect? (lib : Library) : Request → Except AnnotationError (DeclId × Option DeclId)
  | edit e => .ok (e.subject, e.target?)
  | onClass c e => do
    let i ← c.find lib
    return (e.subject i, e.target? i)
  | onNamed n name _ => do return (← n.find lib name, none)

end Request

/-- As many hand-written definitions as statements. -/
def CodeLists.Paired (code : CodeLists) : Prop :=
  code.declarations.length = code.wrappings.length

theorem CodeLists.Paired.add {code : CodeLists} (h : code.Paired) (piece : CustomCode) :
    (code.add piece).Paired := by
  have hlength : code.declarations.length = code.wrappings.length := h
  simp [Paired, CodeLists.add, hlength]

namespace Library

/-- The library after a request. One that is refused changes nothing. -/
def request (lib : Library) (r : Request) : Library :=
  match r.apply lib with
  | .ok next => next
  | .error _ => lib

/-- The library after some requests. -/
def requests (lib : Library) (rs : List Request) : Library := rs.foldl request lib

/-- The move that a request makes, if it goes well. -/
def moveOf (lib : Library) (r : Request) : List (DeclId × DeclId) :=
  match r.apply lib, r.effect? lib with
  | .ok _, .ok (i, some owner) => [(i, owner)]
  | _, _ => []

/-- The moves of some requests that go well, one after the other. -/
def moveLog (lib : Library) : List Request → List (DeclId × DeclId)
  | [] => []
  | r :: rs => lib.moveOf r ++ moveLog (lib.request r) rs

/-- The last move of each declaration, in the order of these moves. -/
def latest : List (DeclId × DeclId) → List (DeclId × DeclId)
  | [] => []
  | m :: log => if m.1 ∈ log.map Prod.fst then latest log else m :: latest log

variable {lib next : Library} {log : List (DeclId × DeclId)} {e : Edit} {r : Request}
  {i j owner : DeclId}

/-! ## What one edit changes -/

theorem lookup_amendNotes (i j : DeclId) (f : Annotation → Annotation)
    (notes : List (DeclId × Annotation)) :
    (amendNotes i f notes).lookup j =
      if j = i then some (f ((notes.lookup i).getD {})) else notes.lookup j := by
  induction notes with
  | nil =>
    by_cases hj : j = i
    · simp [amendNotes, hj]
    · have hbeq : (j == i) = false := by simp [hj]
      simp [amendNotes, hj, List.lookup_cons, hbeq]
  | cons n ns ih =>
    obtain ⟨k, a⟩ := n
    by_cases hki : k = i
    · subst hki
      by_cases hj : j = k
      · simp [amendNotes, hj]
      · have hbeq : (j == k) = false := by simp [hj]
        simp [amendNotes, hj, List.lookup_cons, hbeq]
    · have hik : (i == k) = false := by simpa using fun h : i = k => hki h.symm
      rw [amendNotes, if_neg hki, List.lookup_cons, ih, List.lookup_cons, List.lookup_cons, hik]
      by_cases hjk : j = k
      · have hji : j ≠ i := hjk ▸ hki
        simp [hjk, hki]
      · have hbeq : (j == k) = false := by simp [hjk]
        rw [hbeq]

theorem amendNotes_amendNotes (i : DeclId) (f f' : Annotation → Annotation)
    (notes : List (DeclId × Annotation)) :
    amendNotes i f' (amendNotes i f notes) = amendNotes i (fun a => f' (f a)) notes := by
  induction notes with
  | nil => simp [amendNotes]
  | cons n notes ih =>
    obtain ⟨j, a⟩ := n
    by_cases hj : j = i
    · simp [amendNotes, hj]
    · simp [amendNotes, hj, ih]

theorem note_amend (lib : Library) (i : DeclId) (f : Annotation → Annotation) (j : DeclId) :
    (lib.amend i f).note j = if j = i then f (lib.note i) else lib.note j := by
  rw [note, amend, lookup_amendNotes]
  split <;> rfl

/-- What an edit makes of the list of moves. -/
theorem moves_of_edit (h : e.apply lib = .ok next) :
    next.moves = match e.target? with
      | none => lib.moves
      | some owner => lib.moves.filter (fun m => m.1 != e.subject) ++ [(e.subject, owner)] := by
  cases e with
  | moveTo i owner =>
    obtain ⟨-, rfl⟩ := moveTo_cases h
    rfl
  | chooseSuperclass i candidate =>
    obtain ⟨-, rfl⟩ := chooseSuperclass_cases h
    rfl
  | chooseCtor i candidate =>
    obtain ⟨-, rfl⟩ := chooseCtor_cases h
    rfl
  | _ => cases h; rfl

/-- What an edit makes of the notes: it moves its subject, or changes the note on it. A base or a
constructor is noted only if it is one of the class, and code only with both of its parts. -/
theorem notes_of_edit (h : e.apply lib = .ok next) :
    next.tree = lib.tree ∧
      (next.notes = lib.notes ∨ ∃ f : Annotation → Annotation,
        next.notes = amendNotes e.subject f lib.notes ∧
        (∀ a s, (f a).superclass = some s →
          a.superclass = some s ∨ s ∈ lib.tree.superclasses e.subject) ∧
        (∀ a k, (f a).ctor = some k → a.ctor = some k ∨
          (lib.tree.get k).kind.isCtor ∧ lib.tree.parent? k = some e.subject) ∧
        ∀ a, a.customCode.Paired → (f a).customCode.Paired) := by
  cases e with
  | moveTo i owner =>
    obtain ⟨-, rfl⟩ := moveTo_cases h
    exact ⟨rfl, .inl rfl⟩
  | chooseSuperclass i candidate =>
    obtain ⟨hmem, rfl⟩ := chooseSuperclass_cases h
    refine ⟨rfl, .inr ⟨_, rfl, ?_, fun _ _ hk => .inl hk, fun _ hc => hc⟩⟩
    intro a s hs
    cases hs
    exact .inr hmem
  | chooseCtor i candidate =>
    obtain ⟨hctor, rfl⟩ := chooseCtor_cases h
    refine ⟨rfl, .inr ⟨_, rfl, fun _ _ hs => .inl hs, ?_, fun _ hc => hc⟩⟩
    intro a k hk
    cases hk
    exact .inr hctor
  | addCustomCode i code =>
    cases h
    refine ⟨rfl, .inr ⟨_, rfl, fun _ _ hs => .inl hs, fun _ _ hk => .inl hk, ?_⟩⟩
    exact fun _ hc => hc.add code
  | _ =>
    cases h
    exact ⟨rfl, .inr ⟨_, rfl, fun _ _ hs => .inl hs, fun _ _ hk => .inl hk, fun _ hc => hc⟩⟩

theorem note_of_notes_eq (h : next.notes = lib.notes) (j : DeclId) : next.note j = lib.note j := by
  rw [note, note, h]

/-- The chosen base of a class is the one it had, or one of its bases. -/
theorem chosenSuperclass?_of_edit {c s : DeclId} (h : e.apply lib = .ok next)
    (hs : next.chosenSuperclass? c = some s) :
    lib.chosenSuperclass? c = some s ∨ s ∈ lib.tree.superclasses c := by
  obtain ⟨-, hnotes | ⟨f, hnotes, hf, -⟩⟩ := notes_of_edit h
  · rw [chosenSuperclass?, note_of_notes_eq hnotes] at hs
    exact .inl hs
  · have hnote : next.note c = (lib.amend e.subject f).note c := note_of_notes_eq hnotes c
    rw [chosenSuperclass?, hnote, note_amend] at hs
    split at hs
    next hc => exact hc ▸ hf _ s hs
    next => exact .inl hs

/-- The chosen constructor of a class is the one it had, or one that the class declares. -/
theorem chosenCtor?_of_edit {c k : DeclId} (h : e.apply lib = .ok next)
    (hk : next.chosenCtor? c = some k) :
    lib.chosenCtor? c = some k ∨
      (lib.tree.get k).kind.isCtor ∧ lib.tree.parent? k = some c := by
  obtain ⟨-, hnotes | ⟨f, hnotes, -, hf, -⟩⟩ := notes_of_edit h
  · rw [chosenCtor?, note_of_notes_eq hnotes] at hk
    exact .inl hk
  · have hnote : next.note c = (lib.amend e.subject f).note c := note_of_notes_eq hnotes c
    rw [chosenCtor?, hnote, note_amend] at hk
    split at hk
    next hc => exact hc ▸ hf _ k hk
    next => exact .inl hk

/-- An edit leaves as many definitions as statements. -/
theorem paired_of_edit (h : e.apply lib = .ok next) (hc : ∀ i, (lib.note i).customCode.Paired)
    (i : DeclId) : (next.note i).customCode.Paired := by
  obtain ⟨-, hnotes | ⟨f, hnotes, -, -, hf⟩⟩ := notes_of_edit h
  · rw [note_of_notes_eq hnotes]
    exact hc i
  · have hnote : next.note i = (lib.amend e.subject f).note i := note_of_notes_eq hnotes i
    rw [hnote, note_amend]
    split
    · exact hf _ (hc e.subject)
    · exact hc i

/-- An edit moves its subject only into what can own it. -/
theorem canOwn_of_edit (h : e.apply lib = .ok next) (ht : e.target? = some owner) :
    lib.canOwn owner e.subject := by
  cases e with
  | moveTo i owner' =>
    cases ht
    exact (moveTo_cases h).1
  | _ => cases ht

theorem canOwn_iff : lib.canOwn owner i ↔
    ((lib.tree.get owner).isRecord ∨ (lib.tree.get owner).isNamespace) ∧
      i ∉ lib.tree.scopes owner := by
  simp [canOwn, DeclTree.isWithin]

/-! ## What one request changes -/

/-- What a change of one declaration leaves alone of a library, and what a move makes of the lists
of what came to its old and its new owner. -/
structure Changes (lib next : Library) (i : DeclId) (target? : Option DeclId) : Prop where
  tree : next.tree = lib.tree
  notes : ∀ j ≠ i, next.notes.lookup j = lib.notes.lookup j
  movedTo? : ∀ j, next.movedTo? j = if j = i then target? <|> lib.movedTo? i else lib.movedTo? j
  movedInto : ∀ o, next.movedInto o = target?.elim (lib.movedInto o) fun owner =>
    (if lib.movedTo? i = some o then (lib.movedInto o).filter (· != i) else lib.movedInto o) ++
      if o = owner then [i] else []

/-- Where a declaration went, by a list of moves in which it is once. -/
theorem lookup_eq_some_iff_mem {moves : List (DeclId × DeclId)}
    (h : (moves.map Prod.fst).Nodup) : moves.lookup i = some owner ↔ (i, owner) ∈ moves := by
  rw [List.lookup_eq_some_iff]
  constructor
  · rintro ⟨before, after, rfl, -⟩
    simp
  · intro hmem
    obtain ⟨before, after, rfl⟩ := List.append_of_mem hmem
    refine ⟨before, after, rfl, ?_⟩
    intro m hm
    simp only [List.map_append, List.map_cons, List.nodup_append, List.mem_map] at h
    simpa using h.2.2 m.1 ⟨m, hm, rfl⟩ i List.mem_cons_self |> Ne.symm

theorem movedInto_of_moves (hmoves : next.moves =
      lib.moves.filter (fun m => m.1 != i) ++ [(i, owner)]) (o : DeclId) :
    next.movedInto o = (lib.movedInto o).filter (· != i) ++ if o = owner then [i] else [] := by
  rw [movedInto, hmoves, List.filter_append, List.map_append, movedInto, List.filter_map,
    List.filter_filter, List.filter_filter]
  congr 1
  · congr 2
    funext m
    exact Bool.and_comm _ _
  · by_cases ho : o = owner
    · simp [ho]
    · have hne : owner ≠ o := fun h => ho h.symm
      simp [ho, hne]

theorem Changes.of_edit (hnodup : (lib.moves.map Prod.fst).Nodup) (h : e.apply lib = .ok next) :
    Changes lib next e.subject e.target? where
  tree := (notes_of_edit h).1
  notes := by
    intro j hj
    rcases (notes_of_edit h).2 with hnotes | ⟨f, hnotes, -⟩
    · rw [hnotes]
    · rw [hnotes, lookup_amendNotes, if_neg hj]
  movedTo? := by
    intro j
    have hmoves := moves_of_edit h
    cases ht : e.target? with
    | none =>
      rw [ht] at hmoves
      by_cases hj : j = e.subject
      · rw [if_pos hj, hj, Library.movedTo?, hmoves]
        rfl
      · rw [if_neg hj, Library.movedTo?, hmoves]
        rfl
    | some owner =>
      cases e with
      | moveTo i owner' =>
        cases ht
        exact movedTo?_moveTo h j
      | _ => cases ht
  movedInto := by
    intro o
    have hmoves := moves_of_edit h
    cases ht : e.target? with
    | none =>
      rw [ht] at hmoves
      rw [Library.movedInto, hmoves]
      rfl
    | some owner =>
      rw [ht] at hmoves
      rw [movedInto_of_moves hmoves, Option.elim_some]
      -- A list that does not have the subject stays the same without it.
      by_cases hold : lib.movedTo? e.subject = some o
      · rw [if_pos hold]
      · rw [if_neg hold, List.filter_eq_self.mpr]
        intro x hx
        rw [Library.movedTo?, lookup_eq_some_iff_mem hnodup] at hold
        have hne : x ≠ e.subject := by
          rintro rfl
          exact hold (mem_movedInto.mp hx)
        simpa using hne

/-- A change of a declaration that was moved before is one change. -/
theorem Changes.trans {last : Library} {target? : Option DeclId} (h : Changes lib next i target?)
    (h' : Changes next last i none) : Changes lib last i target? where
  tree := h'.tree.trans h.tree
  notes := fun j hj => (h'.notes j hj).trans (h.notes j hj)
  movedTo? := by
    intro j
    rw [h'.movedTo?, h.movedTo?, h.movedTo?]
    by_cases hj : j = i
    · simp [hj]
    · simp [hj]
  movedInto := fun o => (h'.movedInto o).trans (h.movedInto o)

/-- A declaration that becomes an instance method is moved and then noted as one. -/
theorem includeAsInstanceMethod_cases (h : lib.includeAsInstanceMethod owner i = .ok next) :
    ∃ moved, lib.moveTo i owner = .ok moved ∧ next = moved.setInstanceMethod i := by
  unfold includeAsInstanceMethod at h
  split at h
  · obtain ⟨moved, hm, hnext⟩ := bind_eq_ok_iff.mp h
    cases hnext
    exact ⟨moved, hm, rfl⟩
  · cases h

/-- What is said about a class is one edit, or it moves something and says so. -/
theorem classEdit_cases {c : DeclId} {e : ClassEdit} (h : e.apply lib c = .ok next) :
    (∃ e' : Edit, e'.apply lib = .ok next ∧ e'.subject = e.subject c ∧
      e'.target? = e.target? c) ∨
    ∃ moved, lib.moveTo (e.subject c) c = .ok moved ∧
      next = moved.setInstanceMethod (e.subject c) ∧ e.target? c = some c := by
  cases e with
  | mark m => exact .inl ⟨m.edit c, h, m.subject_edit c, m.target?_edit c⟩
  | take i => exact .inl ⟨.moveTo i c, h, rfl, rfl⟩
  | takeAsInstanceMethod i =>
    obtain ⟨moved, hm, hnext⟩ := includeAsInstanceMethod_cases h
    exact .inr ⟨moved, hm, hnext, rfl⟩
  | useSuperclass name =>
    simp only [ClassEdit.apply, useSuperclass] at h
    split at h
    · exact .inl ⟨.chooseSuperclass c _, h, rfl, rfl⟩
    · cases h
  | useCtor index =>
    simp only [ClassEdit.apply, useCtor] at h
    split at h
    · exact .inl ⟨.chooseCtor c _, h, rfl, rfl⟩
    · cases h
  | addCustomCode code => exact .inl ⟨.addCustomCode c code, h, rfl, rfl⟩
  | keepOwnName => exact .inl ⟨.keepOwnName c, h, rfl, rfl⟩

/-- A request that goes well is one edit, or a move and a note on what was moved. -/
theorem request_cases (h : r.apply lib = .ok next) :
    (∃ e : Edit, e.apply lib = .ok next ∧ r.effect? lib = .ok (e.subject, e.target?)) ∨
    ∃ i owner moved, lib.moveTo i owner = .ok moved ∧ next = moved.setInstanceMethod i ∧
      r.effect? lib = .ok (i, some owner) := by
  cases r with
  | edit e => exact .inl ⟨e, h, rfl⟩
  | onClass c e =>
    obtain ⟨i, hi, h⟩ := bind_eq_ok_iff.mp h
    have heffect : (Request.onClass c e).effect? lib = .ok (e.subject i, e.target? i) :=
      bind_eq_ok_iff.mpr ⟨i, hi, rfl⟩
    rcases classEdit_cases h with ⟨e', he', hs, ht⟩ | ⟨moved, hm, hnext, ht⟩
    · exact .inl ⟨e', he', by rw [heffect, hs, ht]⟩
    · exact .inr ⟨_, i, moved, hm, hnext, by rw [heffect, ht]⟩
  | onNamed n name m =>
    obtain ⟨i, hi, h⟩ := bind_eq_ok_iff.mp h
    refine .inl ⟨m.edit i, h, ?_⟩
    rw [m.subject_edit, m.target?_edit]
    exact bind_eq_ok_iff.mpr ⟨i, hi, rfl⟩

/-! ## What any requests keep -/

theorem mem_map_latest {log : List (DeclId × DeclId)} :
    i ∈ (latest log).map Prod.fst ↔ i ∈ log.map Prod.fst := by
  induction log with
  | nil => rfl
  | cons m log ih =>
    rw [latest, List.map_cons, List.mem_cons]
    split
    next hm =>
      rw [ih]
      refine ⟨.inr, ?_⟩
      rintro (rfl | hi)
      · exact hm
      · exact hi
    next => rw [List.map_cons, List.mem_cons, ih]

/-- No declaration has two last moves. -/
theorem latest_nodup (log : List (DeclId × DeclId)) : ((latest log).map Prod.fst).Nodup := by
  induction log with
  | nil => exact List.nodup_nil
  | cons m log ih =>
    rw [latest]
    split
    next => exact ih
    next hm =>
      rw [List.map_cons, List.nodup_cons]
      exact ⟨fun hmem => hm (mem_map_latest.mp hmem), ih⟩

/-- A move undoes an earlier one of the same declaration. -/
theorem latest_concat (log : List (DeclId × DeclId)) (i owner : DeclId) :
    latest (log ++ [(i, owner)]) = (latest log).filter (fun m => m.1 != i) ++ [(i, owner)] := by
  induction log with
  | nil => rfl
  | cons m log ih =>
    simp only [List.cons_append, latest, List.map_append, List.mem_append, List.map_cons,
      List.map_nil, List.mem_singleton, ih]
    by_cases hmi : m.1 = i
    · rw [if_pos (.inr hmi)]
      split
      next => rfl
      next => rw [List.filter_cons_of_neg (by simpa using hmi)]
    · simp only [hmi, or_false]
      split
      next => rfl
      next => rw [List.filter_cons_of_pos (by simpa using hmi), List.cons_append]

/-- What holds of a library after any requests, where `log` are the moves that went well, in their
order. -/
structure Consistent (lib : Library) (log : List (DeclId × DeclId)) : Prop where
  /-- A declaration is in the list of its owner, once. -/
  mem_movedInto_iff : ∀ i owner, i ∈ lib.movedInto owner ↔ lib.movedTo? i = some owner
  movedInto_nodup : ∀ owner, (lib.movedInto owner).Nodup
  /-- Its owner is where it went last, and the lists are in the order of these moves. -/
  movedTo?_eq : ∀ i, lib.movedTo? i = log.reverse.lookup i
  movedInto_eq : ∀ owner,
    lib.movedInto owner = ((latest log).filter fun m => m.2 == owner).map Prod.fst
  /-- It is a class or namespace, and not inside of what was moved. -/
  owner : ∀ i owner, lib.movedTo? i = some owner →
    ((lib.tree.get owner).isRecord ∨ (lib.tree.get owner).isNamespace) ∧ owner ≠ i ∧
      i ∉ lib.tree.scopes owner
  superclass : ∀ c s, lib.chosenSuperclass? c = some s → s ∈ lib.tree.superclasses c
  ctor : ∀ c k, lib.chosenCtor? c = some k →
    (lib.tree.get k).kind.isCtor ∧ lib.tree.parent? k = some c
  /-- There are as many hand-written definitions as there are statements. -/
  customCode : ∀ i,
    (lib.note i).customCode.declarations.length = (lib.note i).customCode.wrappings.length

/-- The facts that edits keep, from which a library is consistent. -/
structure Sound (lib : Library) (log : List (DeclId × DeclId)) : Prop where
  moves : lib.moves = latest log
  movedTo?_eq : ∀ i, lib.movedTo? i = log.reverse.lookup i
  canOwn : ∀ m ∈ lib.moves, lib.canOwn m.2 m.1
  superclass : ∀ c s, lib.chosenSuperclass? c = some s → s ∈ lib.tree.superclasses c
  ctor : ∀ c k, lib.chosenCtor? c = some k →
    (lib.tree.get k).kind.isCtor ∧ lib.tree.parent? k = some c
  customCode : ∀ i, (lib.note i).customCode.Paired

theorem Sound.ofTree (t : DeclTree) : Sound (ofTree t) [] where
  moves := rfl
  movedTo?_eq := fun _ => rfl
  canOwn := fun _ h => nomatch h
  superclass := fun _ _ h => nomatch h
  ctor := fun _ _ h => nomatch h
  customCode := fun _ => rfl

theorem Sound.nodup (h : Sound lib log) : (lib.moves.map Prod.fst).Nodup := by
  rw [h.moves]
  exact latest_nodup log

theorem Sound.edit (h : Sound lib log) (he : e.apply lib = .ok next) :
    Sound next (log ++ (e.target?.map fun owner => (e.subject, owner)).toList) := by
  have hchange := Changes.of_edit h.nodup he
  have hmoves := moves_of_edit he
  refine ⟨?_, ?_, ?_, ?_, ?_, paired_of_edit he h.customCode⟩
  · cases ht : e.target? with
    | none =>
      rw [ht] at hmoves
      simpa using hmoves.trans h.moves
    | some owner =>
      rw [ht] at hmoves
      rw [hmoves, h.moves]
      exact (latest_concat log e.subject owner).symm
  · intro i
    rw [hchange.movedTo?, h.movedTo?_eq, h.movedTo?_eq]
    cases e.target? with
    | none => by_cases hi : i = e.subject <;> simp [hi]
    | some owner =>
      by_cases hi : i = e.subject
      · simp [hi]
      · have hbeq : (i == e.subject) = false := by simp [hi]
        simp [hi, List.lookup_cons, hbeq]
  · intro m hm
    rw [canOwn_congr hchange.tree]
    cases ht : e.target? with
    | none =>
      rw [ht] at hmoves
      rw [hmoves] at hm
      exact h.canOwn m hm
    | some owner =>
      rw [ht] at hmoves
      rw [hmoves, List.mem_append, List.mem_singleton] at hm
      rcases hm with hold | rfl
      · exact h.canOwn m (List.mem_filter.mp hold).1
      · exact canOwn_of_edit he ht
  · intro c s hs
    rw [hchange.tree]
    exact (chosenSuperclass?_of_edit he hs).elim (h.superclass c s) id
  · intro c k hk
    rw [hchange.tree]
    exact (chosenCtor?_of_edit he hk).elim (h.ctor c k) id

theorem Sound.consistent (h : Sound lib log) : Consistent lib log where
  mem_movedInto_iff := by
    intro i owner
    rw [mem_movedInto, movedTo?, lookup_eq_some_iff_mem h.nodup]
  movedInto_nodup := fun owner => (List.filter_sublist.map _).nodup h.nodup
  movedTo?_eq := h.movedTo?_eq
  movedInto_eq := by
    intro owner
    rw [movedInto, h.moves]
  owner := by
    intro i owner hi
    rw [movedTo?, lookup_eq_some_iff_mem h.nodup] at hi
    obtain ⟨hkind, hout⟩ := canOwn_iff.mp (h.canOwn _ hi)
    refine ⟨hkind, ?_, hout⟩
    rintro rfl
    exact hout (DeclTree.self_mem_scopes lib.tree owner)
  superclass := h.superclass
  ctor := h.ctor
  customCode := h.customCode

/-- A request that goes well changes its subject, and the library stays as sound as it was. -/
theorem Sound.request (h : Sound lib log) (hr : r.apply lib = .ok next) :
    ∃ i target?, r.effect? lib = .ok (i, target?) ∧ Changes lib next i target? ∧
      Sound next (log ++ (target?.map fun owner => (i, owner)).toList) := by
  rcases request_cases hr with ⟨e, he, heffect⟩ | ⟨i, owner, moved, hm, rfl, heffect⟩
  · exact ⟨e.subject, e.target?, heffect, Changes.of_edit h.nodup he, h.edit he⟩
  · have hmove : (Edit.moveTo i owner).apply lib = .ok moved := hm
    have hset : (Edit.setInstanceMethod i).apply moved = .ok (moved.setInstanceMethod i) := rfl
    have hmoved := h.edit hmove
    refine ⟨i, some owner, heffect, ?_, ?_⟩
    · exact (Changes.of_edit h.nodup hmove).trans (Changes.of_edit hmoved.nodup hset)
    · simpa [Edit.target?, Edit.subject] using hmoved.edit hset

@[simp]
theorem request_tree (lib : Library) (r : Request) : (lib.request r).tree = lib.tree := by
  rw [Library.request]
  cases hr : r.apply lib with
  | error err => rfl
  | ok next =>
    rcases request_cases hr with ⟨e, he, -⟩ | ⟨i, owner, moved, hm, rfl, -⟩
    · exact (notes_of_edit he).1
    · obtain ⟨-, rfl⟩ := moveTo_cases hm
      rfl

@[simp]
theorem requests_tree (lib : Library) (rs : List Request) :
    (lib.requests rs).tree = lib.tree := by
  induction rs generalizing lib with
  | nil => rfl
  | cons r rs ih => exact (ih _).trans (request_tree lib r)

theorem Sound.requests (h : Sound lib log) (rs : List Request) :
    Sound (lib.requests rs) (log ++ lib.moveLog rs) := by
  induction rs generalizing lib log with
  | nil => simpa [moveLog, Library.requests] using h
  | cons r rs ih =>
    rw [moveLog, ← List.append_assoc]
    refine ih ?_
    cases hr : r.apply lib with
    | error err => simpa [Library.request, moveOf, hr] using h
    | ok next =>
      obtain ⟨i, target?, heffect, -, hnext⟩ := h.request hr
      have hrequest : lib.request r = next := by rw [Library.request, hr]
      have hmove : lib.moveOf r = (target?.map fun owner => (i, owner)).toList := by
        rw [moveOf, hr, heffect]
        cases target? <;> rfl
      rw [hrequest, hmove]
      exact hnext

end Library

end RubyBinding
