import Mathlib.Logic.Function.Basic
import RubyBinding.Proofs.Requests

/-!
# Libraries as ledgers

A `Library` has one list of moves, of which everything else is a view. A `Ledger` keeps the views
themselves: the note on each declaration, where it went, and for each class or namespace what came
there. Requests are carried out on a ledger step by step (`Ledger.Work`), every step is entered at
once, and nothing is taken back when a later step is refused. Still a ledger never falls apart:
requests do to it what they do to the library it stands for (`Ledger.run_request`), and a request
that is refused leaves it as it was.
-/

namespace RubyBinding

/-- What can be asked of an annotated library. -/
structure Ledger where
  note? : DeclId → Option Annotation
  movedTo? : DeclId → Option DeclId
  movedInto : DeclId → List DeclId

namespace Ledger

/-- The ledger of a library of which nothing was said. -/
def blank : Ledger := ⟨fun _ => none, fun _ => none, fun _ => []⟩

/-- Work on a ledger. It may be refused half way, and what was entered until then stays. -/
abbrev Work := ExceptT AnnotationError (StateM Ledger)

/-- Change the note on a declaration. -/
def amend (i : DeclId) (f : Annotation → Annotation) : Work Unit :=
  modify fun l => { l with note? := Function.update l.note? i (some (f ((l.note? i).getD {}))) }

/-- Change the list of what came to a class or namespace. -/
def relist (owner : DeclId) (f : List DeclId → List DeclId) : Work Unit :=
  modify fun l =>
    { l with movedInto := Function.update l.movedInto owner (f (l.movedInto owner)) }

/-- Take a declaration off the list of its owner. -/
def leave (i : DeclId) : Work Unit := do
  match (← get).movedTo? i with
  | none => return
  | some previous => relist previous fun members => members.filter (· != i)

/-- Enter where a declaration went. -/
def goTo (i owner : DeclId) : Work Unit :=
  modify fun l => { l with movedTo? := Function.update l.movedTo? i (some owner) }

/-- Put a declaration at the end of the list of its owner. -/
def join (i owner : DeclId) : Work Unit := relist owner fun members => members ++ [i]

variable (t : DeclTree)

/-- Move a declaration: off the list of its former owner, to its new owner, onto the list of that
one. -/
def moveTo (i owner : DeclId) : Work Unit := do
  if (((← get).note? i).getD {}).isIgnored then
    throw (.alreadyIgnored (t.qualifiedName i))
  else if !(Library.ofTree t).canOwn owner i then
    throw (.invalidMoveTarget (t.qualifiedName i) (t.qualifiedName owner))
  else
    leave i
    goTo i owner
    join i owner

def chooseSuperclass (i candidate : DeclId) : Work Unit :=
  if (t.superclasses i).contains candidate then
    amend i fun a => { a with superclass := some candidate }
  else throw (.notASuperclass (t.qualifiedName i) (t.qualifiedName candidate))

def chooseCtor (i candidate : DeclId) : Work Unit :=
  if (t.get candidate).kind.isCtor && t.parent? candidate = some i then
    amend i fun a => { a with ctor := some candidate }
  else throw (.notACtor (t.qualifiedName i) (t.qualifiedName candidate))

/-- Put the parts of hand-written code at the ends of their lists, one after the other. -/
def addCustomCode (i : DeclId) (code : CustomCode) : Work Unit := do
  amend i fun a =>
    { a with customCode.declarations := a.customCode.declarations ++ [code.declaration] }
  amend i fun a => { a with customCode.wrappings := a.customCode.wrappings ++ [code.wrapping] }

def edit : Edit → Work Unit
  | .ignore i => amend i fun a => { a with isIgnored := true }
  | .rename i name => amend i fun a => { a with rename := some name }
  | .addCustomCode i code => addCustomCode i code
  | .keepOwnName i => amend i fun a => { a with keepsOwnName := true }
  | .setInstanceMethod i => amend i fun a => { a with isInstanceMethod := true }
  | .moveTo i owner => moveTo t i owner
  | .chooseSuperclass i candidate => chooseSuperclass t i candidate
  | .chooseCtor i candidate => chooseCtor t i candidate

/-- Look something up that may not be there. -/
def find (found : Except AnnotationError DeclId) : Work DeclId := liftM found

def classEdit (c : DeclId) : ClassEdit → Work Unit
  | .mark m => edit t (m.edit c)
  | .take i => moveTo t i c
  | .takeAsInstanceMethod i => do
    if (t.get i).kind.isFunction then
      moveTo t i c
      amend i fun a => { a with isInstanceMethod := true }
    else throw (.wrongKind (t.qualifiedName i) "function")
  | .useSuperclass name =>
    match t.resolve? (t.scopeOf c) name with
    | some candidate => chooseSuperclass t c candidate
    | none => throw (.notFound "class" name)
  | .useCtor index =>
    match (t.membersOf c Kind.isCtor)[index]? with
    | some ctor => chooseCtor t c ctor
    | none => throw (.notFound "constructor" (t.qualifiedName c ++ "#" ++ toString index))
  | .addCustomCode code => addCustomCode c code
  | .keepOwnName => amend c fun a => { a with keepsOwnName := true }

def request : Request → Work Unit
  | .edit e => edit t e
  | .onClass c e => do classEdit t (← find (c.find (Library.ofTree t))) e
  | .onNamed n name m => do edit t (m.edit (← find (n.find (Library.ofTree t) name)))

/-- The ledger after some requests, whether they were refused or not. -/
def after (rs : List Request) : Ledger :=
  rs.foldl (fun l r => ((request t r).run.run l).2) blank

end Ledger

/-- What can be asked of a library, all at once. -/
def Library.ledger (lib : Library) : Ledger where
  note? i := lib.notes.lookup i
  movedTo? := lib.movedTo?
  movedInto := lib.movedInto

namespace Ledger

open Library

variable {t : DeclTree} {lib next : Library} {log : List (DeclId × DeclId)} {i owner : DeclId}

/-- Work on the ledger of a library that does what was done to the library: where that was refused,
the ledger is what it was. -/
def Follows (w : Work Unit) (lib : Library) (done : Except AnnotationError Library) : Prop :=
  w.run.run lib.ledger = match done with
    | .ok next => (.ok (), next.ledger)
    | .error e => (.error e, lib.ledger)

/-- One thing after another, where the first is not refused. -/
theorem run_bind {α β : Type} {w : Work α} {v : α → Work β} {l l' : Ledger} {a : α}
    (h : w.run.run l = (.ok a, l')) : (w >>= v).run.run l = (v a).run.run l' := by
  change (do
    let r ← w.run.run l
    ExceptT.bindCont v r.1 r.2 : Id _) = _
  rw [h]
  rfl

/-- What is refused first is refused. -/
theorem run_bind_error {α β : Type} {w : Work α} {v : α → Work β} {l l' : Ledger}
    {e : AnnotationError} (h : w.run.run l = (.error e, l')) :
    (w >>= v).run.run l = (.error e, l') := by
  change (do
    let r ← w.run.run l
    ExceptT.bindCont v r.1 r.2 : Id _) = _
  rw [h]
  rfl

theorem Follows.throw (e : AnnotationError) (lib : Library) :
    Follows (MonadExcept.throw e) lib (.error e) := rfl

theorem Follows.amend (lib : Library) (i : DeclId) (f : Annotation → Annotation) :
    Follows (amend i f) lib (.ok (lib.amend i f)) := by
  have hnotes : Function.update (fun j => lib.notes.lookup j) i
      (some (f ((lib.notes.lookup i).getD {}))) =
        fun j => (amendNotes i f lib.notes).lookup j := by
    funext j
    rw [lookup_amendNotes, Function.update_apply]
  change (Except.ok (), Ledger.mk _ _ _) = (Except.ok (), Ledger.mk _ _ _)
  rw [ledger, hnotes]
  rfl

/-- Work that goes well, and then other work that does. -/
theorem Follows.then {w v : Work Unit} {mid : Library} (hw : Follows w lib (.ok mid))
    (hv : Follows v mid (.ok next)) : Follows (do w; v) lib (.ok next) :=
  (run_bind hw).trans hv

/-- The two steps in which code is entered make of a ledger what adding it makes of the library. -/
theorem Follows.addCustomCode (lib : Library) (i : DeclId) (code : CustomCode) :
    Follows (addCustomCode i code) lib (.ok (lib.addCustomCode i code)) := by
  have hsteps : lib.addCustomCode i code = Library.amend (lib.amend i fun a =>
      { a with customCode.declarations := a.customCode.declarations ++ [code.declaration] }) i
        fun a => { a with customCode.wrappings := a.customCode.wrappings ++ [code.wrapping] } := by
    rw [Library.amend, Library.amend, amendNotes_amendNotes]
    rfl
  rw [hsteps]
  exact (Follows.amend lib i _).then (Follows.amend _ i _)

/-- What came to a class or namespace, less a declaration that is to leave. -/
def remaining (l : Ledger) (i o : DeclId) : List DeclId :=
  if l.movedTo? i = some o then (l.movedInto o).filter (· != i) else l.movedInto o

/-- Leaving the former owner takes a declaration off one list at most. -/
theorem run_leave (l : Ledger) (i : DeclId) :
    (leave i).run.run l = (.ok (), { l with movedInto := l.remaining i }) := by
  have hleave : (leave i).run.run l = (match l.movedTo? i with
      | none => (pure () : Work Unit)
      | some previous => relist previous fun members => members.filter (· != i)).run.run l := rfl
  rw [hleave]
  cases hold : l.movedTo? i with
  | none =>
    have hinto : l.remaining i = l.movedInto := by
      funext o
      rw [remaining, hold, if_neg (by simp)]
    rw [hinto]
    rfl
  | some previous =>
    have hinto : l.remaining i =
        Function.update l.movedInto previous ((l.movedInto previous).filter (· != i)) := by
      funext o
      rw [remaining, hold, Function.update_apply]
      by_cases ho : o = previous
      · rw [if_pos ho, if_pos (congrArg some ho.symm), ho]
      · rw [if_neg ho, if_neg fun h => ho (Option.some.inj h).symm]
    rw [hinto]
    rfl

/-- The three steps of a move make of a ledger what the move makes of the library. -/
theorem Follows.moves (h : Sound lib log) (hm : lib.moveTo i owner = .ok next) :
    Follows (do leave i; goTo i owner; join i owner) lib (.ok next) := by
  have hchange := Changes.of_edit (e := .moveTo i owner) h.nodup hm
  have hnotes : next.notes = lib.notes := by
    obtain ⟨-, rfl⟩ := moveTo_cases hm
    rfl
  have hto : next.movedTo? = Function.update lib.movedTo? i (some owner) := by
    funext j
    rw [hchange.movedTo?, Function.update_apply]
    rfl
  have hinto : next.movedInto = Function.update (lib.ledger.remaining i) owner
      (lib.ledger.remaining i owner ++ [i]) := by
    funext o
    rw [hchange.movedInto, Function.update_apply]
    change lib.ledger.remaining i o ++ (if o = owner then [i] else []) = _
    by_cases ho : o = owner
    · rw [if_pos ho, if_pos ho, ho]
    · rw [if_neg ho, if_neg ho, List.append_nil]
  have hnext : next.ledger = ⟨fun j => lib.notes.lookup j,
      Function.update lib.movedTo? i (some owner), Function.update (lib.ledger.remaining i) owner
        (lib.ledger.remaining i owner ++ [i])⟩ := by
    rw [ledger, hnotes, hto, hinto]
  refine (run_bind (run_leave _ i)).trans ?_
  simp only [hnext]
  rfl

theorem Follows.moveTo (h : Sound lib log) (ht : lib.tree = t) (i owner : DeclId) :
    Follows (moveTo t i owner) lib (lib.moveTo i owner) := by
  subst ht
  have hown : (ofTree lib.tree).canOwn owner i = lib.canOwn owner i := canOwn_congr rfl owner i
  have hstart : (Ledger.moveTo lib.tree i owner).run.run lib.ledger =
      (if lib.isIgnored i then MonadExcept.throw (.alreadyIgnored (lib.tree.qualifiedName i))
      else if !(ofTree lib.tree).canOwn owner i then
        MonadExcept.throw
          (.invalidMoveTarget (lib.tree.qualifiedName i) (lib.tree.qualifiedName owner))
      else do leave i; goTo i owner; join i owner : Work Unit).run.run lib.ledger := rfl
  rw [Follows.eq_def, hstart, hown]
  by_cases hign : lib.isIgnored i
  · simp only [hign, Library.moveTo, if_true]
    rfl
  · by_cases hcan : lib.canOwn owner i
    · have hok := moveTo_eq_ok (by simpa using hign) hcan
      have hmoves := Follows.moves h hok
      simp only [hign, hcan, Bool.not_true, Bool.false_eq_true, if_false, hok]
      exact hmoves
    · simp only [hign, hcan, Library.moveTo, Bool.not_false, Bool.false_eq_true, if_true, if_false]
      rfl

theorem Follows.chooseSuperclass (ht : lib.tree = t) (i candidate : DeclId) :
    Follows (chooseSuperclass t i candidate) lib (lib.chooseSuperclass i candidate) := by
  subst ht
  unfold Ledger.chooseSuperclass Library.chooseSuperclass
  split
  · exact Follows.amend lib i _
  · exact Follows.throw _ lib

theorem Follows.chooseCtor (ht : lib.tree = t) (i candidate : DeclId) :
    Follows (chooseCtor t i candidate) lib (lib.chooseCtor i candidate) := by
  subst ht
  unfold Ledger.chooseCtor Library.chooseCtor
  split
  · exact Follows.amend lib i _
  · exact Follows.throw _ lib

theorem Follows.edit (h : Sound lib log) (ht : lib.tree = t) (e : Edit) :
    Follows (edit t e) lib (e.apply lib) := by
  cases e with
  | moveTo i owner => exact Follows.moveTo h ht i owner
  | chooseSuperclass i candidate => exact Follows.chooseSuperclass ht i candidate
  | chooseCtor i candidate => exact Follows.chooseCtor ht i candidate
  | ignore i | keepOwnName i | setInstanceMethod i =>
    rw [Ledger.edit]
    exact Follows.amend lib i _
  | rename i name =>
    rw [Ledger.edit]
    exact Follows.amend lib i _
  | addCustomCode i code => exact Follows.addCustomCode lib i code

theorem Follows.classEdit (h : Sound lib log) (ht : lib.tree = t) (c : DeclId) (e : ClassEdit) :
    Follows (classEdit t c e) lib (e.apply lib c) := by
  cases e with
  | mark m => exact Follows.edit h ht (m.edit c)
  | take i => exact Follows.moveTo h ht i c
  | takeAsInstanceMethod i =>
    simp only [Ledger.classEdit, ClassEdit.apply, includeAsInstanceMethod, ht]
    split
    · have hmove := Follows.moveTo h ht i c
      cases hm : lib.moveTo i c with
      | error err =>
        rw [hm] at hmove
        exact run_bind_error hmove
      | ok moved =>
        rw [hm] at hmove
        exact hmove.then (Follows.amend moved i _)
    · exact Follows.throw _ lib
  | useSuperclass name =>
    simp only [Ledger.classEdit, ClassEdit.apply, useSuperclass, ht]
    cases t.resolve? (t.scopeOf c) name with
    | none => exact Follows.throw _ lib
    | some candidate => exact Follows.chooseSuperclass ht c candidate
  | useCtor index =>
    simp only [Ledger.classEdit, ClassEdit.apply, useCtor, ctors, ht]
    cases (t.membersOf c Kind.isCtor)[index]? with
    | none => exact Follows.throw _ lib
    | some ctor => exact Follows.chooseCtor ht c ctor
  | addCustomCode code => exact Follows.addCustomCode lib c code
  | keepOwnName =>
    rw [Ledger.classEdit]
    exact Follows.amend lib c _

/-- What is done with whatever is found. -/
theorem Follows.find {v : DeclId → Work Unit} {f : DeclId → Except AnnotationError Library}
    (hv : ∀ i, Follows (v i) lib (f i)) (found : Except AnnotationError DeclId) :
    Follows (do v (← find found)) lib (do f (← found)) := by
  cases found with
  | error err => rfl
  | ok i => exact hv i

/-- **A request does to a ledger what it does to the library.** -/
theorem run_request (h : Sound lib log) (ht : lib.tree = t) (r : Request) :
    Follows (request t r) lib (r.apply lib) := by
  cases r with
  | edit e => exact Follows.edit h ht e
  | onClass c e =>
    have hfind : c.find lib = c.find (ofTree t) := by
      subst ht
      cases c <;> rfl
    rw [Request.apply, hfind]
    exact Follows.find (fun i => Follows.classEdit h ht i e) _
  | onNamed n name m =>
    have hfind : n.find lib name = n.find (ofTree t) name := by
      subst ht
      cases n <;> rfl
    rw [Request.apply, hfind]
    exact Follows.find (fun i => Follows.edit h ht (m.edit i)) _

/-- After any requests, a ledger is still that of the library. -/
theorem after_eq (t : DeclTree) (rs : List Request) :
    after t rs = ((ofTree t).requests rs).ledger := by
  have hrun : ∀ (rs : List Request) (lib : Library) (log : List (DeclId × DeclId)), Sound lib log →
      lib.tree = t → rs.foldl (fun l r => ((request t r).run.run l).2) lib.ledger =
        (lib.requests rs).ledger := by
    intro rs
    induction rs with
    | nil => exact fun _ _ _ _ => rfl
    | cons r rs ih =>
      intro lib log h ht
      have hstep : ((request t r).run.run lib.ledger).2 = (lib.request r).ledger := by
        rw [run_request h ht r, Library.request]
        cases r.apply lib <;> rfl
      rw [List.foldl_cons, hstep]
      exact ih _ _ (h.requests [r]) (by rw [request_tree, ht])
  exact hrun rs (ofTree t) [] (Sound.ofTree t) rfl

/-- **What is kept about declarations stays consistent, whatever is asked.** After any requests,
refused or not, all views of the moves agree with each other and with the order of the moves, and
whatever was chosen is in the tree. The next request is either refused, and then nothing has
changed, or it changes its subject only. -/
theorem consistent_after_requests (t : DeclTree) (rs : List Request) :
    let lib := (ofTree t).requests rs
    lib.tree = t ∧ after t rs = lib.ledger ∧ Consistent lib ((ofTree t).moveLog rs) ∧
      ∀ r : Request, match r.apply lib with
        | .error e => (request t r).run.run lib.ledger = (.error e, lib.ledger)
        | .ok next => (request t r).run.run lib.ledger = (.ok (), next.ledger) ∧
          ∃ i target?, r.effect? lib = .ok (i, target?) ∧ Changes lib next i target? := by
  intro lib
  have htree : lib.tree = t := requests_tree (ofTree t) rs
  have hsound : Sound lib ((ofTree t).moveLog rs) := (Sound.ofTree t).requests rs
  refine ⟨htree, after_eq t rs, hsound.consistent, fun r => ?_⟩
  have hrun := run_request hsound htree r
  rw [Follows.eq_def] at hrun
  cases hr : r.apply lib with
  | error e =>
    rw [hr] at hrun
    exact hrun
  | ok next =>
    rw [hr] at hrun
    obtain ⟨i, target?, heffect, hchange, -⟩ := hsound.request hr
    exact ⟨hrun, i, target?, heffect, hchange⟩

end Ledger

end RubyBinding
