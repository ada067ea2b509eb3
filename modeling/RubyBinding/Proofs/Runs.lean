import Mathlib.Data.List.Forall2
import RubyBinding.Session

/-!
# Reasoning about steps of a run

A step of a run either yields something or fails, and the session goes on in both cases. For a
property `I` of sessions that every step keeps, `Gen.Yields I m Q E` says that the step `m`, begun
in a session with `I`, yields only what satisfies `Q` and fails only as `E` allows; `Run.Yields` is
the same for steps that cannot fail. There is one rule for each way in which steps are put together,
so that a property of a plan is proved along the program that makes it.
-/

namespace RubyBinding

variable {α β : Type} {I : Session → Prop} {E : GenError → Prop}

/-! ## Steps that cannot fail -/

/-- Begun in a session with `I`, a step ends in one, and yields what satisfies `Q`. -/
def Run.Yields (I : Session → Prop) (m : Run α) (Q : α → Prop) : Prop :=
  ∀ s, I s → Q (m.run s).1 ∧ I (m.run s).2

namespace Run.Yields

variable {Q P : α → Prop}

theorem pure {a : α} (h : Q a) : Run.Yields I (Pure.pure a) Q := by
  intro s hs
  exact ⟨h, hs⟩

theorem bind {m : Run α} {f : α → Run β} {R : β → Prop} (hm : Run.Yields I m Q)
    (hf : ∀ a, Q a → Run.Yields I (f a) R) : Run.Yields I (m >>= f) R := by
  intro s hs
  obtain ⟨ha, hs'⟩ := hm s hs
  exact hf _ ha _ hs'

theorem mono {m : Run α} (hm : Run.Yields I m P) (h : ∀ a, P a → Q a) : Run.Yields I m Q := by
  intro s hs
  obtain ⟨ha, hs'⟩ := hm s hs
  exact ⟨h _ ha, hs'⟩

/-- One step for each entry of a list yields one thing for each entry. -/
theorem mapM {f : α → Run β} {R : α → β → Prop} (l : List α)
    (h : ∀ a ∈ l, Run.Yields I (f a) (R a)) : Run.Yields I (l.mapM f) (List.Forall₂ R l) := by
  induction l with
  | nil => exact pure .nil
  | cons a l ih =>
    rw [List.mapM_cons]
    refine bind (h a List.mem_cons_self) fun b hb => ?_
    refine bind (ih fun c hc => h c (List.mem_cons_of_mem _ hc)) fun bs hbs => ?_
    exact pure (.cons hb hbs)

/-- If no entry matters more than another, all that is yielded satisfies one property. -/
theorem mapM_all {f : α → Run β} {R : β → Prop} (l : List α)
    (h : ∀ a ∈ l, Run.Yields I (f a) R) : Run.Yields I (l.mapM f) fun bs => ∀ b ∈ bs, R b := by
  refine mono (mapM (R := fun _ b => R b) l h) fun bs hbs => ?_
  clear h
  induction hbs with
  | nil => exact fun _ hb => nomatch hb
  | cons hb _ ih => exact List.forall_mem_cons.mpr ⟨hb, ih⟩

end Run.Yields

/-! ## Steps that can fail -/

/-- Begun in a session with `I`, a step ends in one. It yields what satisfies `Q`, or fails as `E`
allows. -/
def Gen.Yields (I : Session → Prop) (m : Gen α) (Q : α → Prop) (E : GenError → Prop) : Prop :=
  ∀ s, I s →
    match m.run.run s with
    | (.ok a, s') => Q a ∧ I s'
    | (.error e, s') => E e ∧ I s'

namespace Gen.Yields

variable {Q P : α → Prop}

theorem pure {a : α} (h : Q a) : Gen.Yields I (Pure.pure a) Q E := by
  intro s hs
  exact ⟨h, hs⟩

theorem throw {e : GenError} (h : E e) : Gen.Yields I (MonadExcept.throw e : Gen α) Q E := by
  intro s hs
  exact ⟨h, hs⟩

theorem run_bind (m : Gen α) (f : α → Gen β) (s : Session) :
    (m >>= f).run.run s =
      match m.run.run s with
      | (.ok a, s') => (f a).run.run s'
      | (.error e, s') => (.error e, s') := by
  rw [ExceptT.run_bind, StateT.run_bind]
  rcases m.run.run s with ⟨e | a, s'⟩ <;> rfl

theorem bind {m : Gen α} {f : α → Gen β} {R : β → Prop} (hm : Gen.Yields I m Q E)
    (hf : ∀ a, Q a → Gen.Yields I (f a) R E) : Gen.Yields I (m >>= f) R E := by
  intro s hs
  have h := hm s hs
  rw [run_bind]
  rcases hres : m.run.run s with ⟨e | a, s'⟩ <;> rw [hres] at h
  · exact h
  · exact hf a h.1 s' h.2

theorem mono {m : Gen α} {F : GenError → Prop} (hm : Gen.Yields I m P F) (h : ∀ a, P a → Q a)
    (he : ∀ e, F e → E e) : Gen.Yields I m Q E := by
  intro s hs
  have hrun := hm s hs
  rcases hres : m.run.run s with ⟨e | a, s'⟩ <;> rw [hres] at hrun
  · exact ⟨he e hrun.1, hrun.2⟩
  · exact ⟨h a hrun.1, hrun.2⟩

theorem lift {m : Run α} (hm : Run.Yields I m Q) : Gen.Yields I (liftM m) Q E := hm

theorem except {x : Except GenError α} (hok : ∀ a, x = .ok a → Q a)
    (herror : ∀ e, x = .error e → E e) : Gen.Yields I (liftM x) Q E := by
  intro s hs
  cases x with
  | ok a => exact ⟨hok a rfl, hs⟩
  | error e => exact ⟨herror e rfl, hs⟩

theorem getSession : Gen.Yields I (getThe Session) I E := by
  intro s hs
  exact ⟨hs, hs⟩

theorem map {m : Gen α} {f : α → β} {R : β → Prop} (hm : Gen.Yields I m Q E)
    (hf : ∀ a, Q a → R (f a)) : Gen.Yields I (f <$> m) R E := by
  rw [map_eq_pure_bind]
  exact bind hm fun a ha => pure (hf a ha)

/-- One step for each entry of a list yields one thing for each entry. -/
theorem mapM {f : α → Gen β} {R : α → β → Prop} (l : List α)
    (h : ∀ a ∈ l, Gen.Yields I (f a) (R a) E) : Gen.Yields I (l.mapM f) (List.Forall₂ R l) E := by
  induction l with
  | nil => exact pure .nil
  | cons a l ih =>
    rw [List.mapM_cons]
    refine bind (h a List.mem_cons_self) fun b hb => ?_
    refine bind (ih fun c hc => h c (List.mem_cons_of_mem _ hc)) fun bs hbs => ?_
    exact pure (.cons hb hbs)

/-- If no entry matters more than another, all that is yielded satisfies one property. -/
theorem mapM_all {f : α → Gen β} {R : β → Prop} (l : List α)
    (h : ∀ a ∈ l, Gen.Yields I (f a) R E) :
    Gen.Yields I (l.mapM f) (fun bs => ∀ b ∈ bs, R b) E := by
  refine mono (mapM (R := fun _ b => R b) l h) (fun bs hbs => ?_) fun _ he => he
  clear h
  induction hbs with
  | nil => exact fun _ hb => nomatch hb
  | cons hb _ ih => exact List.forall_mem_cons.mpr ⟨hb, ih⟩

/-- What a run that went well yields. -/
theorem of_run {m : Gen α} (hm : Gen.Yields I m Q E) {s s' : Session} {a : α} (hs : I s)
    (hrun : m.run.run s = (.ok a, s')) : Q a ∧ I s' := by
  have h := hm s hs
  rw [hrun] at h
  exact h

/-- How a run that went wrong fails. -/
theorem of_run_error {m : Gen α} (hm : Gen.Yields I m Q E) {s s' : Session} {e : GenError}
    (hs : I s) (hrun : m.run.run s = (.error e, s')) : E e ∧ I s' := by
  have h := hm s hs
  rw [hrun] at h
  exact h

/-- What a run comes to whose first step is known. -/
theorem result_bind {m : Gen α} {f : α → Gen β} {R : β → Prop} {s s' : Session} {a : α}
    (hrun : m.run.run s = (.ok a, s')) (hf : Gen.Yields I (f a) R E) (hs : I s') :
    (∀ b t, (m >>= f).run.run s = (.ok b, t) → R b) ∧
      ∀ e t, (m >>= f).run.run s = (.error e, t) → E e := by
  have hbind : (m >>= f).run.run s = (f a).run.run s' := by rw [run_bind, hrun]
  rw [hbind]
  exact ⟨fun b t hres => (hf.of_run hs hres).1, fun e t hres => (hf.of_run_error hs hres).1⟩

end Gen.Yields

end RubyBinding
