import Mathlib.Data.List.Forall2
import RubyBinding.Proofs.Runs

/-!
# Reasoning about two runs side by side

To say what a change to a library changes in the code for it, two runs are followed step by step.
`Gen.Agree R m m'` says that two steps, begun in the same session, end in the same session, and that
they either fail alike or yield what `R` relates; `Run.Agree` is the same for steps that cannot fail,
and `Agreeing` for what is computed without a session. As for a single run, there is one rule for each
way in which steps are put together.
-/

namespace RubyBinding

variable {ε α β γ δ : Type}

/-! ## Results -/

/-- Two results that are related, or the same error twice. -/
inductive Agreeing (R : α → β → Prop) : Except ε α → Except ε β → Prop
  | ok {a : α} {b : β} (h : R a b) : Agreeing R (.ok a) (.ok b)
  | error (e : ε) : Agreeing R (.error e) (.error e)

namespace Agreeing

variable {R Q : α → β → Prop}

/-- A result agrees with itself. -/
theorem refl {R : α → α → Prop} (hR : ∀ a, R a a) (x : Except ε α) : Agreeing R x x := by
  cases x with
  | ok a => exact .ok (hR a)
  | error e => exact .error e

theorem bind {x : Except ε α} {y : Except ε β} {f : α → Except ε γ} {f' : β → Except ε δ}
    {S : γ → δ → Prop} (h : Agreeing R x y) (hf : ∀ a b, R a b → Agreeing S (f a) (f' b)) :
    Agreeing S (x >>= f) (y >>= f') := by
  cases h with
  | ok h => exact hf _ _ h
  | error e => exact .error e

/-- The same first step in both. -/
theorem bind_same (m : Except ε α) {f : α → Except ε γ} {f' : α → Except ε δ} {S : γ → δ → Prop}
    (hf : ∀ a, Agreeing S (f a) (f' a)) : Agreeing S (m >>= f) (m >>= f') := by
  refine bind (refl (fun _ => rfl) m) ?_
  rintro a _ rfl
  exact hf a

theorem mono {x : Except ε α} {y : Except ε β} (h : Agreeing Q x y) (hQ : ∀ a b, Q a b → R a b) :
    Agreeing R x y := by
  cases h with
  | ok h => exact .ok (hQ _ _ h)
  | error e => exact .error e

/-- One result for each of two entries. -/
theorem mapM {f : α → Except ε γ} {f' : β → Except ε δ} {S : γ → δ → Prop} {l : List α}
    {l' : List β} (h : List.Forall₂ R l l') (hf : ∀ a b, R a b → Agreeing S (f a) (f' b)) :
    Agreeing (List.Forall₂ S) (l.mapM f) (l'.mapM f') := by
  induction h with
  | nil => exact .ok .nil
  | cons hab _ ih =>
    rw [List.mapM_cons, List.mapM_cons]
    refine bind (hf _ _ hab) fun c d hcd => ?_
    exact bind ih fun cs ds hcds => .ok (.cons hcd hcds)

end Agreeing

/-! ## Steps that cannot fail -/

/-- Begun in the same session, two steps yield what `R` relates and end in the same session. -/
def Run.Agree (R : α → β → Prop) (m : Run α) (m' : Run β) : Prop :=
  ∀ s, R (m.run s).1 (m'.run s).1 ∧ (m.run s).2 = (m'.run s).2

namespace Run.Agree

variable {R Q : α → β → Prop}

theorem pure {a : α} {b : β} (h : R a b) : Run.Agree R (Pure.pure a) (Pure.pure b) :=
  fun _ => ⟨h, rfl⟩

/-- A step agrees with itself. -/
theorem refl {R : α → α → Prop} (hR : ∀ a, R a a) (m : Run α) : Run.Agree R m m :=
  fun _ => ⟨hR _, rfl⟩

theorem bind {m : Run α} {m' : Run β} {f : α → Run γ} {f' : β → Run δ} {S : γ → δ → Prop}
    (hm : Run.Agree R m m') (hf : ∀ a b, R a b → Run.Agree S (f a) (f' b)) :
    Run.Agree S (m >>= f) (m' >>= f') := by
  intro s
  obtain ⟨hab, hs⟩ := hm s
  have hfirst : (m >>= f).run s = (f (m.run s).1).run (m.run s).2 := rfl
  have hsecond : (m' >>= f').run s = (f' (m'.run s).1).run (m'.run s).2 := rfl
  rw [hfirst, hsecond, ← hs]
  exact hf _ _ hab (m.run s).2

/-- The same first step in both. -/
theorem bind_same (m : Run α) {f : α → Run γ} {f' : α → Run δ} {S : γ → δ → Prop}
    (hf : ∀ a, Run.Agree S (f a) (f' a)) : Run.Agree S (m >>= f) (m >>= f') := by
  refine bind (refl (fun _ => rfl) m) ?_
  rintro a _ rfl
  exact hf a

theorem mono {m : Run α} {m' : Run β} (hm : Run.Agree Q m m') (h : ∀ a b, Q a b → R a b) :
    Run.Agree R m m' :=
  fun s => ⟨h _ _ (hm s).1, (hm s).2⟩

end Run.Agree

/-! ## Steps that can fail -/

/-- Begun in the same session, two steps yield what `R` relates or fail alike, and end in the same
session. -/
def Gen.Agree (R : α → β → Prop) (m : Gen α) (m' : Gen β) : Prop :=
  Run.Agree (Agreeing R) m.run m'.run

namespace Gen.Agree

variable {R Q : α → β → Prop}

theorem pure {a : α} {b : β} (h : R a b) : Gen.Agree R (Pure.pure a) (Pure.pure b) :=
  fun _ => ⟨.ok h, rfl⟩

theorem throw (e : GenError) :
    Gen.Agree R (MonadExcept.throw e : Gen α) (MonadExcept.throw e : Gen β) :=
  fun _ => ⟨.error e, rfl⟩

/-- A step agrees with itself. -/
theorem refl {R : α → α → Prop} (hR : ∀ a, R a a) (m : Gen α) : Gen.Agree R m m :=
  Run.Agree.refl (.refl hR) m.run

theorem bind {m : Gen α} {m' : Gen β} {f : α → Gen γ} {f' : β → Gen δ} {S : γ → δ → Prop}
    (hm : Gen.Agree R m m') (hf : ∀ a b, R a b → Gen.Agree S (f a) (f' b)) :
    Gen.Agree S (m >>= f) (m' >>= f') := by
  rw [Gen.Agree, ExceptT.run_bind, ExceptT.run_bind]
  refine Run.Agree.bind hm fun x y hxy => ?_
  cases hxy with
  | ok hab => exact hf _ _ hab
  | error e => exact Run.Agree.pure (.error e)

/-- The same first step in both. -/
theorem bind_same (m : Gen α) {f : α → Gen γ} {f' : α → Gen δ} {S : γ → δ → Prop}
    (hf : ∀ a, Gen.Agree S (f a) (f' a)) : Gen.Agree S (m >>= f) (m >>= f') := by
  refine bind (refl (fun _ => rfl) m) ?_
  rintro a _ rfl
  exact hf a

theorem mono {m : Gen α} {m' : Gen β} (hm : Gen.Agree Q m m') (h : ∀ a b, Q a b → R a b) :
    Gen.Agree R m m' :=
  Run.Agree.mono hm fun _ _ hxy => hxy.mono h

theorem lift {m : Run α} {m' : Run β} (hm : Run.Agree R m m') :
    Gen.Agree R (liftM m) (liftM m') :=
  fun s => ⟨.ok (hm s).1, (hm s).2⟩

theorem map {m : Gen α} {m' : Gen β} {f : α → γ} {f' : β → δ} {S : γ → δ → Prop}
    (hm : Gen.Agree R m m') (hf : ∀ a b, R a b → S (f a) (f' b)) :
    Gen.Agree S (f <$> m) (f' <$> m') := by
  rw [map_eq_pure_bind, map_eq_pure_bind]
  exact bind hm fun a b hab => pure (hf a b hab)

/-- One step for each of two entries that are related. -/
theorem mapM {f : α → Gen γ} {f' : β → Gen δ} {S : γ → δ → Prop} {l : List α} {l' : List β}
    (h : List.Forall₂ R l l') (hf : ∀ a b, R a b → Gen.Agree S (f a) (f' b)) :
    Gen.Agree (List.Forall₂ S) (l.mapM f) (l'.mapM f') := by
  induction h with
  | nil => exact pure .nil
  | cons hab _ ih =>
    rw [List.mapM_cons, List.mapM_cons]
    refine bind (hf _ _ hab) fun c d hcd => ?_
    exact bind ih fun cs ds hcds => pure (.cons hcd hcds)

/-- One step in each run for the same entries. -/
theorem mapM_same {f : α → Gen γ} {f' : α → Gen δ} {S : γ → δ → Prop} (l : List α)
    (hf : ∀ a ∈ l, Gen.Agree S (f a) (f' a)) :
    Gen.Agree (List.Forall₂ S) (l.mapM f) (l.mapM f') := by
  have hsame : List.Forall₂ (fun a b => a = b ∧ a ∈ l) l l :=
    List.forall₂_same.mpr fun a ha => ⟨rfl, ha⟩
  refine mapM hsame ?_
  rintro a _ ⟨rfl, ha⟩
  exact hf a ha

end Gen.Agree

end RubyBinding
