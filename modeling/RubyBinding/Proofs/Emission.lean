import RubyBinding.Binding.Forward

/-!
# Definitions that are appended

A function that forwards is emitted behind the definitions that are there already. `Emit.Appends m f`
says what this comes to: whatever definitions it is given, `m` leaves them as they are and puts the
definitions that `f` yields behind them; where `f` fails, `m` does so in the same way, and then it has
put nothing there. So a planner may have each function emitted by itself and collect the definitions
afterwards (`Setting.emitForward_appends`).
-/

namespace RubyBinding

open Code (Definition)

variable {m : Emit String} {f : Gen Forwarder}

namespace Emit

/-- Whatever is there, a step appends what another one yields, or fails and appends nothing. -/
def Appends (m : Emit String) (f : Gen Forwarder) : Prop :=
  ∀ (ds : List Definition) (s : Session), (m.run.run ds).run s = match f.run.run s with
    | (.ok x, s') => ((.ok x.name, ds ++ x.definitions), s')
    | (.error e, s') => ((.error e, ds), s')

theorem run_forM_emit (new ds : List Definition) :
    (new.forM emit).run.run ds = (pure (.ok (), ds ++ new) : Run _) := by
  induction new generalizing ds with
  | nil =>
    rw [List.append_nil]
    rfl
  | cons d new ih =>
    have hrest := ih (ds ++ [d])
    rw [List.append_assoc] at hrest
    exact hrest

theorem run_emitAll (x : Forwarder) (ds : List Definition) :
    (emitAll x).run.run ds = (pure (.ok x.name, ds ++ x.definitions) : Run _) := by
  have hrun : (emitAll x).run.run ds = (do
      let r ← (x.definitions.forM emit).run.run ds
      return (r.1.map fun _ => x.name, r.2) : Run _) := by
    show (do
      let r ← (x.definitions.forM emit).run.run ds
      (ExceptT.bindCont (fun _ => (pure x.name : Emit String)) r.1).run r.2 : Run _) = _
    refine bind_congr fun r => ?_
    obtain ⟨e | u, after⟩ := r <;> rfl
  rw [hrun, run_forM_emit]
  rfl

theorem Appends.throw (e : GenError) :
    Appends (MonadExcept.throw e) (MonadExcept.throw e) :=
  fun _ _ => rfl

/-- What is found out first and then emitted. -/
theorem Appends.emitAll (m : Run Forwarder) :
    Appends (do RubyBinding.emitAll (← m)) (liftM m) := by
  intro ds s
  show (((RubyBinding.emitAll (m.run s).1).run.run ds).run (m.run s).2) = _
  rw [run_emitAll]
  rfl

/-- Where nothing was there before, what is appended is all that there is. -/
theorem Appends.collected_eq (h : Appends m f) : m.collected = f := by
  funext s
  have hrun := h [] s
  show (((m.run.run []).run s).1.1.map fun name => ⟨name, ((m.run.run []).run s).1.2⟩,
    ((m.run.run []).run s).2) = f.run.run s
  rw [hrun]
  obtain ⟨e | x, s'⟩ := f.run.run s <;> rfl

end Emit

namespace Setting

/-- A function that forwards to a function or method, made in one step and not emitted. -/
def forwarder (g : Setting) (i : DeclId) (receiver : Receiver) : Gen Forwarder :=
  let params := (g.library.tree.get i).kind.params
  let refuse := fun fault => GenError.unsupportedCallback (g.library.tree.qualifiedName i) fault
  match callbackFault? receiver params, params.find? fun p => p.ty.isCallback with
  | some fault, _ => throw (refuse fault)
  | none, none => g.forwardPlain i receiver
  | none, some callback =>
    match g.callbackSignature i callback.ty with
    | .error fault => throw (refuse fault)
    | .ok signature => g.forwardCallback i receiver signature

/-- **What was there before has no part in what is emitted**, and it stays where it is. -/
theorem emitForward_appends (g : Setting) (i : DeclId) (receiver : Receiver) :
    (g.emitForward i receiver).Appends (g.forwarder i receiver) := by
  unfold emitForward forwarder
  dsimp only
  cases callbackFault? receiver (g.library.tree.get i).kind.params with
  | some fault => exact .throw _
  | none =>
    cases (g.library.tree.get i).kind.params.find? fun p => p.ty.isCallback with
    | none => exact .emitAll _
    | some callback =>
      dsimp only
      cases g.callbackSignature i callback.ty with
      | error fault => exact .throw _
      | ok signature => exact .emitAll _

theorem forward_eq (g : Setting) : g.forward = g.forwarder := by
  funext i receiver
  exact (g.emitForward_appends i receiver).collected_eq

end Setting

end RubyBinding
