import RubyBinding.Proofs.Emission
import RubyBinding.Proofs.Runs

/-!
# Which functions with callbacks are refused

A function can be forwarded to unless one of its parameters is a callback that cannot be handed to
Ruby as a block. What stands in the way is said by `Refuses`, of the types as they are declared. The
planner decides it in two places, and the second one looks at the resolved type; that comes to the
same since resolving changes names and nothing else (`Ty.callback?_mapNames`).

`Setting.forward_error_iff` says that nothing else fails, and that a refused function leaves the
session and the definitions that were emitted before as they were.
-/

namespace RubyBinding

open Code (Definition)

/-! ## Callbacks in resolved types -/

namespace Ty

variable (f : String → String)

/-- What a callback is called with is resolved along with it. -/
theorem callback?_mapNames (t : Ty) :
    (t.mapNames f).callback? =
      t.callback?.map fun signature => (signature.1.mapNames f, mapNamesList f signature.2) := by
  fun_induction callback? t with
  | case1 result params isConst => rfl
  | case2 t isConst isRvalue ih => exact ih
  | case3 t hpointer hreference =>
    -- Neither a pointer to a function nor a reference becomes one.
    cases t with
    | pointer pointee isConst =>
      cases pointee with
      | function result params => exact absurd rfl (hpointer result params isConst)
      | _ => rfl
    | reference referent isConst isRvalue => exact absurd rfl (hreference _ isConst isRvalue)
    | _ => rfl

@[simp]
theorem isCallback_mapNames (t : Ty) : (t.mapNames f).isCallback = t.isCallback := by
  simp [isCallback, callback?_mapNames]

theorem isCallback_of_callback? {t : Ty} {signature : Ty × List Ty}
    (h : t.callback? = some signature) : t.isCallback := by
  simp [isCallback, h]

@[simp]
theorem any_isCallback_mapNamesList (ts : List Ty) :
    (mapNamesList f ts).any isCallback = ts.any isCallback := by
  induction ts with
  | nil => rfl
  | cons t ts ih => simp [mapNamesList, ih]

end Ty

/-! ## What stands in the way -/

/-- A parameter that is not one of several is the only one. -/
theorem eq_singleton_of_mem {params : List Param} {p : Param} (hp : p ∈ params)
    (hlength : ¬ 1 < params.length) : params = [p] := by
  have hpos := List.length_pos_of_mem hp
  obtain ⟨only, rfl⟩ := List.length_eq_one_iff.mp (show params.length = 1 by omega)
  rw [List.mem_singleton.mp hp]

/-- What stands in the way of forwarding to a function with certain parameters: a callback beside
other parameters, one that would have to be the receiver, or one that is called with callbacks. -/
inductive Refuses (receiver : Receiver) : List Param → CallbackFault → Prop
  | notAlone {params : List Param} {p : Param} (hp : p ∈ params) (hcallback : p.ty.isCallback)
      (hlength : 1 < params.length) : Refuses receiver params .notAlone
  | onInstance {p : Param} {cpp : String} (hreceiver : receiver = .argument cpp)
      (hcallback : p.ty.isCallback) : Refuses receiver [p] .onInstance
  | nested {p : Param} {result q : Ty} {taken : List Ty}
      (hreceiver : ∀ cpp, receiver ≠ .argument cpp)
      (hcallback : p.ty.callback? = some (result, taken)) (hq : q ∈ taken)
      (hnested : q.isCallback) : Refuses receiver [p] .nested

namespace Refuses

variable {receiver : Receiver} {params : List Param} {fault fault' : CallbackFault}

/-- One thing stands in the way at most. -/
theorem unique (h : Refuses receiver params fault) (h' : Refuses receiver params fault') :
    fault = fault' := by
  cases h with
  | notAlone hp hcallback hlength =>
    cases h' with
    | notAlone => rfl
    | onInstance => simp at hlength
    | nested => simp at hlength
  | onInstance hreceiver hcallback =>
    cases h' with
    | notAlone _ _ hlength => simp at hlength
    | onInstance => rfl
    | nested hother => exact absurd hreceiver (hother _)
  | nested hother hcallback hq hnested =>
    cases h' with
    | notAlone _ _ hlength => simp at hlength
    | onInstance hreceiver => exact absurd hreceiver (hother _)
    | nested => rfl

/-- What is declared a callback is resolved to one. -/
theorem ne_unresolved (h : Refuses receiver params fault) : fault ≠ .unresolved := by
  rintro rfl
  cases h

/-- Whether something stands in the way, said of each callback on its own. -/
theorem exists_iff : (∃ fault, Refuses receiver params fault) ↔
    ∃ p ∈ params, p.ty.isCallback ∧ (1 < params.length ∨ (∃ cpp, receiver = .argument cpp) ∨
      ∃ result taken, p.ty.callback? = some (result, taken) ∧ ∃ q ∈ taken, q.isCallback) := by
  constructor
  · rintro ⟨fault, h⟩
    cases h with
    | notAlone hp hcallback hlength => exact ⟨_, hp, hcallback, .inl hlength⟩
    | onInstance hreceiver hcallback =>
      exact ⟨_, List.mem_singleton_self _, hcallback, .inr (.inl ⟨_, hreceiver⟩)⟩
    | nested hreceiver hcallback hq hnested =>
      exact ⟨_, List.mem_singleton_self _, Ty.isCallback_of_callback? hcallback,
        .inr (.inr ⟨_, _, hcallback, _, hq, hnested⟩)⟩
  · rintro ⟨p, hp, hcallback, hwhy⟩
    by_cases hlength : 1 < params.length
    · exact ⟨_, .notAlone hp hcallback hlength⟩
    obtain rfl := eq_singleton_of_mem hp hlength
    by_cases hargument : ∃ cpp, receiver = .argument cpp
    · obtain ⟨cpp, hreceiver⟩ := hargument
      exact ⟨_, .onInstance hreceiver hcallback⟩
    · have hreceiver : ∀ cpp, receiver ≠ .argument cpp := fun cpp h => hargument ⟨cpp, h⟩
      obtain ⟨result, taken, hsome, q, hq, hnested⟩ :=
        (hwhy.resolve_left hlength).resolve_left hargument
      exact ⟨_, .nested hreceiver hsome hq hnested⟩

end Refuses

/-! ## What the planner decides -/

namespace Setting

variable {g : Setting} {i : DeclId} {receiver : Receiver}

/-- A resolved callback is one still, and is refused only if it is called with callbacks. -/
theorem callbackSignature_eq {t result : Ty} {taken : List Ty}
    (h : t.callback? = some (result, taken)) :
    let f := g.library.resolveName (g.library.tree.scopeOf i)
    g.callbackSignature i t = if taken.any Ty.isCallback then .error .nested
      else .ok (result.mapNames f, Ty.mapNamesList f taken) := by
  simp [callbackSignature, Library.resolve, Ty.callback?_mapNames, h]

theorem forwarder_of_no_callback
    (h : ∀ p ∈ (g.library.tree.get i).kind.params, ¬ p.ty.isCallback) :
    g.forwarder i receiver = liftM (g.forwardPlain i receiver) := by
  have hnone : (g.library.tree.get i).kind.params.find? (fun p => p.ty.isCallback) = none :=
    List.find?_eq_none.mpr h
  have hfault : callbackFault? receiver (g.library.tree.get i).kind.params = none := by
    simp [callbackFault?, List.any_eq_false.mpr h]
  simp only [forwarder, hfault, hnone]

/-- A function whose only parameter is a callback, where no argument is the receiver. -/
theorem forwarder_of_callback {p : Param} {result : Ty} {taken : List Ty}
    (hparams : (g.library.tree.get i).kind.params = [p])
    (hreceiver : ∀ cpp, receiver ≠ .argument cpp)
    (hcallback : p.ty.callback? = some (result, taken)) :
    g.forwarder i receiver =
      if taken.any Ty.isCallback then
        throw (.unsupportedCallback (g.library.tree.qualifiedName i) .nested)
      else
        let f := g.library.resolveName (g.library.tree.scopeOf i)
        liftM (g.forwardCallback i receiver (result.mapNames f, Ty.mapNamesList f taken)) := by
  have hsome := Ty.isCallback_of_callback? hcallback
  have hfault : callbackFault? receiver [p] = none := by
    cases receiver with
    | argument cpp => exact absurd rfl (hreceiver cpp)
    | _ => simp [callbackFault?, hsome]
  have hfind : [p].find? (fun p => p.ty.isCallback) = some p := by simp [hsome]
  simp only [forwarder, hparams, hfault, hfind, callbackSignature_eq hcallback]
  cases taken.any Ty.isCallback <;> rfl

theorem forwarder_of_refuses {fault : CallbackFault}
    (h : Refuses receiver (g.library.tree.get i).kind.params fault) :
    g.forwarder i receiver =
      throw (.unsupportedCallback (g.library.tree.qualifiedName i) fault) := by
  -- All but callbacks that are called with callbacks is seen before anything is resolved.
  have hearly : ∀ fault, callbackFault? receiver (g.library.tree.get i).kind.params = some fault →
      g.forwarder i receiver =
        throw (.unsupportedCallback (g.library.tree.qualifiedName i) fault) := by
    intro fault hfault
    simp only [forwarder, hfault]
  generalize hparams : (g.library.tree.get i).kind.params = params at h hearly
  cases h with
  | notAlone hp hcallback hlength =>
    apply hearly
    have hany : params.any (fun p => p.ty.isCallback) = true :=
      List.any_eq_true.mpr ⟨_, hp, hcallback⟩
    simp [callbackFault?, hany, hlength]
  | onInstance hreceiver hcallback =>
    apply hearly
    subst hreceiver
    simp [callbackFault?, hcallback]
  | nested hreceiver hcallback hq hnested =>
    rw [forwarder_of_callback hparams hreceiver hcallback,
      if_pos (List.any_eq_true.mpr ⟨_, hq, hnested⟩)]

theorem exists_forwarder_of_not_refuses
    (h : ¬ ∃ fault, Refuses receiver (g.library.tree.get i).kind.params fault) :
    ∃ m : Run Forwarder, g.forwarder i receiver = liftM m := by
  by_cases hany : ∃ p ∈ (g.library.tree.get i).kind.params, p.ty.isCallback
  · obtain ⟨p, hp, hcallback⟩ := hany
    have hlength : ¬ 1 < (g.library.tree.get i).kind.params.length :=
      fun hlength => h ⟨_, .notAlone hp hcallback hlength⟩
    have hparams := eq_singleton_of_mem hp hlength
    rw [hparams] at h
    have hreceiver : ∀ cpp, receiver ≠ .argument cpp :=
      fun cpp hcpp => h ⟨_, .onInstance hcpp hcallback⟩
    obtain ⟨⟨result, taken⟩, hsome⟩ := Option.isSome_iff_exists.mp hcallback
    have hnested : ¬ taken.any Ty.isCallback := by
      intro hnested
      obtain ⟨q, hq, hcalled⟩ := List.any_eq_true.mp hnested
      exact h ⟨_, .nested hreceiver hsome hq hcalled⟩
    rw [forwarder_of_callback hparams hreceiver hsome, if_neg hnested]
    exact ⟨_, rfl⟩
  · refine ⟨_, forwarder_of_no_callback fun p hp hcallback => ?_⟩
    exact hany ⟨p, hp, hcallback⟩

/-- How forwarding fails, and that the session is then as it was. -/
theorem run_forwarder_eq_error_iff (s s' : Session) (e : GenError) :
    (g.forwarder i receiver).run.run s = (.error e, s') ↔
      s' = s ∧ ∃ fault, Refuses receiver (g.library.tree.get i).kind.params fault ∧
        e = .unsupportedCallback (g.library.tree.qualifiedName i) fault := by
  by_cases h : ∃ fault, Refuses receiver (g.library.tree.get i).kind.params fault
  · obtain ⟨fault, hfault⟩ := h
    rw [forwarder_of_refuses hfault]
    constructor
    · intro hrun
      cases hrun
      exact ⟨rfl, fault, hfault, rfl⟩
    · rintro ⟨rfl, other, hother, rfl⟩
      rw [hother.unique hfault]
      rfl
  · obtain ⟨m, hm⟩ := exists_forwarder_of_not_refuses h
    rw [hm]
    constructor
    · intro hrun
      cases hrun
    · rintro ⟨-, fault, hfault, -⟩
      exact absurd ⟨fault, hfault⟩ h

/-! ## The result -/

/-- How emitting a function fails: as forwarding to it does, and with what was there before. -/
theorem run_emitForward_eq_error_iff (ds ds' : List Definition) (s s' : Session) (e : GenError) :
    ((g.emitForward i receiver).run.run ds).run s = ((.error e, ds'), s') ↔
      ds' = ds ∧ (g.forwarder i receiver).run.run s = (.error e, s') := by
  have hrun := g.emitForward_appends i receiver ds s
  rw [hrun]
  obtain ⟨failed | f, after⟩ := (g.forwarder i receiver).run.run s
  · constructor
    · intro heq
      cases heq
      exact ⟨rfl, rfl⟩
    · rintro ⟨rfl, heq⟩
      cases heq
      rfl
  · constructor
    · intro heq
      cases heq
    · rintro ⟨-, heq⟩
      cases heq

/-- **Nothing else is refused, and a refused function leaves no trace.** Emitting a function that
forwards to another one fails exactly if one of the parameters is a callback and there are others, or
the receiver would be the first argument, or the callback is itself called with a callback. The error
then says which of these stands in the way, and never that a callback could not be resolved; the
definitions that were there, all names that were handed out and all conversions that were noted are
as they were before. -/
theorem forward_error_iff (g : Setting) (i : DeclId) (receiver : Receiver) (ds : List Definition)
    (s : Session) :
    let params := (g.library.tree.get i).kind.params
    ((∃ e ds' s', ((g.emitForward i receiver).run.run ds).run s = ((.error e, ds'), s')) ↔
      ∃ p ∈ params, p.ty.isCallback ∧ (1 < params.length ∨ (∃ cpp, receiver = .argument cpp) ∨
        ∃ result taken, p.ty.callback? = some (result, taken) ∧ ∃ q ∈ taken, q.isCallback)) ∧
    ∀ e ds' s', ((g.emitForward i receiver).run.run ds).run s = ((.error e, ds'), s') ↔
      ds' = ds ∧ s' = s ∧ ∃ fault, Refuses receiver params fault ∧ fault ≠ .unresolved ∧
        e = .unsupportedCallback (g.library.tree.qualifiedName i) fault := by
  refine ⟨Iff.trans ?_ Refuses.exists_iff, fun e ds' s' => ?_⟩
  · constructor
    · rintro ⟨e, ds', s', hrun⟩
      obtain ⟨-, hforwarder⟩ := (run_emitForward_eq_error_iff ds ds' s s' e).mp hrun
      obtain ⟨-, fault, hfault, -⟩ := (run_forwarder_eq_error_iff s s' e).mp hforwarder
      exact ⟨fault, hfault⟩
    · rintro ⟨fault, hfault⟩
      have hforwarder := (run_forwarder_eq_error_iff s s _).mpr ⟨rfl, fault, hfault, rfl⟩
      exact ⟨_, ds, s, (run_emitForward_eq_error_iff ds ds s s _).mpr ⟨rfl, hforwarder⟩⟩
  · rw [run_emitForward_eq_error_iff, run_forwarder_eq_error_iff]
    constructor
    · rintro ⟨hds, hs, fault, hfault, he⟩
      exact ⟨hds, hs, fault, hfault, hfault.ne_unresolved, he⟩
    · rintro ⟨hds, hs, fault, hfault, -, he⟩
      exact ⟨hds, hs, fault, hfault, he⟩

end Setting

end RubyBinding
