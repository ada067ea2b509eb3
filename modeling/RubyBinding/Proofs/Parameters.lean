import Mathlib
import RubyBinding.Binding.Class
import RubyBinding.Proofs.Edits
import RubyBinding.Proofs.Identifiers
import RubyBinding.Proofs.Names
import RubyBinding.Proofs.Runs

/-!
# Names of parameters

A generated parameter list has the declared parameters under the names that they are declared with.
One that is declared without a name is numbered by its position, and in front there may be a
receiver, `self`. Nothing tells these names apart from those that are spelled: a list has different
names exactly if no parameter is spelled `self` behind a receiver, and none is spelled as another
one is numbered (`Clear`). `Setting.parameters_distinct_iff` says so of forwarding functions, of the
methods and the constructor of directors, and that each argument that is passed on then denotes the
parameter that it was made for. `not_nodup_parameters_blend` is a function that it fails for.
-/

namespace RubyBinding

open Code (Slot Wrapper Definition Director Override)

/-! ## Names by position -/

section Positions

variable {ps : List (Param × Nat)}

/-- Whether no parameter is spelled as one without a name is numbered, and none like a receiver in
front of them. -/
structure Clear (lead : List Slot) (ps : List (Param × Nat)) : Prop where
  numbers : ∀ e ∈ ps, ∀ f ∈ ps, f.1.name = none → e.1.name ≠ some (f.1.nameAt f.2)
  lead : ∀ e ∈ ps, ∀ slot ∈ lead, e.1.name ≠ some slot.name

theorem nameAt_of_some {p : Param} {name : String} (h : p.name = some name) (k : Nat) :
    p.nameAt k = name := by
  rw [Param.nameAt, h]
  rfl

theorem nameAt_of_none {p : Param} (h : p.name = none) (k : Nat) :
    p.nameAt k = "arg" ++ toString k := by
  rw [Param.nameAt, h]
  rfl

theorem numbered_injective {k l : Nat} (h : "arg" ++ toString k = "arg" ++ toString l) : k = l :=
  Fresh.toString_injective ((String.append_right_inj _).mp h)

/-- No number makes a parameter the receiver. -/
theorem numbered_ne_self (k : Nat) : "arg" ++ toString k ≠ "self" := by
  intro h
  have hlists := congrArg String.toList h
  simp at hlists

/-- Where spelled names differ, a spelled name leads back to its parameter. -/
theorem eq_of_spelled (h : (ps.filterMap fun e => e.1.name).Nodup) {e f : Param × Nat}
    (he : e ∈ ps) (hf : f ∈ ps) {name : String} (hename : e.1.name = some name)
    (hfname : f.1.name = some name) : e = f := by
  by_contra hne
  rw [List.Nodup, List.pairwise_filterMap] at h
  have hsymm : Std.Symm fun e f : Param × Nat =>
      ∀ n, e.1.name = some n → ∀ n', f.1.name = some n' → n ≠ n' :=
    ⟨fun _ _ h n hn n' hn' => (h n' hn' n hn).symm⟩
  exact h.forall he hf hne name hename name hfname rfl

/-- **The names in a list of parameters differ** exactly if none is spelled as another is
numbered. -/
theorem map_nameAt_nodup_iff (hpositions : (ps.map Prod.snd).Nodup)
    (hspelled : (ps.filterMap fun e => e.1.name).Nodup) :
    (ps.map fun e => e.1.nameAt e.2).Nodup ↔
      ∀ e ∈ ps, ∀ f ∈ ps, f.1.name = none → e.1.name ≠ some (f.1.nameAt f.2) := by
  rw [List.nodup_map_iff_inj_on hpositions.of_map]
  constructor
  · intro hinj e he f hf hfname hename
    have hef := hinj e he f hf (nameAt_of_some hename e.2)
    rw [hef, hfname] at hename
    cases hename
  · intro hclear e he f hf hnames
    cases hename : e.1.name with
    | some name =>
      rw [nameAt_of_some hename] at hnames
      cases hfname : f.1.name with
      | some name' =>
        rw [nameAt_of_some hfname] at hnames
        exact eq_of_spelled hspelled he hf hename (hnames ▸ hfname)
      | none => exact absurd (hename.trans (congrArg some hnames)) (hclear e he f hf hfname)
    | none =>
      cases hfname : f.1.name with
      | some name' =>
        rw [nameAt_of_some hfname] at hnames
        exact absurd (hfname.trans (congrArg some hnames.symm)) (hclear f hf e he hename)
      | none =>
        rw [nameAt_of_none hename, nameAt_of_none hfname] at hnames
        exact List.inj_on_of_nodup_map hpositions he hf (numbered_injective hnames)

/-- Behind a receiver, none may be spelled like it either. -/
theorem self_nodup_iff (hpositions : (ps.map Prod.snd).Nodup)
    (hspelled : (ps.filterMap fun e => e.1.name).Nodup) {receiver : Slot}
    (hreceiver : receiver.name = "self") :
    (receiver.name :: ps.map fun e => e.1.nameAt e.2).Nodup ↔ Clear [receiver] ps := by
  rw [List.nodup_cons, map_nameAt_nodup_iff hpositions hspelled]
  constructor
  · rintro ⟨hself, hnumbers⟩
    refine ⟨hnumbers, fun e he slot hslot hname => hself ?_⟩
    rw [List.mem_singleton.mp hslot] at hname
    exact List.mem_map.mpr ⟨e, he, nameAt_of_some hname e.2⟩
  · rintro ⟨hnumbers, hlead⟩
    refine ⟨fun hmem => ?_, hnumbers⟩
    obtain ⟨e, he, hname⟩ := List.mem_map.mp hmem
    cases hspelt : e.1.name with
    | some name =>
      rw [nameAt_of_some hspelt] at hname
      exact hlead e he receiver (List.mem_singleton_self _) (hname ▸ hspelt)
    | none =>
      rw [nameAt_of_none hspelt, hreceiver] at hname
      exact numbered_ne_self e.2 hname

end Positions

/-! ## Parameter lists -/

/-- A declared parameter, written in a scope, as generated code takes it. -/
def Library.slotIn (lib : Library) (scope : DeclId) (e : Param × Nat) : Slot :=
  ⟨lib.resolve scope e.1.ty, e.1.nameAt e.2⟩

/-- A parameter list takes declared parameters behind what leads it. Its names differ exactly if
nothing clashes, and then each name in it denotes one parameter. -/
structure TakesApart (lib : Library) (scope : DeclId) (lead : List Slot) (ps : List (Param × Nat))
    (slots : List Slot) : Prop where
  slots_eq : slots = lead ++ ps.map (lib.slotIn scope)
  nodup_iff : (slots.map Slot.name).Nodup ↔ Clear lead ps
  denotes : Clear lead ps →
    ∀ slot ∈ slots, (slots.filter fun other => other.name == slot.name) = [slot]

theorem filter_name_eq_singleton {slots : List Slot} (h : (slots.map Slot.name).Nodup) {slot : Slot}
    (hslot : slot ∈ slots) : (slots.filter fun other => other.name == slot.name) = [slot] := by
  obtain ⟨before, after, rfl⟩ := List.append_of_mem hslot
  rw [List.map_append, List.map_cons, List.nodup_middle, List.nodup_cons, ← List.map_append] at h
  have hnone : ∀ others ⊆ before ++ after,
      (others.filter fun other => other.name == slot.name) = [] := by
    intro others hsub
    rw [List.filter_eq_nil_iff]
    intro other hother heq
    exact h.1 (List.mem_map.mpr ⟨other, hsub hother, eq_of_beq heq⟩)
  simp [hnone before (by simp), hnone after (by simp)]

namespace TakesApart

variable {ps : List (Param × Nat)} (lib : Library) (scope : DeclId)
  (hpositions : (ps.map Prod.snd).Nodup) (hspelled : (ps.filterMap fun e => e.1.name).Nodup)

include hpositions hspelled

theorem unled : TakesApart lib scope [] ps (ps.map (lib.slotIn scope)) := by
  have hiff : ((ps.map (lib.slotIn scope)).map Slot.name).Nodup ↔ Clear [] ps := by
    rw [List.map_map]
    apply (map_nameAt_nodup_iff hpositions hspelled).trans
    exact ⟨fun h => ⟨h, by simp⟩, Clear.numbers⟩
  exact ⟨rfl, hiff, fun hclear _ hslot => filter_name_eq_singleton (hiff.mpr hclear) hslot⟩

theorem led {receiver : Slot} (hreceiver : receiver.name = "self") :
    TakesApart lib scope [receiver] ps (receiver :: ps.map (lib.slotIn scope)) := by
  have hiff : ((receiver :: ps.map (lib.slotIn scope)).map Slot.name).Nodup ↔
      Clear [receiver] ps := by
    rw [List.map_cons, List.map_map]
    exact self_nodup_iff hpositions hspelled hreceiver
  exact ⟨rfl, hiff, fun hclear _ hslot => filter_name_eq_singleton (hiff.mpr hclear) hslot⟩

end TakesApart

section Declared

variable {params : List Param}

/-- What is left of declared parameters at their positions has different positions. -/
theorem positions_nodup {ps : List (Param × Nat)} (h : ps.Sublist params.zipIdx) :
    (ps.map Prod.snd).Nodup :=
  (h.map Prod.snd).nodup (List.nodup_zipIdx_map_snd params)

/-- And it has different spelled names, if all have. -/
theorem spelled_nodup {ps : List (Param × Nat)} (h : ps.Sublist params.zipIdx)
    (hspelled : (params.filterMap Param.name).Nodup) : (ps.filterMap fun e => e.1.name).Nodup := by
  have hall : (params.zipIdx.filterMap fun e => e.1.name) = params.filterMap Param.name := by
    show params.zipIdx.filterMap (Param.name ∘ Prod.fst) = _
    rw [← List.filterMap_map, List.zipIdx_map_fst]
  exact (h.filterMap _).nodup (hall ▸ hspelled)

theorem remaining_sublist (receiver : Receiver) (params : List Param) :
    (receiver.remaining params).Sublist params.zipIdx := by
  cases receiver with
  | argument cpp => exact List.drop_sublist 1 _
  | ignored => exact List.Sublist.refl _
  | object cpp => exact List.Sublist.refl _

end Declared

/-! ## Forwarding functions -/

/-- What a body passes on to the function that it calls. -/
def Code.Body.passed? : Code.Body → Option (List String)
  | forward _ arguments => some arguments
  | _ => none

namespace Setting

variable {g : Setting} {i : DeclId} {receiver : Receiver}

theorem name_slot (receiver : Receiver) : receiver.slot.name = "self" := by
  cases receiver <;> rfl

theorem slots_yields_slotIn (scope : DeclId) (ps : List (Param × Nat)) :
    Run.Yields (fun _ => True) (g.slots scope ps) fun slots =>
      slots = ps.map (g.library.slotIn scope) := by
  refine .mono (.mapM (R := fun e slot => slot = g.library.slotIn scope e) ps ?_) ?_
  · intro e _
    exact .bind (Q := fun ty => ty = g.library.resolve scope e.1.ty) (fun _ _ => ⟨rfl, trivial⟩)
      fun ty hty => .pure (by rw [hty]; rfl)
  · intro slots hslots
    induction hslots with
    | nil => rfl
    | cons hslot _ ih => rw [hslot, ih, List.map_cons]

/-- A function that forwards passes on what is left of its parameters, after the receiver if that is
an argument. -/
theorem forwardPlain_takes :
    Run.Yields (fun _ => True) (g.forwardPlain i receiver) fun f =>
      ∃ w, f.definitions = [.wrapper w] ∧
        w.slots = receiver.slot :: (receiver.remaining (g.library.tree.get i).kind.params).map
          (g.library.slotIn (g.library.tree.scopeOf i)) ∧
        w.body.passed? = some (receiver.arguments (g.library.tree.get i).kind.params ++
          (receiver.remaining (g.library.tree.get i).kind.params).map fun e => e.1.nameAt e.2) := by
  refine .bind (Q := fun _ => True) (fun _ _ => ⟨trivial, trivial⟩) fun result _ => ?_
  refine .bind (Q := fun _ => True) (fun _ _ => ⟨trivial, trivial⟩) fun name _ => ?_
  refine .bind (slots_yields_slotIn _ _) fun slots hslots => .pure ⟨_, rfl, ?_, ?_⟩
  · rw [hslots]
  · rw [hslots, List.map_map]
    rfl

/-- The functions for a callback have numbered parameters, or a receiver only. -/
theorem forwardCallback_takes (signature : Ty × List Ty) :
    Run.Yields (fun _ => True) (g.forwardCallback i receiver signature) fun f =>
      ∀ w, .wrapper w ∈ f.definitions → w.body.passed? = none ∧ (w.slots.map Slot.name).Nodup := by
  have hyielded : ((signature.2.zipIdx.map fun e =>
      (⟨e.1, "arg" ++ toString e.2⟩ : Slot)).map Slot.name).Nodup := by
    have hnumbers := (List.nodup_zipIdx_map_snd signature.2).map
      (f := fun k => "arg" ++ toString k) fun _ _ h => numbered_injective h
    rwa [List.map_map] at hnumbers ⊢
  refine .bind (Q := fun _ => True) (fun _ _ => ⟨trivial, trivial⟩) fun name _ => .pure ?_
  intro w hw
  simp only [List.mem_cons, reduceCtorEq, Definition.wrapper.injEq, List.not_mem_nil, or_false,
    false_or] at hw
  rcases hw with rfl | rfl
  · exact ⟨rfl, hyielded⟩
  · cases receiver <;> exact ⟨rfl, List.nodup_singleton _⟩

/-- The parameter list of a function that was made to forward to a declaration. What is passed on
are the declared parameters that are left, after the receiver if that is an argument. -/
def ForwardsApart (g : Setting) (i : DeclId) (receiver : Receiver) (w : Wrapper) : Prop :=
  let params := (g.library.tree.get i).kind.params
  match w.body.passed? with
  | none => (w.slots.map Slot.name).Nodup
  | some arguments =>
    arguments =
      receiver.arguments params ++ (receiver.remaining params).map (fun e => e.1.nameAt e.2) ∧
    TakesApart g.library (g.library.tree.scopeOf i) [receiver.slot] (receiver.remaining params)
      w.slots

theorem forward_takes (hspelled : ((g.library.tree.get i).kind.params.filterMap Param.name).Nodup) :
    Gen.Yields (fun _ => True) (g.forward i receiver)
      (fun f => ∀ w, .wrapper w ∈ f.definitions → g.ForwardsApart i receiver w) fun _ => True := by
  rw [forward_eq]
  unfold forwarder
  dsimp only
  split
  · exact .throw trivial
  · apply Gen.Yields.lift
    apply forwardPlain_takes.mono
    rintro f ⟨w, hdefinitions, hslots, hpassed⟩ w' hw'
    rw [hdefinitions, List.mem_singleton, Definition.wrapper.injEq] at hw'
    have hsub := remaining_sublist receiver (g.library.tree.get i).kind.params
    rw [hw', ForwardsApart, hpassed, hslots]
    exact ⟨rfl, .led _ _ (positions_nodup hsub) (spelled_nodup hsub hspelled) (name_slot receiver)⟩
  · split
    · exact .throw trivial
    · apply Gen.Yields.lift
      apply (forwardCallback_takes _).mono
      intro f hf w hw
      rw [ForwardsApart, (hf w hw).1]
      exact (hf w hw).2

/-! ## Directors -/

theorem override?_slots {v : Virtual} {o : Override} (h : g.library.override? v = some o) :
    o.slots = (g.library.tree.get v.method).kind.params.zipIdx.map
      (g.library.slotIn (g.library.tree.scopeOf v.method)) := by
  unfold Library.override? at h
  dsimp only at h
  split at h
  next hkind =>
    cases h
    rw [hkind]
    rfl
  next => cases h

theorem directorPlan_takes (name : String) (c : DeclId) (cpp handle : String) (params : List Param)
    (virtuals : List Virtual) (s : Session) :
    ∃ r d, ((g.directorPlan name c cpp handle (some params) virtuals).run s).1 = .region r [] ∧
      r.definitions = [.director d] ∧
      d.ctor = some (params.zipIdx.map (g.library.slotIn c)) ∧
      d.overrides = virtuals.filterMap g.library.override? := by
  suffices h : Run.Yields (fun _ => True)
      (g.directorPlan name c cpp handle (some params) virtuals) fun p => ∃ r d, p = .region r [] ∧
        r.definitions = [.director d] ∧ d.ctor = some (params.zipIdx.map (g.library.slotIn c)) ∧
        d.overrides = virtuals.filterMap g.library.override? from (h s trivial).1
  refine .bind (Q := fun _ => True) (fun _ _ => ⟨trivial, trivial⟩) fun construct _ => .pure ?_
  exact ⟨_, _, rfl, rfl, rfl, rfl⟩

/-! ## The result -/

/-- **When the parameters of generated functions have different names.** For a declaration whose
spelled parameter names differ: the names in the list of a forwarding function, whatever its
receiver, those of an override and of the member that reaches the implementation (they have one
list), and those of the constructor of a director, with `self` in front, differ exactly if no
parameter is spelled `self` behind a receiver, and none like the number of another. Each name then
denotes the parameter that it was made for. The functions for a callback always have different
names. -/
theorem parameters_distinct_iff (g : Setting) (i : DeclId)
    (hspelled : ((g.library.tree.get i).kind.params.filterMap Param.name).Nodup) :
    let params := (g.library.tree.get i).kind.params
    (∀ receiver s f s', (g.forward i receiver).run.run s = (.ok f, s') →
      ∀ w, .wrapper w ∈ f.definitions → g.ForwardsApart i receiver w) ∧
    (∀ v o, v.method = i → g.library.override? v = some o →
      TakesApart g.library (g.library.tree.scopeOf i) [] params.zipIdx o.slots) ∧
    ∀ name c cpp handle virtuals s, ∃ r d slots,
      ((g.directorPlan name c cpp handle (some params) virtuals).run s).1 = .region r [] ∧
      r.definitions = [.director d] ∧ d.overrides = virtuals.filterMap g.library.override? ∧
      d.ctor = some slots ∧
      TakesApart g.library c [.anyReceiver] params.zipIdx (.anyReceiver :: slots) := by
  intro params
  have hpositions := positions_nodup (List.Sublist.refl params.zipIdx)
  have hnames := spelled_nodup (List.Sublist.refl params.zipIdx) hspelled
  refine ⟨?_, ?_, ?_⟩
  · intro receiver s f s' hrun
    exact ((forward_takes hspelled).of_run trivial hrun).1
  · rintro v o rfl ho
    rw [override?_slots ho]
    exact .unled _ _ hpositions hnames
  · intro name c cpp handle virtuals s
    obtain ⟨r, d, hplan, hdefinitions, hctor, hoverrides⟩ :=
      directorPlan_takes (g := g) name c cpp handle params virtuals s
    exact ⟨r, d, _, hplan, hdefinitions, hoverrides, hctor, .led _ _ hpositions hnames rfl⟩

/-- A function with one parameter of a given name and one without a name. -/
def blendTree (name : String) : DeclTree :=
  (DeclTree.empty.add DeclTree.root "blend" (.function .void
    [⟨some name, .integer .int true⟩, ⟨none, .double⟩])).2

def blendSetting (name : String) : Setting where
  library := .ofTree (blendTree name)

/-- The function that forwards to it: `void wrap_blend(Rice::Object self, int name, double arg1)`
with `blend(name, arg1)` in its body. -/
def blendWrapper (name : String) : Wrapper :=
  ⟨1, .void, "wrap_blend", [.anyReceiver, ⟨.integer .int true, name⟩, ⟨.double, "arg1"⟩],
    .forward "blend" [name, "arg1"]⟩

theorem forward_blend (name : String) :
    ∃ s, ((blendSetting name).forward 1 .ignored).run.run {} =
      (.ok ⟨"wrap_blend", [.wrapper (blendWrapper name)]⟩, s) := by
  have hresult : (((blendSetting name).forward 1 .ignored).run.run {}).1 =
      .ok ⟨"wrap_blend", [.wrapper (blendWrapper name)]⟩ := by
    cbv
  exact ⟨_, Prod.ext hresult rfl⟩

theorem parameters_distinct_blend :
    ((blendTree "amount").get 1).kind.params.filterMap Param.name = ["amount"] ∧
      (blendSetting "amount").ForwardsApart 1 .ignored (blendWrapper "amount") ∧
      ((blendWrapper "amount").slots.map Slot.name).Nodup := by
  obtain ⟨s, hrun⟩ := forward_blend "amount"
  have hspelled : (((blendTree "amount").get 1).kind.params.filterMap Param.name).Nodup := by
    decide
  have happart := (parameters_distinct_iff (blendSetting "amount") 1 hspelled).1 _ _ _ _ hrun
    (blendWrapper "amount") (List.mem_singleton_self _)
  refine ⟨rfl, happart, happart.2.nodup_iff.mpr ⟨?_, ?_⟩⟩ <;> decide

/-- Beside a parameter without a name, one that is spelled `arg1` is not told apart: the names are
`self`, `arg1` and `arg1`, and `arg1` is passed on twice. -/
theorem not_nodup_parameters_blend :
    (((blendTree "arg1").get 1).kind.params.filterMap Param.name).Nodup ∧
      Text.IsIdentifier "arg1" ∧
      ∃ f s, ((blendSetting "arg1").forward 1 .ignored).run.run {} = (.ok f, s) ∧
        ∃ w, .wrapper w ∈ f.definitions ∧ w.slots.map Slot.name = ["self", "arg1", "arg1"] ∧
          ¬ (w.slots.map Slot.name).Nodup ∧ w.body.passed? = some ["arg1", "arg1"] := by
  obtain ⟨s, hrun⟩ := forward_blend "arg1"
  refine ⟨by decide, by decide, _, s, hrun, blendWrapper "arg1", List.mem_singleton_self _, rfl,
    ?_, rfl⟩
  decide

end Setting

end RubyBinding
