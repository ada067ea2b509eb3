import Mathlib
import RubyBinding.Binding.Extension
import RubyBinding.Proofs.Emission
import RubyBinding.Proofs.Needs

/-!
# Conversions for what is bound

Ruby converts a pointer to a class only where a conversion was noted for it. Which functions have
theirs is said by `Setting.Supplied`: forwarding functions and accessors do, for each type that is a
pointer to a class (`Library.PointsTo`), if looking the class up under the name that generated code
gives it leads to a class (`Library.IsRecognized`). A function that takes a callback needs none,
since it returns nothing of what it calls. The default members of directors are bound as well, but
nothing is noted for them.

`supplied_of_extension` shows this of whole extensions, along the program that plans them.
-/

namespace RubyBinding

open Code (Statement Definition Wrapper Slot Place)

namespace Library

variable (lib : Library)

/-- Whether a type, written in a scope, is a pointer to a declaration. -/
def PointsTo (scope : DeclId) (t : Ty) (c : DeclId) (isConst : Bool) : Prop :=
  ∃ name, t = .pointer (.named name) isConst ∧ lib.tree.resolve? scope name = some c

/-- Whether the first declaration under the name that generated code gives a class is a class, or a
typedef for one. -/
def IsRecognized (c : DeclId) : Prop :=
  ∃ j, lib.tree.lookup? (lib.classType c) = some j ∧ lib.denotesClass j

/-- Whether a function can return a type to Ruby: a pointer to a class has its conversion. -/
def Returns (noted : List Converter) (scope : DeclId) (t : Ty) : Prop :=
  ∀ c isConst, lib.PointsTo scope t c isConst → lib.IsRecognized c →
    ∃ n ∈ noted, n.signature = (Converter.toRuby (lib.classType c) isConst).signature

/-- Whether a function can take a type from Ruby: a pointer to a constant object has its
conversion. -/
def Takes (noted : List Converter) (scope : DeclId) (t : Ty) : Prop :=
  ∀ c, lib.PointsTo scope t c true → lib.IsRecognized c →
    ∃ n ∈ noted, n.signature = (Converter.fromRuby (lib.classType c)).signature

variable {lib} {noted : List Converter} {scope c : DeclId} {t : Ty} {isConst : Bool}

/-- A pointer to a class that is recognized is seen to be one once it is resolved. -/
theorem wrappedClass?_resolve (ht : lib.PointsTo scope t c isConst) (hc : lib.IsRecognized c) :
    lib.wrappedClass? (lib.resolve scope t) = some (lib.classType c, isConst) := by
  obtain ⟨name, rfl, hname⟩ := ht
  obtain ⟨j, hj, hclass⟩ := hc
  simp only [resolve, Ty.mapNames, wrappedClass?, resolveName, hname, hj, hclass, if_true]

theorem returns_of_meets (h : Meets noted (Converter.ofResult? lib (lib.resolve scope t))) :
    lib.Returns noted scope t := by
  intro c isConst ht hc
  refine h _ ?_
  rw [Converter.ofResult?, wrappedClass?_resolve ht hc]
  rfl

theorem takes_of_meets (h : Meets noted (Converter.ofParam? lib (lib.resolve scope t))) :
    lib.Takes noted scope t := by
  intro c ht hc
  refine h _ ?_
  rw [Converter.ofParam?, wrappedClass?_resolve ht hc]

end Library

/-- Whether a statement binds a function. -/
def Code.Statement.isBind : Statement → Bool
  | .bind .. => true
  | _ => false

namespace Setting

/-! ## What is bound -/

/-- A parameter of a declaration as its forwarding function takes it. -/
def slotFor (g : Setting) (i : DeclId) (p : Param × Nat) : Slot :=
  ⟨g.library.resolve (g.library.tree.scopeOf i) p.1.ty, p.1.nameAt p.2⟩

/-- What is known of the function that a statement binds, by what it is. -/
inductive Supplied (g : Setting) (noted : List Converter) (definitions : List Definition) :
    String → Prop
  /-- A function that forwards: its result and the parameters that Ruby passes have their
  conversions. -/
  | forwarder {w : Wrapper} {receiver : Receiver} {target : String} {arguments : List String}
      (hw : .wrapper w ∈ definitions) (hbody : w.body = .forward target arguments)
      (hslots : w.slots = receiver.slot ::
        (receiver.remaining (g.library.tree.get w.source).kind.params).map (g.slotFor w.source))
      (hresult : ∀ t, (g.library.tree.get w.source).kind.result? = some t →
        g.library.Returns noted (g.library.tree.scopeOf w.source) t)
      (hparams : ∀ p ∈ receiver.remaining (g.library.tree.get w.source).kind.params,
        g.library.Takes noted (g.library.tree.scopeOf w.source) p.1.ty) :
      Supplied g noted definitions w.name
  /-- A function that reads or writes a field: the type of the field has its conversion to Ruby. -/
  | accessor {w : Wrapper} {place : String} {t : Ty} {isStatic isConst : Bool}
      (hw : .wrapper w ∈ definitions) (hbody : w.body = .get place ∨ w.body = .set place)
      (hkind : (g.library.tree.get w.source).kind = .field t isStatic isConst)
      (hresult : g.library.Returns noted (g.library.tree.scopeOf w.source) t) :
      Supplied g noted definitions w.name
  /-- A function that takes a block for a callback, and returns nothing to Ruby. -/
  | callback {w : Wrapper} {block target yielder : String} {returnsNil : Bool}
      (hw : .wrapper w ∈ definitions) (hbody : w.body = .takeBlock block target yielder returnsNil)
      (hparams : (g.library.tree.get w.source).kind.params.any fun p => p.ty.isCallback) :
      Supplied g noted definitions w.name
  /-- A default member of a director. -/
  | director {c : DeclId} {v : Virtual} (name : String)
      (hv : v ∈ g.library.boundVirtuals c (g.library.members c).methods) :
      Supplied g noted definitions (name ++ "::" ++ v.fallback)

/-- Whether everything that some statements bind is supplied. -/
def BindsSupplied (g : Setting) (noted : List Converter) (definitions : List Definition)
    (body : List Statement) : Prop :=
  ∀ place ruby target, .bind place ruby target ∈ body → g.Supplied noted definitions target

/-- Whether everything that some plans bind is supplied. -/
def PlansSupplied (g : Setting) (noted : List Converter) (ps : List Plan) : Prop :=
  ∀ p ∈ ps, ∀ r ∈ p.regions, g.BindsSupplied noted r.definitions r.body

/-- Whether everything that a draft binds is supplied. -/
structure DraftSupplied (g : Setting) (noted : List Converter) (d : Draft) : Prop where
  binds : g.BindsSupplied noted d.definitions d.body
  parts : g.PlansSupplied noted d.parts

variable {g : Setting} {noted : List Converter} {definitions more : List Definition}
  {d e : Draft} {ds : List Draft}

theorem Supplied.mono {target : String} (h : g.Supplied noted definitions target)
    (hsub : definitions ⊆ more) : g.Supplied noted more target := by
  cases h with
  | forwarder hw hbody hslots hresult hparams =>
    exact .forwarder (hsub hw) hbody hslots hresult hparams
  | accessor hw hbody hkind hresult => exact .accessor (hsub hw) hbody hkind hresult
  | callback hw hbody hparams => exact .callback (hsub hw) hbody hparams
  | director name hv => exact .director name hv

/-- Statements that bind no function. -/
theorem bindsSupplied_of_all {body : List Statement} (h : body.all fun s => !s.isBind) :
    g.BindsSupplied noted definitions body := by
  intro place ruby target hmem
  have hnot := List.all_eq_true.mp h _ hmem
  cases hnot

theorem PlansSupplied.nil : g.PlansSupplied noted [] :=
  fun _ hp => absurd hp List.not_mem_nil

theorem DraftSupplied.of_body (hparts : d.parts = [])
    (hbody : d.body.all fun s => !s.isBind) : g.DraftSupplied noted d where
  binds := bindsSupplied_of_all hbody
  parts := by
    rw [hparts]
    exact .nil

theorem DraftSupplied.empty : g.DraftSupplied noted {} :=
  .of_body rfl rfl

/-- A draft of plans only. -/
theorem DraftSupplied.of_parts {ps : List Plan} (h : g.PlansSupplied noted ps) :
    g.DraftSupplied noted { parts := ps } where
  binds := bindsSupplied_of_all rfl
  parts := h

theorem DraftSupplied.append (hd : g.DraftSupplied noted d) (he : g.DraftSupplied noted e) :
    g.DraftSupplied noted (d ++ e) where
  binds := by
    intro place ruby target hmem
    rcases List.mem_append.mp hmem with hmem | hmem
    · exact (hd.binds place ruby target hmem).mono (List.subset_append_left _ _)
    · exact (he.binds place ruby target hmem).mono (List.subset_append_right _ _)
  parts := by
    intro p hp
    rcases List.mem_append.mp hp with hp | hp
    · exact hd.parts p hp
    · exact he.parts p hp

theorem DraftSupplied.join (h : ∀ d ∈ ds, g.DraftSupplied noted d) :
    g.DraftSupplied noted (Draft.join ds) := by
  induction ds with
  | nil => exact .empty
  | cons d ds ih =>
    obtain ⟨hd, hds⟩ := List.forall_mem_cons.mp h
    exact hd.append (ih hds)

theorem DraftSupplied.toPlan (h : g.DraftSupplied noted d) (name : String) (node : Option DeclId)
    (handle : String) : g.PlansSupplied noted [d.toPlan name node handle] := by
  intro p hp r hr
  rw [List.mem_singleton.mp hp, Draft.toPlan, Plan.regions, List.mem_cons, Plan.mem_regionsOf] at hr
  rcases hr with rfl | ⟨q, hq, hr⟩
  · exact h.binds
  · exact h.parts q hq r hr

/-! ## Types -/

theorem resolveResult_serves (scope : DeclId) (t : Ty) :
    Run.Serves noted (g.resolveResult scope t) fun _ => g.library.Returns noted scope t := by
  intro s hs
  obtain ⟨hstart, hmeets⟩ := s.need_serves _ hs
  exact ⟨hstart, Library.returns_of_meets hmeets⟩

theorem resolveParam_serves (scope : DeclId) (t : Ty) :
    Run.Serves noted (g.resolveParam scope t) fun ty =>
      ty = g.library.resolve scope t ∧ g.library.Takes noted scope t := by
  intro s hs
  obtain ⟨hstart, hmeets⟩ := s.need_serves _ hs
  exact ⟨hstart, rfl, Library.takes_of_meets hmeets⟩

theorem freshName_serves (base : String) :
    Run.Serves noted (freshName base) fun _ => True :=
  .of_converters (fun _ => rfl) fun _ => trivial

/-! ## Forwarding functions -/

theorem slots_serves (i : DeclId) (params : List (Param × Nat)) :
    Run.Serves noted (g.slots (g.library.tree.scopeOf i) params) fun slots =>
      slots = params.map (g.slotFor i) ∧
        ∀ p ∈ params, g.library.Takes noted (g.library.tree.scopeOf i) p.1.ty := by
  refine .mono (.mapM (R := fun p slot => slot = g.slotFor i p ∧
    g.library.Takes noted (g.library.tree.scopeOf i) p.1.ty) params ?_) fun slots hslots => ?_
  · rintro ⟨p, k⟩ -
    refine .bind (resolveParam_serves _ p.ty) fun ty => .pure ?_
    rintro ⟨rfl, htakes⟩
    exact ⟨rfl, htakes⟩
  · induction hslots with
    | nil => exact ⟨rfl, fun _ hp => absurd hp List.not_mem_nil⟩
    | cons hp _ ih =>
      refine ⟨?_, List.forall_mem_cons.mpr ⟨hp.2, ih.2⟩⟩
      rw [List.map_cons, hp.1, ih.1]

theorem result_serves (scope : DeclId) (result : Option Ty) :
    Run.Serves noted (g.result scope result) fun _ =>
      ∀ t, result = some t → g.library.Returns noted scope t := by
  cases result with
  | none => exact .pure fun _ h => nomatch h
  | some t =>
    refine .mono (resolveResult_serves scope t) ?_
    rintro _ hreturns _ ⟨⟩
    exact hreturns

theorem forwardPlain_serves (i : DeclId) (receiver : Receiver) :
    Run.Serves noted (g.forwardPlain i receiver) fun f =>
      g.Supplied noted f.definitions f.name := by
  refine .bind (result_serves _ _) fun result => ?_
  refine .bind (freshName_serves _) fun name => ?_
  refine .bind (slots_serves i _) fun slots => .pure ?_
  rintro ⟨rfl, hparams⟩ - hresult
  refine .forwarder List.mem_cons_self rfl ?_ hresult hparams
  rfl

theorem forwardCallback_serves (i : DeclId) (receiver : Receiver) (signature : Ty × List Ty)
    (hparams : (g.library.tree.get i).kind.params.any fun p => p.ty.isCallback) :
    Run.Serves noted (g.forwardCallback i receiver signature) fun f =>
      g.Supplied noted f.definitions f.name := by
  refine .bind (freshName_serves _) fun name => ?_
  -- The entry point comes after the block that it takes and the function that calls the block.
  have hentry : ∀ block yielder entry : Definition, entry ∈ [block, yielder, entry] := by simp
  cases receiver with
  | ignored => exact .pure fun _ => .callback (hentry _ _ _) rfl hparams
  | object cpp => exact .pure fun _ => .callback (hentry _ _ _) rfl hparams
  | argument cpp => exact .pure fun _ => .callback (hentry _ _ _) rfl hparams

theorem forward_serves (i : DeclId) (receiver : Receiver) :
    Gen.Serves noted (g.forward i receiver) fun f => g.Supplied noted f.definitions f.name := by
  rw [forward_eq]
  unfold forwarder
  dsimp only
  split
  · exact .throw _
  · exact .lift (forwardPlain_serves i receiver)
  next callback _ hfind =>
    split
    · exact .throw _
    · have hcallback := List.find?_some hfind
      exact .lift (forwardCallback_serves i receiver _
        (List.any_eq_true.mpr ⟨callback, List.mem_of_find?_eq_some hfind, hcallback⟩))

theorem bindForward_serves (i : DeclId) (receiver : Receiver) (place : Place) (ruby : String) :
    Gen.Serves noted (g.bindForward i receiver place ruby) (g.DraftSupplied noted) := by
  refine .bind (forward_serves i receiver) fun f => .pure fun hf => ⟨?_, .nil⟩
  intro place' ruby' target hmem
  cases List.mem_singleton.mp hmem
  exact hf

/-- The headers of a draft do not matter. -/
theorem DraftSupplied.with_includes (h : g.DraftSupplied noted d) (includes : List String) :
    g.DraftSupplied noted { d with includes } :=
  ⟨h.binds, h.parts⟩

/-! ## Members of a class -/

/-- A director that overrides virtual methods of a class, if it has one. -/
def OverridesIn (g : Setting) (c : DeclId) : Option (String × List Virtual) → Prop
  | none => True
  | some (_, virtuals) => virtuals = g.library.boundVirtuals c (g.library.members c).methods

theorem bindMethod_serves (c : Target) {director : Option (String × List Virtual)}
    (hdirector : g.OverridesIn c.id director) (m : Named) :
    Gen.Serves noted (g.bindMethod c director m) (g.DraftSupplied noted) := by
  unfold bindMethod
  split
  · split
    next name virtuals _ =>
      split
      next v hfind =>
        refine .pure ⟨?_, .nil⟩
        intro place ruby target hmem
        cases List.mem_singleton.mp hmem
        have hv := List.mem_of_find?_eq_some hfind
        rw [show virtuals = _ from hdirector] at hv
        exact .director name hv
      next => exact .pure .empty
    next =>
      split
      · exact bindForward_serves _ _ _ _
      · exact bindForward_serves _ _ _ _
  · exact .pure .empty

theorem access_serves (i : DeclId) (cpp : String) {t : Ty} {isStatic isConst : Bool}
    (hkind : (g.library.tree.get i).kind = .field t isStatic isConst) :
    Run.Serves noted (g.access i cpp t isStatic isConst) fun a =>
      g.Supplied noted a.definitions a.getter ∧
        ∀ setter ∈ a.setter, g.Supplied noted a.definitions setter := by
  refine .bind (resolveResult_serves _ _) fun ty => ?_
  refine .bind (freshName_serves _) fun getter => ?_
  dsimp only
  split
  · refine .pure fun _ hreturns => ⟨?_, fun _ h => nomatch h⟩
    exact .accessor List.mem_cons_self (.inl rfl) hkind hreturns
  · refine .bind (freshName_serves _) fun setter => .pure fun _ _ hreturns => ⟨?_, ?_⟩
    · exact .accessor List.mem_cons_self (.inl rfl) hkind hreturns
    · rintro _ ⟨⟩
      exact .accessor (List.mem_cons_of_mem _ List.mem_cons_self) (.inr rfl) hkind hreturns

theorem bindField_serves (c : Target) (f : Named) :
    Run.Serves noted (g.bindField c f) (g.DraftSupplied noted) := by
  unfold bindField
  dsimp only
  refine .bind (Q := fun found => ∀ a : Accessors, found = some a →
    g.Supplied noted a.definitions a.getter ∧
      ∀ setter ∈ a.setter, g.Supplied noted a.definitions setter) ?_ fun found => ?_
  · unfold accessors
    split
    next hkind =>
      split
      · exact .pure fun _ h => nomatch h
      · refine .bind (access_serves f.1 c.cpp hkind) fun a => .pure ?_
        rintro ha _ ⟨⟩
        exact ha
    · exact .pure fun _ h => nomatch h
  · cases found with
    | none => exact .pure fun _ => .empty
    | some a =>
      refine .pure fun ha => ⟨?_, .nil⟩
      obtain ⟨hgetter, hsetter⟩ := ha a rfl
      intro place ruby target hmem
      rcases List.mem_cons.mp hmem with hmem | hmem
      · cases hmem
        exact hgetter
      · obtain ⟨setter, hset, heq⟩ := List.mem_map.mp hmem
        cases heq
        exact hsetter _ (by simpa using hset)

/-- Constructors are not bound, and nothing is to be shown of their parameters. -/
theorem paramTypes_serves (scope : DeclId) (params : List Param) :
    Run.Serves noted (params.mapM fun p => g.resolveParam scope p.ty) fun _ => True := by
  have hparam : ∀ p : Param, Run.Serves noted (g.resolveParam scope p.ty) fun _ => True :=
    fun p => .mono (resolveParam_serves scope p.ty) fun _ _ => trivial
  exact .mono (.mapM params fun p _ => hparam p) fun _ _ => trivial

theorem bindCtor_serves (c : Target) (ctor : Option (List Param)) :
    Run.Serves noted (g.bindCtor c ctor) (g.DraftSupplied noted) := by
  cases ctor with
  | none => exact .pure .empty
  | some params =>
    exact .bind (paramTypes_serves _ params) fun types => .pure fun _ => .of_body rfl rfl

theorem directorPlan_serves (name : String) (i : DeclId) (cpp handle : String)
    (ctor : Option (List Param)) (virtuals : List Virtual) :
    Run.Serves noted (g.directorPlan name i cpp handle ctor virtuals)
      fun p => g.PlansSupplied noted [p] := by
  have registered : ∀ (director : Code.Director) (construct : List Statement),
      (construct.all fun s => !s.isBind) →
      g.PlansSupplied noted [Draft.toPlan {
        includes := ["#include <rice/Director.hpp>"]
        definitions := [.director director]
        body := .defineDirector handle name :: construct } name none ""] :=
    fun _ _ hconstruct => (DraftSupplied.of_body rfl hconstruct).toPlan _ _ _
  unfold directorPlan
  dsimp only
  split
  · exact .bind (Q := fun construct => construct.all fun s => !s.isBind) (.pure rfl)
      fun construct => .pure fun h => registered _ _ h
  · next params =>
    refine .bind (paramTypes_serves _ params) fun types => ?_
    exact .bind (Q := fun construct => construct.all fun s => !s.isBind) (.pure rfl)
      fun construct => .pure fun h _ => registered _ _ h

/-! ## What is nested -/

/-- Whether planning something on its own supplies what its plan binds. -/
def NestedSupplied (g : Setting) (noted : List Converter) (nested : Nested) : Prop :=
  ∀ parent c, Gen.Serves noted (nested parent c) fun p => g.PlansSupplied noted p.toList

variable {nested : Nested}

theorem bindAdopted_serves (c : Target) (m : Named) :
    Gen.Serves noted (g.bindAdopted c m) (g.DraftSupplied noted) := by
  unfold bindAdopted
  dsimp only
  exact .bind (bindForward_serves _ _ _ _) fun d => .pure fun hd => hd.with_includes _

theorem bindInside_serves (hn : g.NestedSupplied noted nested) (c : Target) (adopted : List Named)
    (i : DeclId) :
    Gen.Serves noted (g.bindInside nested c adopted i) (g.DraftSupplied noted) := by
  unfold bindInside
  dsimp only
  split
  · exact .bind (hn _ _) fun p => .pure fun hp => .of_parts hp
  · split
    · exact bindAdopted_serves c _
    · exact .pure .empty

/-- Binding what a class holds, and putting everything together. -/
theorem classMembers_serves (hn : g.NestedSupplied noted nested) (c : Target)
    (director : Option (String × List Virtual)) (hdirector : g.OverridesIn c.id director)
    {head construct custom : Draft} (hhead : g.DraftSupplied noted head)
    (hcustom : g.DraftSupplied noted custom) (name : String) :
    Gen.Serves noted
      (do
        let methods ← (g.library.members c.id).methods.mapM (g.bindMethod c director)
        let fields ← (g.library.members c.id).fields.mapM fun f =>
          (liftM (g.bindField c f) : Gen Draft)
        let inside ← (g.library.exposed c.id ++ g.library.adopted c.id).mapM
          (g.bindInside nested c (g.library.members c.id).adopted)
        let draft := Draft.join ([head, construct] ++ methods ++ fields ++ inside ++ [custom])
        return draft.toPlan name (some c.id) c.handle)
      (fun p => g.DraftSupplied noted construct → g.PlansSupplied noted [p]) := by
  refine .bind (.mapM _ fun m _ => bindMethod_serves c hdirector m) fun methods => ?_
  refine .bind (.mapM _ fun f _ => .lift (bindField_serves c f)) fun fields => ?_
  refine .bind (.mapM _ fun i _ => bindInside_serves hn c _ i) fun inside => .pure ?_
  intro hinside hfields hmethods hconstruct
  refine (DraftSupplied.join fun d hd => ?_).toPlan _ _ _
  simp only [List.mem_append, List.mem_cons, List.not_mem_nil, or_false] at hd
  rcases hd with ((((rfl | rfl) | hd) | hd) | hd) | rfl
  · exact hhead
  · exact hconstruct
  · exact hmethods d hd
  · exact hfields d hd
  · exact hinside d hd
  · exact hcustom

theorem draftSupplied_custom (definitions statements : List String) (change : String → String) :
    g.DraftSupplied noted {
      definitions := definitions.map .custom
      body := statements.map fun text => .custom (change text) } := by
  exact .of_body rfl (by simp [Code.Statement.isBind])

theorem classPlan_serves (hn : g.NestedSupplied noted nested) (parent : Option String)
    (i : DeclId) :
    Gen.Serves noted (g.classPlan nested parent i) fun p => g.PlansSupplied noted [p] := by
  unfold classPlan
  dsimp only
  refine .bind (Q := fun _ => True) (.except fun _ _ => trivial) fun superclass => ?_
  refine .bind (.lift (freshName_serves _)) fun handle => ?_
  split
  · -- Without virtual methods, the class itself is constructed.
    refine .bind (.lift (bindCtor_serves _ _)) fun construct => ?_
    rw [pure_bind]
    refine .mono (classMembers_serves hn ⟨i, _, handle⟩ none trivial ?_
      (draftSupplied_custom _ _ _) _) ?_
    · exact .of_body rfl rfl
    · intro p hp hconstruct _ _
      exact hp hconstruct
  · -- With virtual methods, the class has a director, which is constructed in its place.
    refine .bind (.lift (freshName_serves _)) fun name => ?_
    refine .bind (.lift (directorPlan_serves _ _ _ _ _ _)) fun plan => ?_
    rw [pure_bind]
    refine .mono (classMembers_serves hn ⟨i, _, handle⟩ (some (name, _)) rfl ?_
      (draftSupplied_custom _ _ _) _) ?_
    · exact .of_body rfl rfl
    · intro p hp hplan _ _ _
      exact hp (.of_parts hplan)

/-! ## Enumerations and namespaces -/

theorem enumPlan_serves (parent : Option String) (i : DeclId) :
    Run.Serves noted (g.enumPlan parent i) fun p => g.PlansSupplied noted [p] := by
  unfold enumPlan
  dsimp only
  split
  · refine .bind (freshName_serves _) fun handle => .pure fun _ => ?_
    exact DraftSupplied.toPlan (.of_body rfl (by simp [Code.Statement.isBind])) _ _ _
  · exact .pure (DraftSupplied.toPlan .empty _ _ _)

theorem bindHeld_serves (holder : Holder) (f : Named) :
    Gen.Serves noted (g.bindHeld holder f) (g.DraftSupplied noted) := by
  unfold bindHeld
  exact .bind (bindForward_serves _ _ _ _) fun d => .pure fun hd => hd.with_includes _

theorem bindItem_serves (hn : g.NestedSupplied noted nested) (holder : Holder)
    (functions : List Named) (i : DeclId) :
    Gen.Serves noted (g.bindItem nested holder functions i) (g.DraftSupplied noted) := by
  have planned : Gen.Serves noted (do
      return ({ parts := (← nested holder.handle? i).toList } : Draft)) (g.DraftSupplied noted) :=
    .bind (hn _ _) fun p => .pure fun hp => .of_parts hp
  unfold bindItem
  split
  · split
    · exact bindHeld_serves holder _
    · exact .pure .empty
  · split
    · exact bindHeld_serves holder _
    · exact .pure .empty
  · refine .bind .getSession fun s => ?_
    split
    · exact .pure fun _ => .empty
    · exact .mono planned fun _ hd _ => hd
  · exact planned

theorem bindNamespace_serves (hn : g.NestedSupplied noted nested) (holder : Holder)
    (ns : DeclId) :
    Gen.Serves noted (g.bindNamespace nested holder ns) (g.DraftSupplied noted) :=
  .bind (.mapM _ fun i _ => bindItem_serves hn holder _ i) fun _ => .pure fun hds => .join hds

theorem openModule_serves (name ruby : String) (parent : Option String) :
    Run.Serves noted (openModule name ruby parent) fun opened =>
      g.DraftSupplied noted opened.2 := by
  refine .bind (freshName_serves _) fun handle => .pure fun _ => ?_
  exact .of_body rfl rfl

theorem namespacePlan_serves (hn : g.NestedSupplied noted nested) (parent : Option String)
    (ns : DeclId) :
    Gen.Serves noted (g.namespacePlan nested parent ns) fun p => g.PlansSupplied noted [p] := by
  unfold namespacePlan
  dsimp only
  refine .bind (.lift (openModule_serves (g := g) _ _ _)) fun opened => ?_
  refine .bind (bindNamespace_serves hn _ ns) fun inside => .pure ?_
  intro hinside hhead
  exact (hhead.append hinside).toPlan _ _ _

/-! ## The walk -/

theorem planOf_serves (unplanned : List DeclId) : g.NestedSupplied noted (g.planOf unplanned) := by
  -- By induction on how much is left to be planned; the cases are those of `planOf`.
  induction hn : unplanned.length using Nat.strongRecOn generalizing unplanned with
  | ind n ih =>
    subst hn
    intro parent i
    have none : g.PlansSupplied noted (Option.toList none) := .nil
    rw [planOf]
    dsimp only
    split
    · exact .pure none
    split
    · exact .bind (.lift (enumPlan_serves parent i)) fun p => .pure fun hp => hp
    split
    · split
      next hi =>
        have hnested : g.NestedSupplied noted (g.planOf (unplanned.erase i)) := by
          refine ih _ ?_ _ rfl
          have := List.length_erase_of_mem hi
          have := List.length_pos_of_mem hi
          omega
        split
        · exact .map (classPlan_serves hnested parent i) fun p hp => hp
        · exact .map (namespacePlan_serves hnested parent i) fun p hp => hp
      next => exact .throw _
    · exact .pure none

mutual

theorem modulePlan_serves (parent : Option String) (m : ModuleSpec) :
    Gen.Serves noted (g.modulePlan parent m) fun p => g.PlansSupplied noted [p] := by
  obtain ⟨name, nspace, modules⟩ := m
  rw [modulePlan]
  refine .bind (.lift (openModule_serves (g := g) _ _ _)) fun opened => ?_
  have rest : ∀ inside : Draft, Gen.Serves noted (do
      let submodules ← g.modulePlans (some opened.1) modules
      return (opened.2 ++ inside ++ ({ parts := submodules } : Draft)).toPlan name nspace opened.1)
      fun p => g.DraftSupplied noted inside → g.DraftSupplied noted opened.2 →
        g.PlansSupplied noted [p] := by
    intro inside
    refine .bind (modulePlans_serves (some opened.1) modules) fun ps => .pure ?_
    intro hps hinside hhead
    exact ((hhead.append hinside).append (.of_parts hps)).toPlan _ _ _
  cases nspace with
  | none => exact .mono (rest {}) fun p hp hhead => hp .empty hhead
  | some ns => exact .bind (bindNamespace_serves (planOf_serves _) _ ns) rest

theorem modulePlans_serves (parent : Option String) (ms : List ModuleSpec) :
    Gen.Serves noted (g.modulePlans parent ms) (g.PlansSupplied noted) := by
  cases ms with
  | nil =>
    rw [modulePlans]
    exact .pure .nil
  | cons m ms =>
    rw [modulePlans]
    refine .bind (modulePlan_serves parent m) fun p => ?_
    refine .bind (modulePlans_serves parent ms) fun ps => .pure ?_
    intro hps hp q hq
    rcases List.mem_cons.mp hq with rfl | hq
    · exact hp q List.mem_cons_self
    · exact hps q hq

end

theorem claims_serves (namespaces : List DeclId) :
    Gen.Serves noted (namespaces.forM fun ns => (liftM (claim ns) : Gen Unit)) fun _ => True := by
  induction namespaces with
  | nil => exact .pure trivial
  | cons ns namespaces ih =>
    refine .bind (Q := fun _ => True) (.lift ?_) fun _ => .mono ih fun _ h _ => h
    exact .of_converters (fun _ => rfl) fun _ => trivial

theorem extension_serves (name : String) (ns : Option DeclId) (modules : List ModuleSpec) :
    Gen.Serves noted (g.extension name ns modules) fun e => g.PlansSupplied noted [e.plan] := by
  unfold extension
  dsimp only
  refine .bind (claims_serves _) fun _ => ?_
  have rest : ∀ inside : Draft, Gen.Serves noted (do
      let submodules ← g.modulePlans none modules
      let draft := ({
        includes := "#include <rice/Class.hpp>" :: g.furtherIncludes
        body := [.frame "extern \"C\"", .frame ("void Init_" ++ name ++ "() \x7b")] } : Draft) ++
          inside ++ { body := [.frame "\x7d"], parts := submodules }
      return (⟨⟨name, none, "", draft.includes, draft.definitions, draft.body⟩, draft.parts⟩ :
        Extension))
      fun e => g.DraftSupplied noted inside → True → g.PlansSupplied noted [e.plan] := by
    intro inside
    refine .bind (modulePlans_serves none modules) fun ps => .pure ?_
    intro hps hinside _
    refine DraftSupplied.toPlan (.append (.append ?_ hinside) ⟨?_, hps⟩) name none ""
    · exact .of_body rfl rfl
    · exact bindsSupplied_of_all rfl
  cases ns with
  | none => exact .mono (rest {}) fun e he _ => he .empty trivial
  | some ns => exact .bind (bindNamespace_serves (planOf_serves _) _ ns) rest

/-- **What an extension binds is supplied with its conversions**, the default members of directors
apart. -/
theorem supplied_of_extension {name : String} {ns : Option DeclId} {modules : List ModuleSpec}
    {e : Extension} {s : Session} (hrun : (g.extension name ns modules).run.run {} = (.ok e, s)) :
    ∀ r ∈ e.plan.regions, g.BindsSupplied s.converters r.definitions r.body := by
  have hserves : Gen.Serves s.converters (g.extension name ns modules) fun e =>
      g.PlansSupplied s.converters [e.plan] := extension_serves name ns modules
  have hrun' := hserves {}
  rw [show (g.extension name ns modules).run.run {} = (.ok e, s) from hrun] at hrun'
  obtain ⟨-, hplans⟩ := hrun' (List.Subset.refl _)
  exact hplans e rfl e.plan List.mem_cons_self

/-- Whether planning an extension goes well and passes a test. -/
def runPasses (g : Setting) (name : String) (ns : Option DeclId) (modules : List ModuleSpec)
    (test : Plan → List Converter → Bool) : Bool :=
  match (g.extension name ns modules).run.run {} with
  | (.ok e, s) => test e.plan s.converters
  | (.error _, _) => false

theorem exists_of_runPasses {name : String} {ns : Option DeclId} {modules : List ModuleSpec}
    {test : Plan → List Converter → Bool} (h : g.runPasses name ns modules test = true) :
    ∃ e s, (g.extension name ns modules).run.run {} = (.ok e, s) ∧
      test e.plan s.converters = true := by
  unfold runPasses at h
  rcases hrun : (g.extension name ns modules).run.run {} with ⟨err | e, s⟩
  · rw [hrun] at h
    cases h
  · rw [hrun] at h
    exact ⟨e, s, rfl, h⟩

/-- Whether a plan binds a function, and which conversions go with it. -/
def bindsWith (bound : Statement) (converters : List Converter) (p : Plan)
    (noted : List Converter) : Bool :=
  noted = converters && p.regions.any fun r => r.body.contains bound

theorem exists_of_bindsWith {bound : Statement} {converters : List Converter} {p : Plan}
    {noted : List Converter} (h : bindsWith bound converters p noted = true) :
    noted = converters ∧ ∃ r ∈ p.regions, bound ∈ r.body := by
  simpa [bindsWith] using h

/-- A class, and a class with a method that returns a pointer to an object of the first. -/
def nodeTree (isVirtual : Bool) : DeclTree :=
  let t := (DeclTree.empty.add DeclTree.root "Node" (.record false [])).2
  let t := (t.add DeclTree.root "Widget" (.record false [])).2
  (t.add 2 "next" (.method (.pointer (.named "Node") false) [] { isVirtual })).2

def nodeSetting (isVirtual : Bool) : Setting where
  library := { tree := nodeTree isVirtual, notes := [(3, { rename := some "next" })] }

/-- A method that is not virtual is bound to a forwarding function, and the pointer that it returns
is converted. -/
theorem supplied_node :
    ∃ e s, ((nodeSetting false).extension "E" (some 0) []).run.run {} = (.ok e, s) ∧
      s.converters = [.toRuby "Node" false] ∧
      ∃ r ∈ e.plan.regions, .bind (.method "rb_cWidget") "next" "wrap_Widget_next" ∈ r.body ∧
        (nodeSetting false).Supplied s.converters r.definitions "wrap_Widget_next" := by
  have hpasses : (nodeSetting false).runPasses "E" (some 0) []
      (bindsWith (.bind (.method "rb_cWidget") "next" "wrap_Widget_next")
        [.toRuby "Node" false]) = true := by cbv
  obtain ⟨e, s, hrun, htest⟩ := exists_of_runPasses hpasses
  obtain ⟨hnoted, r, hr, hbind⟩ := exists_of_bindsWith htest
  exact ⟨e, s, hrun, hnoted, r, hr, hbind, supplied_of_extension hrun r hr _ _ _ hbind⟩

/-- A virtual method is bound to the default member of a director, which returns the same pointer,
and no conversion is noted for it. -/
theorem not_returns_virtual_node :
    ∃ e s, ((nodeSetting true).extension "E" (some 0) []).run.run {} = (.ok e, s) ∧
      (∃ r ∈ e.plan.regions,
        .bind (.method "rb_cWidget") "next" "WidgetDirector::default_next" ∈ r.body) ∧
      ((nodeTree true).get 3).kind.result? = some (.pointer (.named "Node") false) ∧
      (nodeTree true).resolve? ((nodeTree true).scopeOf 3) "Node" = some 1 ∧
      ((nodeTree true).get 1).isRecord ∧
      ∀ n ∈ s.converters, n.signature ≠ "to_ruby< Node* >" := by
  have hpasses : (nodeSetting true).runPasses "E" (some 0) []
      (bindsWith (.bind (.method "rb_cWidget") "next" "WidgetDirector::default_next") []) =
        true := by cbv
  obtain ⟨e, s, hrun, htest⟩ := exists_of_runPasses hpasses
  obtain ⟨hnoted, hbind⟩ := exists_of_bindsWith htest
  refine ⟨e, s, hrun, hbind, rfl, by cbv, rfl, ?_⟩
  rw [hnoted]
  exact fun _ hn => absurd hn List.not_mem_nil

end Setting

end RubyBinding
