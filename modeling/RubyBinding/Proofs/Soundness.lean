import Mathlib
import RubyBinding.Binding.Extension
import RubyBinding.Proofs.Scopes
import RubyBinding.Proofs.Steps

/-!
# What is planned is sound

Each step of the planner draws the names that it uses and leaves a sound draft or plan: it uses the
handle that it was given, and holds the definitions of what it binds. A class with a director is the
one place where they are held elsewhere: its methods are bound to members of the director, which is
a part of the class. `extension_draws` says this of whole extensions, along the program that plans
them.
-/

namespace RubyBinding

open Code (Statement Definition Place)

/-- Whether the root of an extension and its parts are sound each for itself: the root uses no
handle and binds only what it defines, and no part uses the handle of another. -/
structure Extension.Sound (e : Extension) : Prop where
  body : SoundBody [] e.root.definitions e.root.body
  named : ∀ d ∈ e.root.definitions, d.IsNamed
  parts : ∀ p ∈ e.parts, p.Sound []

/-- The whole of a sound extension is a sound plan. -/
theorem Extension.Sound.plan {e : Extension} (h : e.Sound) : e.plan.Sound [] := by
  refine .plain (h.body.mono ?_) h.named h.parts
  rw [Plan.definitions_region]
  exact List.subset_append_left _ _

namespace Setting

variable {g : Setting} {handles : List String} {others : List Definition} {c : Target}

/-! ## Functions -/

theorem provides_of_defines {ds : List Definition} {names : List String} (hds : Defines names ds)
    {name : String} (hname : name ∈ names) : Provides ds name := by
  rw [← hds.drawn] at hname
  obtain ⟨d, hd, hdrawn⟩ := List.mem_filterMap.mp hname
  cases d with
  | wrapper w =>
    have hbody : ∀ block, w.body ≠ .callBlock block := by
      intro block hblock
      simp only [Definition.drawn?, hblock] at hdrawn
      cases hdrawn
    rw [(drawn?_wrapper hbody).1] at hdrawn
    cases hdrawn
    exact .function hd hbody
  | director d => exact absurd hd (hds.functions d)
  | _ => cases hdrawn

/-- A draft that binds, all in one place, the functions that it defines. -/
theorem draft_of_defines {ds : List Definition} {names : List String} (hds : Defines names ds)
    {place : Place} (hplace : place.handle?.toList ⊆ handles) {body : List Statement}
    (hbody : ∀ s ∈ body, ∃ ruby, ∃ name ∈ names, s = .bind place ruby name) :
    ({ definitions := ds, body } : Draft).Sound handles [] ∧
      ({ definitions := ds, body } : Draft).drawn = names := by
  refine ⟨⟨⟨?_, ?_⟩, hds.wellNamed.isNamed, List.forall_mem_nil _⟩, ?_⟩
  · intro s hs
    obtain ⟨ruby, name, -, rfl⟩ := hbody s hs
    exact ⟨rfl, hplace⟩
  · rintro s hs target ht
    obtain ⟨ruby, name, hname, rfl⟩ := hbody s hs
    cases ht
    exact (provides_of_defines hds hname).mono (List.subset_append_left _ _)
  · have hdeclared : declaredBy body = [] := by
      refine List.filterMap_eq_nil_iff.mpr fun s hs => ?_
      obtain ⟨ruby, name, -, rfl⟩ := hbody s hs
      rfl
    rw [Draft.drawn, hdeclared, hds.drawn, List.flatMap_nil, List.append_nil, List.nil_append]

theorem bindForward_draws (i : DeclId) (receiver : Receiver) {place : Place} (ruby : String)
    (hplace : place.handle?.toList ⊆ handles) :
    Gen.Draws [] (g.bindForward i receiver place ruby) Draft.drawn (Draft.Sound handles []) := by
  refine .bind (forward_draws i receiver) fun f hf => ?_
  have hbody : ∀ s ∈ [Statement.bind place ruby f.name],
      ∃ ruby, ∃ name ∈ [f.name], s = .bind place ruby name := by
    intro s hs
    exact ⟨ruby, f.name, List.mem_singleton_self _, List.mem_singleton.mp hs⟩
  obtain ⟨hsound, hdrawn⟩ := draft_of_defines hf hplace hbody
  refine .pure hsound fun n => ?_
  rw [hdrawn]
  exact count_le_held _ n

theorem bindField_draws (f : Named) :
    Run.Draws [] (g.bindField c f) Draft.drawn (Draft.Sound [c.handle] []) := by
  unfold bindField
  dsimp only
  refine .bind (accessors_draws _ _) fun found hfound => ?_
  cases found with
  | none => exact .pure .empty fun _ => Nat.zero_le _
  | some a =>
    have hdraft : ∀ place : Place, place.handle?.toList ⊆ [c.handle] →
        ({ definitions := a.definitions, body := .bind place f.2 a.getter ::
          a.setter.toList.map fun s => .bind place (f.2 ++ "=") s } : Draft).Sound
            [c.handle] [] ∧
        ({ definitions := a.definitions, body := .bind place f.2 a.getter ::
          a.setter.toList.map fun s => .bind place (f.2 ++ "=") s } : Draft).drawn =
            accessorNames (some a) := by
      intro place hplace
      refine draft_of_defines hfound hplace ?_
      refine List.forall_mem_cons.mpr ⟨⟨_, _, List.mem_cons_self, rfl⟩, ?_⟩
      refine List.forall_mem_map.mpr fun setter hsetter => ?_
      exact ⟨_, _, List.mem_cons_of_mem _ hsetter, rfl⟩
    refine .pure (hdraft _ ?_).1 fun n => ?_
    · split <;> exact List.Subset.refl _
    · rw [(hdraft _ ?_).2, List.append_nil]
      split <;> exact List.Subset.refl _

/-! ## Members of a class -/

/-- Whether certain definitions hold a director for virtual methods, if there is one. -/
def HoldsDirector (g : Setting) (others : List Definition) :
    Option (String × List Virtual) → Prop
  | none => True
  | some (name, virtuals) => ∃ d : Code.Director, .director d ∈ others ∧ d.name = name ∧
      d.overrides = virtuals.filterMap g.library.override?

/-- A virtual method that is exposed has a default member in the director that overrides it. -/
theorem provides_of_virtual {name : String} {virtuals : List Virtual}
    (hdirector : g.HoldsDirector others (some (name, virtuals))) {v : Virtual} (hv : v ∈ virtuals)
    (hmethod : (g.library.tree.get v.method).kind.isMethod)
    (hpublic : (g.library.tree.get v.method).isPublic) :
    Provides others (name ++ "::" ++ v.fallback) := by
  obtain ⟨d, hd, rfl, hoverrides⟩ := hdirector
  cases hkind : (g.library.tree.get v.method).kind with
  | method result params flags =>
    have hsome : ∃ o, g.library.override? v = some o ∧ o.fallback.member? = some v.fallback := by
      unfold Library.override?
      dsimp only
      rw [hkind]
      refine ⟨_, rfl, ?_⟩
      dsimp only
      rw [hpublic]
      unfold Library.fallbackOf
      cases flags.isPure || v.isInherited <;> simp [Code.Fallback.member?]
    obtain ⟨o, ho, hmember⟩ := hsome
    refine .member hd ?_ hmember
    rw [hoverrides]
    exact List.mem_filterMap.mpr ⟨v, hv, ho⟩
  | _ =>
    rw [hkind] at hmethod
    cases hmethod

theorem bindMethod_draws {director : Option (String × List Virtual)}
    (hdirector : g.HoldsDirector others director) {m : Named}
    (hm : (g.library.tree.get m.1).isPublic) :
    Gen.Draws [] (g.bindMethod c director m) Draft.drawn (Draft.Sound [c.handle] others) := by
  have hhandle : (some c.handle).toList ⊆ [c.handle] := List.Subset.refl _
  unfold bindMethod
  split
  next hkind =>
    split
    next name virtuals _ =>
      split
      next v hfind =>
        have hv := List.mem_of_find?_eq_some hfind
        have hmethod : v.method = m.1 := by simpa using List.find?_some hfind
        refine .pure ⟨⟨?_, ?_⟩, List.forall_mem_nil _, List.forall_mem_nil _⟩ fun _ => Nat.zero_le _
        · intro s hs
          cases List.mem_singleton.mp hs
          exact ⟨rfl, hhandle⟩
        · intro s hs target ht
          cases List.mem_singleton.mp hs
          cases ht
          refine provides_of_virtual hdirector hv ?_ ?_
          · rw [hmethod, hkind]
            rfl
          · rw [hmethod]
            exact hm
      next => exact .pure .empty fun _ => Nat.zero_le _
    next =>
      split
      · exact .mono (bindForward_draws _ _ _ hhandle) fun _ hd => hd.with_others
      · exact .mono (bindForward_draws _ _ _ hhandle) fun _ hd => hd.with_others
  next => exact .pure .empty fun _ => Nat.zero_le _

theorem paramTypes_draws (scope : DeclId) (params : List Param) :
    Run.Draws [] (params.mapM fun p => g.resolveParam scope p.ty) (fun _ => []) fun _ => True :=
  .mono (.mapM_nil params fun p _ => resolveParam_draws scope p.ty) fun _ _ => trivial

theorem bindCtor_draws (ctor : Option (List Param)) :
    Run.Draws [] (g.bindCtor c ctor) Draft.drawn (Draft.Sound [c.handle] []) := by
  cases ctor with
  | none => exact .pure .empty fun _ => Nat.zero_le _
  | some params =>
    refine .bind (paramTypes_draws _ params) fun types _ => ?_
    refine .pure ⟨.of_forall ?_, List.forall_mem_nil _, List.forall_mem_nil _⟩
      fun _ => Nat.zero_le _
    intro s hs
    cases List.mem_singleton.mp hs
    exact ⟨rfl, List.Subset.refl _, rfl⟩

theorem directorPlan_draws {name : String} (hname : Text.IsWord name) (i : DeclId)
    (cpp handle : String) (ctor : Option (List Param)) (virtuals : List Virtual) :
    Run.Draws [] (g.directorPlan name i cpp handle ctor virtuals) (fun _ => []) fun p =>
      p.Sound [handle] ∧ p.drawn = [name] ∧
        g.HoldsDirector p.definitions (some (name, virtuals)) := by
  have registered : ∀ (d : Code.Director) (types : List (List String)), d.name = name →
      d.overrides = virtuals.filterMap g.library.override? →
      let p := Draft.toPlan {
        includes := ["#include <rice/Director.hpp>"]
        definitions := [.director d]
        body := .defineDirector handle name :: types.map (.defineConstructor handle) } name none ""
      p.Sound [handle] ∧ p.drawn = [name] ∧
        g.HoldsDirector p.definitions (some (name, virtuals)) := by
    intro d types heq hoverrides p
    refine ⟨?_, ?_, d, List.mem_singleton_self _, heq, hoverrides⟩
    · refine Draft.Sound.toPlan ⟨.of_forall ?_, ?_, ?_⟩ (List.nil_subset _) _ _ _
      · refine List.forall_mem_cons.mpr ⟨⟨rfl, List.Subset.refl _, rfl⟩, ?_⟩
        exact List.forall_mem_map.mpr fun _ _ => ⟨rfl, List.Subset.refl _, rfl⟩
      · refine List.forall_mem_singleton.mpr ?_
        rw [Definition.IsNamed, heq]
        exact hname
      · exact List.forall_mem_nil _
    · have hdeclared : declaredBy (.defineDirector handle name ::
          types.map (Statement.defineConstructor handle)) = [] := by
        refine List.filterMap_eq_nil_iff.mpr (List.forall_mem_cons.mpr ⟨rfl, ?_⟩)
        exact List.forall_mem_map.mpr fun _ _ => rfl
      rw [Draft.drawn_toPlan, Draft.drawn, hdeclared, ← heq]
      rfl
  unfold directorPlan
  dsimp only
  cases ctor with
  | none => exact .pure (registered _ [] rfl rfl) fun _ => Nat.le_refl _
  | some params =>
    refine .bind (paramTypes_draws _ params) fun types _ => ?_
    rw [pure_bind]
    exact .pure (registered _ [_] rfl rfl) fun _ => Nat.zero_le _

/-! ## What is nested -/

/-- Whether planning something on its own leaves a sound plan, under the handle that it is given. -/
def NestedSound (nested : Nested) : Prop :=
  ∀ parent c, Gen.Draws [] (nested parent c) (fun p => p.toList.flatMap Plan.drawn)
    fun p => ∀ q ∈ p.toList, q.Sound parent.toList

variable {nested : Nested}

/-- A draft of a plan, if there is one. -/
theorem nested_draws (hn : NestedSound nested) (parent : Option String) (i : DeclId) :
    Gen.Draws [] (do return ({ parts := (← nested parent i).toList } : Draft)) Draft.drawn
      (Draft.Sound parent.toList []) :=
  .bind (hn parent i) fun _ hp => .pure (.of_parts hp) (count_le_held _)

/-- The headers of a draft do not matter. -/
theorem with_includes_draws {m : Gen Draft}
    (hm : Gen.Draws [] m Draft.drawn (Draft.Sound handles [])) (includes : List String) :
    Gen.Draws [] (do return { (← m) with includes }) Draft.drawn (Draft.Sound handles []) :=
  .bind hm fun _ hd => .pure (hd.with_includes includes) (count_le_held _)

theorem bindAdopted_draws (m : Named) :
    Gen.Draws [] (g.bindAdopted c m) Draft.drawn (Draft.Sound [c.handle] []) := by
  unfold bindAdopted
  dsimp only
  refine with_includes_draws (bindForward_draws _ _ _ ?_) _
  split
  · split <;> exact List.Subset.refl _
  · split <;> exact List.Subset.refl _

theorem bindInside_draws (hn : NestedSound nested) (adopted : List Named) (i : DeclId) :
    Gen.Draws [] (g.bindInside nested c adopted i) Draft.drawn
      (Draft.Sound [c.handle] []) := by
  unfold bindInside
  dsimp only
  split
  · exact nested_draws hn (some c.handle) i
  · split
    · exact bindAdopted_draws _
    · exact .pure .empty fun _ => Nat.zero_le _

/-- Hand-written code declares and binds nothing that is known of. -/
theorem draft_of_custom (handles definitions statements : List String)
    (change : String → String) :
    let d : Draft := {
      definitions := definitions.map .custom
      body := statements.map fun text => .custom (change text) }
    d.Sound handles [] ∧ d.drawn = [] := by
  refine ⟨⟨.of_forall ?_, ?_, List.forall_mem_nil _⟩, ?_⟩
  · exact List.forall_mem_map.mpr fun _ _ => ⟨rfl, List.nil_subset _, rfl⟩
  · exact List.forall_mem_map.mpr fun _ _ => trivial
  · have hbody : declaredBy (statements.map fun text => Statement.custom (change text)) = [] :=
      List.filterMap_eq_nil_iff.mpr (List.forall_mem_map.mpr fun _ _ => rfl)
    have hdefinitions : (definitions.map Definition.custom).filterMap Definition.drawn? = [] :=
      List.filterMap_eq_nil_iff.mpr (List.forall_mem_map.mpr fun _ _ => rfl)
    rw [Draft.drawn, hbody, hdefinitions]
    rfl

/-- Binding what a class holds, and putting everything together, where the names for the class and
for its constructor were drawn before. -/
theorem classMembers_draws (hn : NestedSound nested) (c : Target) {held : List String}
    {director : Option (String × List Virtual)} (hdirector : g.HoldsDirector others director)
    {construct custom : Draft} (hconstruct : construct.Sound [c.handle] others)
    (hothers : others ⊆ construct.parts.flatMap Plan.definitions)
    (hcustom : custom.Sound [c.handle] []) (hnone : custom.drawn = [])
    {first : Statement} (hfirst : first.declared? = some c.handle)
    (hused : first.used ⊆ handles)
    (hheld : ∀ n, [c.handle].count n + construct.drawn.count n ≤ held.count n)
    (includes : List String) (name : String) :
    Gen.Draws held
      (do
        let methods ← (g.library.members c.id).methods.mapM (g.bindMethod c director)
        let fields ← (g.library.members c.id).fields.mapM fun f =>
          (liftM (g.bindField c f) : Gen Draft)
        let inside ← (g.library.exposed c.id ++ g.library.adopted c.id).mapM
          (g.bindInside nested c (g.library.members c.id).adopted)
        let draft := Draft.join ([{ includes, body := [first] }, construct] ++ methods ++ fields ++
          inside ++ [custom])
        return draft.toPlan name (some c.id) c.handle)
      Plan.drawn (Plan.Sound handles) := by
  have hpublic : ∀ m ∈ (g.library.members c.id).methods, (g.library.tree.get m.1).isPublic := by
    intro m hm
    have hexposed := (List.mem_filter.mp (mem_exposed_of_mem_methods hm)).2
    simp only [Library.isExposed, Bool.and_eq_true] at hexposed
    exact hexposed.2
  refine .bind (.mapM _ fun m hm => bindMethod_draws hdirector (hpublic m hm)) fun methods hms => ?_
  refine .bind (.mapM _ fun f _ => .lift (bindField_draws f)) fun fields hfs => ?_
  refine .bind (.mapM _ fun i _ => bindInside_draws hn _ i) fun inside his => ?_
  -- The first statement stands in front of what all the others are joined to.
  have hsplit : Draft.join ([{ includes, body := [first] }, construct] ++ methods ++ fields ++
      inside ++ [custom]) = { includes, body := [first] } ++
        Draft.join ([construct] ++ methods ++ fields ++ inside ++ [custom]) := rfl
  have hsound : (Draft.join ([construct] ++ methods ++ fields ++ inside ++ [custom])).Sound
      [c.handle] others := by
    refine .join fun d hd => ?_
    simp only [List.mem_append, List.mem_singleton] at hd
    rcases hd with (((rfl | hd) | hd) | hd) | rfl
    · exact hconstruct
    · exact hms d hd
    · exact (hfs d hd).with_others
    · exact (his d hd).with_others
    · exact hcustom.with_others
  rw [hsplit]
  refine .pure ?_ fun n => ?_
  · refine hsound.toPlan_holder ?_ first ?_ ?_ ?_ hfirst hused _ _ _
    · rw [Draft.parts_join, List.append_assoc, List.append_assoc, List.append_assoc,
        List.singleton_append, List.flatMap_cons, List.flatMap_append]
      exact List.subset_append_of_subset_left _ hothers
    all_goals rfl
  · have hn := hheld n
    have hhead : ({ includes, body := [first] } : Draft).drawn = [c.handle] := by
      simp [Draft.drawn, declaredBy, hfirst]
    rw [Draft.drawn_toPlan, Draft.count_drawn_append, Draft.count_drawn_join, hhead]
    simp only [List.flatMap_append, List.flatMap_cons, List.flatMap_nil, List.count_append,
      List.append_nil, hnone]
    omega

theorem classPlan_draws (hn : NestedSound nested) (parent : Option String) (i : DeclId) :
    Gen.Draws [] (g.classPlan nested parent i) Plan.drawn (Plan.Sound parent.toList) := by
  unfold classPlan
  dsimp only
  refine .bind (Q := fun _ => True) (.except fun _ _ => trivial) fun superclass _ => ?_
  refine .bind (.lift (freshName_draws _)) fun handle _ => ?_
  split
  · -- Without virtual methods, the class itself is constructed.
    refine .bind (.lift (bindCtor_draws _)) fun construct hconstruct => ?_
    rw [pure_bind]
    obtain ⟨hcustom, hnone⟩ := draft_of_custom [handle] _ _ _
    have hdirector : g.HoldsDirector [] none := trivial
    refine classMembers_draws hn ⟨i, _, handle⟩ hdirector hconstruct (List.nil_subset _) hcustom
      hnone rfl (List.Subset.refl _) (fun n => ?_) _ _
    simp only [List.count_append, List.append_nil]
    omega
  · -- With virtual methods, the class has a director, which is constructed in its place.
    refine .bind (.lift (freshName_draws _)) fun name hname => ?_
    have hword : Text.IsWord name := by
      obtain ⟨k, rfl⟩ := hname
      exact Fresh.isWord_numbered ((isWord_identifier _).append (by decide)) k
    refine .bind (.lift (directorPlan_draws hword _ _ _ _ _)) fun plan hplan => ?_
    rw [pure_bind]
    obtain ⟨hsound, hdrawn, hdirector⟩ := hplan
    obtain ⟨hcustom, hnone⟩ := draft_of_custom [handle] _ _ _
    refine classMembers_draws hn ⟨i, _, handle⟩ hdirector
      (.of_parts (List.forall_mem_singleton.mpr hsound)) (by simp) hcustom hnone
      rfl (List.Subset.refl _) (fun n => ?_) _ _
    have hconstruct : ({ parts := [plan] } : Draft).drawn = [name] := by
      rw [← hdrawn]
      exact List.append_nil _
    simp only [hconstruct, List.count_append, List.append_nil, List.nil_append]
    omega

/-! ## Enumerations and namespaces -/

theorem enumPlan_draws (parent : Option String) (i : DeclId) :
    Run.Draws [] (g.enumPlan parent i) Plan.drawn (Plan.Sound parent.toList) := by
  unfold enumPlan
  dsimp only
  split
  next isScoped values hkind =>
    refine .bind (freshName_draws _) fun handle _ => ?_
    generalize hbody : (values.map fun v : Enumerator => Statement.defineValue handle
      (constantName v.name) (g.library.enumeratorName i isScoped v.name)) = body
    have hplain : ∀ s ∈ body, s.declared? = none ∧ s.used ⊆ [handle] ∧ s.target? = none := by
      rw [← hbody]
      exact List.forall_mem_map.mpr fun _ _ => ⟨rfl, List.Subset.refl _, rfl⟩
    have hsound : Draft.Sound [handle] [] { body } :=
      ⟨.of_forall hplain, List.forall_mem_nil _, List.forall_mem_nil _⟩
    refine .pure ?_ fun n => ?_
    · refine hsound.toPlan_holder (List.nil_subset _) (.defineEnum handle
        (g.library.tree.qualifiedName i) parent
        (constantName ((g.library.renamed? i).getD (g.library.tree.get i).name))) ?_ ?_ ?_ rfl
        (List.Subset.refl _) _ _ _
      all_goals rfl
    · have hdeclared : declaredBy body = [] :=
        List.filterMap_eq_nil_iff.mpr fun s hs => (hplain s hs).1
      rw [Draft.drawn_toPlan, Draft.drawn, declaredBy_cons, hdeclared]
      exact Nat.le_refl _
  next => exact .pure (Draft.Sound.empty.toPlan (List.nil_subset _) _ _ _) fun _ => Nat.zero_le _

theorem bindHeld_draws (holder : Holder) (f : Named) :
    Gen.Draws [] (g.bindHeld holder f) Draft.drawn (Draft.Sound holder.handle?.toList []) := by
  unfold bindHeld
  refine with_includes_draws (bindForward_draws _ _ _ ?_) _
  cases holder <;> exact List.Subset.refl _

theorem bindItem_draws (hn : NestedSound nested) (holder : Holder) (functions : List Named)
    (i : DeclId) :
    Gen.Draws [] (g.bindItem nested holder functions i) Draft.drawn
      (Draft.Sound holder.handle?.toList []) := by
  unfold bindItem
  split
  · split
    · exact bindHeld_draws holder _
    · exact .pure .empty fun _ => Nat.zero_le _
  · split
    · exact bindHeld_draws holder _
    · exact .pure .empty fun _ => Nat.zero_le _
  · refine .bind .getSession fun s _ => ?_
    split
    · exact .pure .empty fun _ => Nat.zero_le _
    · exact nested_draws hn holder.handle? i
  · exact nested_draws hn holder.handle? i

theorem bindNamespace_draws (hn : NestedSound nested) (holder : Holder) (ns : DeclId) :
    Gen.Draws [] (g.bindNamespace nested holder ns) Draft.drawn
      (Draft.Sound holder.handle?.toList []) := by
  refine .bind (.mapM _ fun i _ => bindItem_draws hn holder _ i) fun ds hds => ?_
  refine .pure (.join hds) fun n => ?_
  rw [Draft.count_drawn_join, List.append_nil]

/-- The start of a module's plan declares the handle of the module, and is all that declares it. -/
theorem openModule_draws (name ruby : String) (parent : Option String) :
    Run.Draws [] (openModule name ruby parent) (fun opened => [opened.1]) fun opened =>
      opened.2.body = [.defineModule opened.1 ruby parent] ∧ opened.2.definitions = [] ∧
        opened.2.parts = [] :=
  .bind (freshName_draws _) fun _ _ => .pure ⟨rfl, rfl, rfl⟩ (count_le_held _)

/-- A module with what is inside it. -/
theorem moduleDraft_sound {handle ruby : String} {parent : Option String} {head d : Draft}
    (hhead : head.body = [.defineModule handle ruby parent] ∧ head.definitions = [] ∧
      head.parts = []) (hd : d.Sound [handle] []) (name : String) (node : Option DeclId) :
    ((head ++ d).toPlan name node handle).Sound parent.toList ∧
      ∀ n, ((head ++ d).toPlan name node handle).drawn.count n =
        [handle].count n + d.drawn.count n := by
  obtain ⟨hbody, hdefinitions, hparts⟩ := hhead
  constructor
  · refine hd.toPlan_holder (List.nil_subset _) (.defineModule handle ruby parent) ?_ ?_ ?_ rfl
      (List.Subset.refl _) _ _ _
    · rw [Draft.body_append, hbody, List.singleton_append]
    · rw [Draft.definitions_append, hdefinitions, List.nil_append]
    · rw [Draft.parts_append, hparts, List.nil_append]
  · intro n
    have hdrawn : head.drawn = [handle] := by
      rw [Draft.drawn, hbody, hdefinitions, hparts]
      rfl
    rw [Draft.drawn_toPlan, Draft.count_drawn_append, hdrawn]

theorem namespacePlan_draws (hn : NestedSound nested) (parent : Option String) (ns : DeclId) :
    Gen.Draws [] (g.namespacePlan nested parent ns) Plan.drawn (Plan.Sound parent.toList) := by
  unfold namespacePlan
  dsimp only
  refine .bind (.lift (openModule_draws _ _ _)) fun opened hopened => ?_
  refine .bind (bindNamespace_draws hn (.moduleAt opened.1) ns) fun inside hinside => ?_
  obtain ⟨hsound, hcount⟩ := moduleDraft_sound hopened hinside _ _
  refine .pure hsound fun n => ?_
  rw [hcount, List.count_append, List.append_nil]
  omega

/-! ## The walk -/

theorem planOf_draws (unplanned : List DeclId) : NestedSound (g.planOf unplanned) := by
  -- By induction on how much is left to be planned; the cases are those of `planOf`.
  induction hn : unplanned.length using Nat.strongRecOn generalizing unplanned with
  | ind n ih =>
    subst hn
    intro parent i
    have hnone : ∀ q ∈ (none : Option Plan).toList, q.Sound parent.toList := List.forall_mem_nil _
    have hsome : ∀ p : Plan, p.Sound parent.toList →
        ∀ q ∈ (some p).toList, q.Sound parent.toList :=
      fun p hp => List.forall_mem_singleton.mpr hp
    have hcount : ∀ (p : Plan) (n : String),
        ((some p).toList.flatMap Plan.drawn).count n ≤ p.drawn.count n := by
      intro p n
      rw [Option.toList_some, List.flatMap_singleton]
    rw [planOf]
    dsimp only
    split
    · exact .pure hnone fun _ => Nat.le_refl _
    split
    · refine .bind (.lift (enumPlan_draws parent i)) fun p hp => .pure (hsome p hp) fun n => ?_
      rw [List.append_nil]
      exact hcount p n
    split
    · split
      next hi =>
        have hnested : NestedSound (g.planOf (unplanned.erase i)) := by
          refine ih _ ?_ _ rfl
          have := List.length_erase_of_mem hi
          have := List.length_pos_of_mem hi
          omega
        split
        · exact .map (classPlan_draws hnested parent i) hsome hcount
        · exact .map (namespacePlan_draws hnested parent i) hsome hcount
      next => exact .throw _
    · exact .pure hnone fun _ => Nat.le_refl _

mutual

theorem modulePlan_draws (parent : Option String) (m : ModuleSpec) :
    Gen.Draws [] (g.modulePlan parent m) Plan.drawn (Plan.Sound parent.toList) := by
  obtain ⟨name, nspace, modules⟩ := m
  rw [modulePlan]
  refine .bind (.lift (openModule_draws _ _ _)) fun opened hopened => ?_
  have rest : ∀ inside : Draft, inside.Sound [opened.1] [] →
      Gen.Draws (inside.drawn ++ [opened.1]) (do
        let submodules ← g.modulePlans (some opened.1) modules
        return (opened.2 ++ inside ++ ({ parts := submodules } : Draft)).toPlan name nspace
          opened.1) Plan.drawn (Plan.Sound parent.toList) := by
    intro inside hinside
    refine .bind (modulePlans_draws (some opened.1) modules) fun ps hps => ?_
    obtain ⟨hsound, hcount⟩ := moduleDraft_sound hopened
      (hinside.append (.of_parts hps)) name nspace
    rw [Draft.append_assoc]
    refine .pure hsound fun n => ?_
    rw [hcount, Draft.count_drawn_append, List.count_append, List.count_append]
    have hparts : ({ parts := ps } : Draft).drawn = ps.flatMap Plan.drawn := rfl
    rw [hparts]
    omega
  cases nspace with
  | none => exact rest {} .empty
  | some ns =>
    exact .bind (bindNamespace_draws (planOf_draws _) (.moduleAt opened.1) ns) fun inside hinside =>
      rest inside hinside

theorem modulePlans_draws (parent : Option String) (ms : List ModuleSpec) :
    Gen.Draws [] (g.modulePlans parent ms) (List.flatMap Plan.drawn)
      fun ps => ∀ p ∈ ps, p.Sound parent.toList := by
  cases ms with
  | nil =>
    rw [modulePlans]
    exact .pure (List.forall_mem_nil _) fun _ => Nat.le_refl _
  | cons m ms =>
    rw [modulePlans]
    refine .bind (modulePlan_draws parent m) fun p hp => ?_
    refine .bind (modulePlans_draws parent ms) fun ps hps => ?_
    refine .pure (List.forall_mem_cons.mpr ⟨hp, hps⟩) fun n => ?_
    simp only [List.flatMap_cons, List.count_append, List.append_nil]
    omega

end

/-! ## Extensions -/

theorem claims_draws (namespaces : List DeclId) :
    Gen.Draws [] (namespaces.forM fun ns => (liftM (claim ns) : Gen Unit)) (fun _ => [])
      fun _ => True := by
  induction namespaces with
  | nil => exact .pure trivial fun _ => Nat.le_refl _
  | cons ns namespaces ih =>
    have hclaim : Gen.Draws [] (liftM (claim ns)) (fun _ => []) fun _ => True :=
      .lift (.of_names (fun _ => rfl) fun _ => trivial)
    exact .bind hclaim fun _ _ => ih

theorem extension_draws (name : String) (ns : Option DeclId) (modules : List ModuleSpec) :
    Gen.Draws [] (g.extension name ns modules) (fun e => e.plan.drawn) Extension.Sound := by
  unfold extension
  dsimp only
  refine .bind (claims_draws _) fun _ _ => ?_
  have rest : ∀ inside : Draft, inside.Sound [] [] → Gen.Draws (inside.drawn ++ []) (do
      let submodules ← g.modulePlans none modules
      let draft := ({
        includes := "#include <rice/Class.hpp>" :: g.furtherIncludes
        body := [.frame "extern \"C\"", .frame ("void Init_" ++ name ++ "() \x7b")] } : Draft) ++
          inside ++ { body := [.frame "\x7d"], parts := submodules }
      return (⟨⟨name, none, "", draft.includes, draft.definitions, draft.body⟩, draft.parts⟩ :
        Extension)) (fun e => e.plan.drawn) Extension.Sound := by
    intro inside hinside
    refine .bind (modulePlans_draws none modules) fun ps hps => ?_
    have hframe : ∀ lines : List String, ∀ s ∈ lines.map Statement.frame,
        s.declared? = none ∧ s.used ⊆ [] ∧ s.target? = none := fun lines =>
      List.forall_mem_map.mpr fun _ _ => ⟨rfl, List.Subset.refl _, rfl⟩
    have hsound : Draft.Sound [] [] (({
        includes := "#include <rice/Class.hpp>" :: g.furtherIncludes
        body := [.frame "extern \"C\"", .frame ("void Init_" ++ name ++ "() \x7b")] } : Draft) ++
          inside ++ { body := [.frame "\x7d"], parts := ps }) := by
      refine (Draft.Sound.append ⟨.of_forall ?_, List.forall_mem_nil _, List.forall_mem_nil _⟩
        hinside).append ⟨.of_forall ?_, List.forall_mem_nil _, hps⟩
      · exact hframe ["extern \"C\"", "void Init_" ++ name ++ "() \x7b"]
      · exact hframe ["\x7d"]
    refine .pure ⟨hsound.body.mono ?_, hsound.named, hsound.parts⟩ fun n => ?_
    · rw [List.append_nil]
      exact List.Subset.refl _
    · change (Draft.toPlan _ name none "").drawn.count n ≤ _
      have hhead : ({
          includes := "#include <rice/Class.hpp>" :: g.furtherIncludes
          body := [.frame "extern \"C\"", .frame ("void Init_" ++ name ++ "() \x7b")] } :
            Draft).drawn = [] := rfl
      have hparts : ({ body := [.frame "\x7d"], parts := ps } : Draft).drawn =
        ps.flatMap Plan.drawn := rfl
      rw [Draft.drawn_toPlan, Draft.count_drawn_append, Draft.count_drawn_append, hhead, hparts,
        List.append_nil, List.count_append, List.count_nil]
      omega
  cases ns with
  | none => exact rest {} .empty
  | some ns =>
    exact .bind (bindNamespace_draws (planOf_draws _) .program ns) fun inside hinside =>
      rest inside hinside

end Setting

end RubyBinding
