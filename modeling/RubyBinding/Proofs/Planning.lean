import Mathlib.Logic.Relation
import RubyBinding.Proofs.Steps

/-!
# What the planner yields

* `planOf_yields`: the planner yields plans of the shape that `PlanFor` says, and it fails with a
  loop only where declarations are bound in one another in a loop;
* `extension_yields`: so does an extension, whatever modules it declares;
* `namespaceExtension_yields`: the parts of an extension for one namespace.
-/

namespace RubyBinding

open Code (Definition)

namespace Setting

variable {g : Setting} {claimed : List DeclId} {E : GenError → Prop}

/-! ## The walk -/

variable {i : DeclId}

/-- How the planner may fail. -/
def FailsWell (g : Setting) (e : GenError) : Prop := e.isLoop = true → g.library.Loops

theorem failsWell_of_isLoop {e : GenError} (h : e.isLoop = false) : FailsWell g e := by
  intro hloop
  rw [h] at hloop
  cases hloop

theorem contents_sublist_bound (i : DeclId) : (g.contents i).Sublist (g.library.bound i) := by
  unfold contents namespaceItems
  split
  · split
    · exact (List.filter_sublist).append_right _
    · exact List.Sublist.refl _
  · exact List.Sublist.refl _

theorem boundIn_of_mem_contents (hw : g.library.tree.WellFormed) (hm : g.library.MovesSound)
    {c : DeclId} (hc : c ∈ g.contents i) : g.library.BoundIn c i :=
  ((Library.mem_bound_iff hw hm).mp ((contents_sublist_bound i).subset hc)).2

/-- A holder whose parts are planned while the holder itself is left out. -/
theorem HolderPlan.planFor {unplanned : List DeclId} {p : Plan}
    (h : HolderPlan g claimed (g.PlanFor claimed (unplanned.erase i)) i p)
    (hkind : g.library.isHolder i) (hi : i ∈ unplanned) : g.PlanFor claimed unplanned i p := by
  obtain ⟨r, directors, parts, rfl, hr, hdirectors, hparts⟩ := h
  obtain ⟨hlength, hzip⟩ := List.forall₂_iff_zip.mp hparts
  exact .holder hkind hi hr hdirectors hlength fun c p hcp => hzip hcp

/-- What is planned inside `i` is bound in `i`, and so in everything that is not left to be
planned. -/
theorem around_of_mem_contents (hw : g.library.tree.WellFormed) (hm : g.library.MovesSound)
    {unplanned : List DeclId}
    (hout : ∀ j < g.library.tree.size, j ∉ unplanned → Relation.TransGen g.library.BoundIn i j)
    {c : DeclId} (hc : c ∈ g.contents i) :
    ∀ j < g.library.tree.size, j ∉ unplanned.erase i →
      Relation.TransGen g.library.BoundIn c j := by
  have hci := boundIn_of_mem_contents hw hm hc
  intro j hj hjout
  by_cases hji : j = i
  · rw [hji]
    exact .single hci
  · have hjout' : j ∉ unplanned := by
      intro hmem
      exact hjout ((List.mem_erase_of_ne hji).mpr hmem)
    exact .head hci (hout j hj hjout')

theorem isPlannable_of_isHolder (hname : ¬ (g.library.tree.get i).name.isEmpty = true)
    (hkind : g.library.isHolder i) : g.library.isPlannable i = true := by
  rcases Bool.or_eq_true_iff.mp hkind with hrecord | hns
  · simp [Library.isPlannable, hname, hrecord]
  · simp [Library.isPlannable, hname, hns]

/-- One step of the walk: a class or namespace that is left to be planned, where what it holds is
planned without it. -/
theorem holder_yields (hE : ∀ e, e.isLoop = false → E e) {nested : Nested}
    {unplanned : List DeclId} (parent : Option String)
    (hname : ¬ (g.library.tree.get i).name.isEmpty = true) (hkind : g.library.isHolder i)
    (hi : i ∈ unplanned)
    (hn : ∀ c ∈ g.contents i, ∀ parent, Gen.Yields (Claims claimed) (nested parent c)
      (PlansAs g (g.PlanFor claimed (unplanned.erase i)) c) E) :
    Gen.Yields (Claims claimed)
      (if (g.library.tree.get i).isRecord then some <$> g.classPlan nested parent i
        else some <$> g.namespacePlan nested parent i)
      (PlansAs g (g.PlanFor claimed unplanned) i) E := by
  have hplans : ∀ p, HolderPlan g claimed (g.PlanFor claimed (unplanned.erase i)) i p →
      PlansAs g (g.PlanFor claimed unplanned) i (some p) := by
    intro p hp
    refine ⟨?_, ?_⟩
    · rw [isPlannable_of_isHolder hname hkind]
      rfl
    · rintro q ⟨⟩
      exact hp.planFor hkind hi
  split
  · next hrecord => exact .map (classPlan_yields hE parent hrecord hn) hplans
  · next hrecord =>
    have hns : (g.library.tree.get i).isNamespace :=
      (Bool.or_eq_true_iff.mp hkind).resolve_left hrecord
    exact .map (namespacePlan_yields hE parent hns hn) hplans

/-- **The planner yields plans of the right shape.** What is known of the way to a declaration, and
of what is left to be planned there, goes on with each step; it tells how the walk may fail where it
meets something that is not left. -/
theorem planOf_yields_along (hE : ∀ e, e.isLoop = false → E e)
    (Along : List DeclId → DeclId → Prop)
    (hstep : ∀ {unplanned i c}, Along unplanned i → c ∈ g.contents i →
      Along (unplanned.erase i) c)
    (hloop : ∀ {unplanned i}, Along unplanned i → i < g.library.tree.size → i ∉ unplanned →
      E (.ownershipCycle (g.library.tree.qualifiedName i)))
    (unplanned : List DeclId) (parent : Option String) (i : DeclId) (h : Along unplanned i) :
    Gen.Yields (Claims claimed) (g.planOf unplanned parent i)
      (PlansAs g (g.PlanFor claimed unplanned) i) E := by
  -- By induction on how much is left to be planned; the cases are those of `planOf`.
  induction hn : unplanned.length using Nat.strongRecOn generalizing unplanned parent i with
  | ind n ih =>
    subst hn
    rw [planOf]
    dsimp only
    split
    · next hname =>
      refine .pure ⟨?_, fun _ h => nomatch h⟩
      simp [Library.isPlannable, hname]
    · next hname =>
      split
      · next henum =>
        refine .bind (.lift (enumPlan_yields parent henum)) fun p hp => .pure ⟨?_, ?_⟩
        · simp [Library.isPlannable, hname, henum]
        · rintro q ⟨⟩
          obtain ⟨r, rfl, hr⟩ := hp
          exact .enumeration henum hr
      · next henum =>
        split
        · next hkind =>
          split
          · next hi =>
            refine holder_yields hE parent hname hkind hi ?_
            intro c hc parent
            refine ih _ ?_ _ parent c (hstep h hc) rfl
            have := List.length_erase_of_mem hi
            have := List.length_pos_of_mem hi
            omega
          · next hi =>
            refine .throw (hloop h (Nat.lt_of_not_le fun hle => hname ?_) hi)
            rw [DeclTree.get_of_size_le hle]
            rfl
        · next hkind =>
          refine .pure ⟨?_, fun _ h => nomatch h⟩
          simp_all [Library.isPlannable]

/-- Where everything that is not left to be planned is around the declaration, meeting one of those
again is a loop. -/
theorem planOf_yields (hw : g.library.tree.WellFormed) (hm : g.library.MovesSound)
    (unplanned : List DeclId) (parent : Option String) (i : DeclId)
    (hout : ∀ j < g.library.tree.size, j ∉ unplanned → Relation.TransGen g.library.BoundIn i j) :
    Gen.Yields (Claims claimed) (g.planOf unplanned parent i)
      (PlansAs g (g.PlanFor claimed unplanned) i) (FailsWell g) := by
  refine planOf_yields_along (fun _ => failsWell_of_isLoop) (fun unplanned i =>
    ∀ j < g.library.tree.size, j ∉ unplanned → Relation.TransGen g.library.BoundIn i j) ?_ ?_
    unplanned parent i hout
  · intro unplanned i c hout hc
    exact around_of_mem_contents hw hm hout hc
  · -- The declaration is around itself.
    intro unplanned i hout hi hmem _
    exact ⟨i, hout i hi hmem⟩

/-! ## Extensions -/

/-- Where nothing is being planned, nothing is around. -/
theorem plan_yields (hw : g.library.tree.WellFormed) (hm : g.library.MovesSound)
    (parent : Option String) (i : DeclId) :
    Gen.Yields (Claims claimed) (g.plan parent i)
      (PlansAs g (g.PlanFor claimed g.library.tree.ids) i) (FailsWell g) := by
  refine planOf_yields hw hm _ parent i ?_
  intro j hj hout
  exact absurd (List.mem_range.mpr hj) hout

/-- What the walk through a namespace adds to a draft, where nothing else is being planned. -/
abbrev SectionFor (g : Setting) (claimed : List DeclId) (ns : DeclId) (d : Draft) : Prop :=
  NamespaceDraft g claimed (g.PlanFor claimed g.library.tree.ids) ns d

theorem section_yields (hw : g.library.tree.WellFormed) (hm : g.library.MovesSound)
    (holder : Holder) (ns : DeclId) :
    Gen.Yields (Claims claimed) (g.bindNamespace g.plan holder ns) (g.SectionFor claimed ns)
      (FailsWell g) :=
  bindNamespace_yields (fun _ => failsWell_of_isLoop) holder
    fun c _ parent => plan_yields hw hm parent c

/-- What a module holds besides its own modules: the section of its namespace, if it is for one. -/
def InsideFor (g : Setting) (claimed : List DeclId) : Option DeclId → Draft → Prop
  | none, d => d = {}
  | some ns, d => g.SectionFor claimed ns d

/-- What some regions are made of: frames, which are the regions of modules and of the extension,
and the sections of the namespaces `held`. The frames are for the declarations `nodes`. -/
structure Composition (g : Setting) (claimed nodes held : List DeclId) (frames : List Region)
    (sections : List Draft) (rs : List Region) : Prop where
  each : List.Forall₂ (g.SectionFor claimed) held sections
  regions : rs.Perm (frames ++ sections.flatMap fun d => d.parts.flatMap Plan.regions)
  nodes : frames.filterMap Region.node = nodes
  wrapped : frames.flatMap Region.wrapped = sections.flatMap Draft.wrapped
  opens : ∀ r ∈ frames, g.OpensSoundly r

/-- What lies in a section is planned. -/
theorem Composition.exists_planFor {nodes held : List DeclId} {frames : List Region}
    {sections : List Draft} {rs : List Region}
    (h : g.Composition claimed nodes held frames sections rs) {d : Draft} (hd : d ∈ sections)
    {p : Plan} (hp : p ∈ d.parts) : ∃ c, g.PlanFor claimed g.library.tree.ids c p := by
  obtain ⟨o, -, hsection⟩ := exists_of_forall₂ h.each hd
  obtain ⟨c, -, hplan⟩ := exists_of_forall₂ (NamespaceDraft.parts hsection) hp
  exact ⟨c, hplan⟩

/-- Regions that are frames for certain declarations and the sections of certain namespaces. -/
def Composed (g : Setting) (claimed nodes held : List DeclId) (rs : List Region) : Prop :=
  ∃ frames sections, g.Composition claimed nodes held frames sections rs

namespace Composed

variable {nodes nodes' held held' : List DeclId} {rs rs' : List Region}

theorem empty : g.Composed claimed [] [] [] :=
  ⟨[], [], .nil, .nil, rfl, rfl, fun _ h => nomatch h⟩

theorem append (h : g.Composed claimed nodes held rs) (h' : g.Composed claimed nodes' held' rs') :
    g.Composed claimed (nodes ++ nodes') (held ++ held') (rs ++ rs') := by
  obtain ⟨frames, sections, h⟩ := h
  obtain ⟨frames', sections', h'⟩ := h'
  refine ⟨frames ++ frames', sections ++ sections', ?_, ?_, ?_, ?_, ?_⟩
  · exact List.rel_append h.each h'.each
  · refine (h.regions.append h'.regions).trans ?_
    rw [List.flatMap_append, List.append_assoc, List.append_assoc]
    refine List.Perm.append_left _ ?_
    rw [← List.append_assoc, ← List.append_assoc]
    exact List.perm_append_comm.append_right _
  · rw [List.filterMap_append, h.nodes, h'.nodes]
  · rw [List.flatMap_append, List.flatMap_append, h.wrapped, h'.wrapped]
  · exact List.forall_mem_append.mpr ⟨h.opens, h'.opens⟩

/-- A frame around what it holds. -/
theorem frame {r : Region} {nspace : Option DeclId} {inside : Draft} {ps : List Plan}
    (h : g.Composed claimed nodes held (Plan.regionsOf ps))
    (hinside : g.InsideFor claimed nspace inside) (hwrapped : r.wrapped = inside.wrapped)
    (hopens : g.OpensSoundly r) :
    g.Composed claimed (r.node.toList ++ nodes) (nspace.toList ++ held)
      (Plan.region r (inside.parts ++ ps)).regions := by
  obtain ⟨frames, sections, h⟩ := h
  have hnodes : (r :: frames).filterMap Region.node = r.node.toList ++ nodes := by
    rw [List.filterMap_cons, h.nodes]
    cases r.node <;> rfl
  have hregions : (Plan.region r (inside.parts ++ ps)).regions.Perm
      (r :: frames ++ (inside.parts.flatMap Plan.regions ++
        sections.flatMap fun d => d.parts.flatMap Plan.regions)) := by
    rw [Plan.regions, Plan.regionsOf_eq_flatMap, List.flatMap_append,
      ← Plan.regionsOf_eq_flatMap ps, List.cons_append]
    refine List.Perm.cons r ((h.regions.append_left _).trans ?_)
    rw [← List.append_assoc, ← List.append_assoc]
    exact List.perm_append_comm.append_right _
  have hopens' : ∀ r' ∈ r :: frames, g.OpensSoundly r' :=
    List.forall_mem_cons.mpr ⟨hopens, h.opens⟩
  cases nspace with
  | none =>
    cases hinside
    exact ⟨r :: frames, sections, h.each, hregions, hnodes,
      by rw [List.flatMap_cons, hwrapped, h.wrapped]; rfl, hopens'⟩
  | some ns =>
    exact ⟨r :: frames, inside :: sections, .cons hinside h.each, hregions, hnodes,
      by rw [List.flatMap_cons, List.flatMap_cons, hwrapped, h.wrapped], hopens'⟩

/-- Whatever region begins by defining a class, it is the region of that class. -/
theorem opensSoundly (h : g.Composed claimed nodes held rs) : ∀ r ∈ rs, g.OpensSoundly r := by
  obtain ⟨frames, sections, h⟩ := h
  intro r hr
  rcases List.mem_append.mp (h.regions.mem_iff.mp hr) with hr | hr
  · exact h.opens r hr
  · obtain ⟨d, hd, hr⟩ := List.mem_flatMap.mp hr
    obtain ⟨p, hp, hr⟩ := List.mem_flatMap.mp hr
    obtain ⟨c, hplan⟩ := h.exists_planFor hd hp
    exact hplan.opensSoundly r hr

end Composed

mutual

/-- **A module is a frame** around the section of its namespace and its own modules. -/
theorem modulePlan_composed (hw : g.library.tree.WellFormed) (hm : g.library.MovesSound)
    (parent : Option String) (m : ModuleSpec) :
    Gen.Yields (Claims claimed) (g.modulePlan parent m)
      (fun p => g.Composed claimed m.namespaces m.namespaces p.regions) (FailsWell g) := by
  obtain ⟨name, nspace, modules⟩ := m
  rw [modulePlan, ModuleSpec.namespaces]
  refine .bind (.lift (openModule_yields _ _ _)) fun opened hopened => ?_
  obtain ⟨handle, head⟩ := opened
  dsimp only at hopened
  subst hopened
  have rest : ∀ inside : Draft, g.InsideFor claimed nspace inside →
      Gen.Yields (Claims claimed) (do
        let submodules ← g.modulePlans (some handle) modules
        return ((({
          includes := ["#include <rice/Module.hpp>"]
          body := [.defineModule handle (constantName name) parent] } : Draft) ++ inside ++
            { parts := submodules }).toPlan name nspace handle))
        (fun p => g.Composed claimed (nspace.toList ++ ModuleSpec.namespacesOf modules)
          (nspace.toList ++ ModuleSpec.namespacesOf modules) p.regions) (FailsWell g) := by
    intro inside hinside
    refine .bind (modulePlans_composed hw hm (some handle) modules) fun ps hps => .pure ?_
    have hframe : ∀ r : Region, r.wrapped = inside.wrapped → g.OpensSoundly r →
        g.Composed claimed (r.node.toList ++ ModuleSpec.namespacesOf modules)
          (nspace.toList ++ ModuleSpec.namespacesOf modules)
          (Plan.region r (inside.parts ++ ps)).regions := fun r => hps.frame hinside
    refine hframe ⟨name, nspace, handle, _, _, _⟩ ?_ ?_
    · show ([] ++ inside.definitions ++ []).filterMap Definition.wraps? = inside.wrapped
      rw [List.append_nil]
      rfl
    · exact opensSoundly_of_defineModule rfl
  cases nspace with
  | none => exact rest {} rfl
  | some ns => exact .bind (section_yields hw hm _ ns) rest

theorem modulePlans_composed (hw : g.library.tree.WellFormed) (hm : g.library.MovesSound)
    (parent : Option String) (ms : List ModuleSpec) :
    Gen.Yields (Claims claimed) (g.modulePlans parent ms)
      (fun ps => g.Composed claimed (ModuleSpec.namespacesOf ms) (ModuleSpec.namespacesOf ms)
        (Plan.regionsOf ps)) (FailsWell g) := by
  cases ms with
  | nil =>
    rw [modulePlans]
    exact .pure .empty
  | cons m ms =>
    rw [modulePlans]
    refine .bind (modulePlan_composed hw hm parent m) fun p hp => ?_
    exact .bind (modulePlans_composed hw hm parent ms) fun ps hps => .pure (hp.append hps)

end

/-- The region of an extension, apart from its parts. -/
def extensionRegion (g : Setting) (name : String) (inside : Draft) : Region :=
  let head : Draft := {
    includes := "#include <rice/Class.hpp>" :: g.furtherIncludes
    body := [.frame "extern \"C\"", .frame ("void Init_" ++ name ++ "() \x7b")] }
  let draft := head ++ inside ++ { body := [.frame "\x7d"] }
  ⟨name, none, "", draft.includes, draft.definitions, draft.body⟩

theorem opensSoundly_extensionRegion (name : String) (inside : Draft) :
    g.OpensSoundly (g.extensionRegion name inside) := by
  intro handle cpp superclass parent ruby hhead
  cases hhead

theorem wrapped_extensionRegion (name : String) (inside : Draft) :
    (g.extensionRegion name inside).wrapped = inside.wrapped := by
  show (inside.definitions ++ []).filterMap Definition.wraps? = _
  rw [List.append_nil]
  rfl

/-- The namespaces of all modules are left to them before anything is planned. -/
theorem run_claims (namespaces : List DeclId) (s : Session) :
    (namespaces.forM fun ns => (liftM (claim ns) : Gen Unit)).run.run s =
      (.ok (), { s with claimed := namespaces.reverse ++ s.claimed }) := by
  induction namespaces generalizing s with
  | nil => rfl
  | cons ns namespaces ih =>
    refine (Gen.Yields.run_bind _ _ s).trans ((ih { s with claimed := ns :: s.claimed }).trans ?_)
    rw [List.reverse_cons, List.append_assoc]
    rfl

/-- **What an extension is made of**: a frame for each of its modules and one for itself, and the
sections of the namespaces that these hold. It fails with a loop only where being bound in one
another has one. -/
theorem extension_composed (hw : g.library.tree.WellFormed) (hm : g.library.MovesSound)
    (name : String) (ns : Option DeclId) (modules : List ModuleSpec) (s : Session) :
    let held := ModuleSpec.namespacesOf modules
    (∀ e s', (g.extension name ns modules).run.run s = (.ok e, s') → e.root.node = none ∧
      g.Composed (held ++ s.claimed) held (ns.toList ++ held) e.plan.regions) ∧
    ∀ e s', (g.extension name ns modules).run.run s = (.error e, s') → FailsWell g e := by
  intro held
  have rest : ∀ inside : Draft, g.InsideFor (held ++ s.claimed) ns inside →
      Gen.Yields (Claims (held ++ s.claimed)) (do
        let submodules ← g.modulePlans none modules
        return (⟨g.extensionRegion name inside, inside.parts ++ submodules⟩ : Extension))
        (fun e => e.root.node = none ∧
          g.Composed (held ++ s.claimed) held (ns.toList ++ held) e.plan.regions)
        (FailsWell g) := by
    intro inside hinside
    refine .bind (modulePlans_composed hw hm none modules) fun ps hps => .pure ⟨rfl, ?_⟩
    exact hps.frame hinside (wrapped_extensionRegion name inside)
      (opensSoundly_extensionRegion name inside)
  have hclaims : Claims (held ++ s.claimed) { s with claimed := held.reverse ++ s.claimed } := by
    intro ns
    simp only [List.mem_append, List.mem_reverse]
  unfold extension
  dsimp only
  refine Gen.Yields.result_bind (run_claims _ s) ?_ hclaims
  cases ns with
  | none => exact rest {} rfl
  | some ns => exact .bind (section_yields hw hm .program ns) rest

/-- **Whatever region of an extension begins by defining a class, it is the region of that class.**
An extension fails with a loop only where being bound in one another has one. -/
theorem extension_yields (hw : g.library.tree.WellFormed) (hm : g.library.MovesSound)
    (name : String) (ns : Option DeclId) (modules : List ModuleSpec) :
    Gen.Yields (fun _ => True) (g.extension name ns modules)
      (fun e => e.root.node = none ∧ ∀ r ∈ e.plan.regions, g.OpensSoundly r) (FailsWell g) := by
  intro s _
  have hrun := extension_composed hw hm name ns modules s
  rcases hres : (g.extension name ns modules).run.run s with ⟨err | e, s'⟩
  · exact ⟨hrun.2 err s' hres, trivial⟩
  · obtain ⟨hnode, hcomposed⟩ := hrun.1 e s' hres
    exact ⟨⟨hnode, hcomposed.opensSoundly⟩, trivial⟩

/-- The plan of an extension for one namespace, without explicit modules. -/
structure NamespaceExtension (g : Setting) (ns : DeclId) (e : Extension) : Prop where
  node : e.root.node = none
  wrapped : e.root.wrapped.Sublist (g.contents ns)
  parts : List.Forall₂ (g.PlanFor [] g.library.tree.ids) (g.planned [] ns) e.parts

/-- An extension for one namespace plans what the namespace holds. -/
theorem namespaceExtension_yields (hw : g.library.tree.WellFormed) (hm : g.library.MovesSound)
    (name : String) {ns : DeclId} (hns : (g.library.tree.get ns).isNamespace) :
    Gen.Yields (Claims []) (g.extension name (some ns) []) (g.NamespaceExtension ns)
      (FailsWell g) := by
  unfold extension
  dsimp only
  refine .bind (Q := fun _ => True) (.pure trivial) fun _ _ => ?_
  refine .bind (section_yields hw hm .program ns) fun inside hinside => ?_
  rw [modulePlans]
  refine .bind (Q := fun ps => ps = []) (.pure rfl) ?_
  rintro _ rfl
  refine .pure ⟨rfl, ?_, ?_⟩
  · rw [contents_of_isNamespace hns]
    show (g.extensionRegion name inside).wrapped.Sublist _
    rw [wrapped_extensionRegion]
    exact hinside.wrapped
  · rw [planned, contents_of_isNamespace hns, hns]
    show List.Forall₂ _ _ (inside.parts ++ [])
    rw [List.append_nil]
    exact hinside.parts

end Setting

end RubyBinding
