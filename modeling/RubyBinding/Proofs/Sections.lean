import Mathlib
import RubyBinding.Proofs.Builders

/-!
# What the walk reaches

An extension walks through the namespaces that it and its modules are for, and a class or namespace
that is met on the way is walked through in turn. `Setting.Holds` is one step of that walk, so that
the chains of such steps say what lies in a plan (`PlanFor.mem_nodes_iff`). Everything is held in
one place at most, and chains that end in one declaration therefore begin on one line
(`reflTransGen_total`). How often something has a region, and how often a function is wrapped, is
then a matter of counting the namespaces from which the walk reaches it (`Composed.count_nodes`,
`Composed.count_wrapped`).
-/

namespace RubyBinding

namespace Setting

open Relation (TransGen ReflTransGen)

variable {g : Setting} {claimed unplanned : List DeclId} {a b c i j o : DeclId} {p : Plan}

/-! ## Steps of the walk -/

/-- A class or namespace holds what is planned in it. -/
def Holds (g : Setting) (claimed : List DeclId) (o i : DeclId) : Prop :=
  g.library.isHolder o ∧ i ∈ g.planned claimed o

/-- **The plan for a declaration has what the declaration leads to.** -/
theorem PlanFor.mem_nodes_iff (h : g.PlanFor claimed unplanned i p) :
    j ∈ p.nodes ↔ ReflTransGen (g.Holds claimed) i j := by
  constructor
  · intro hj
    induction h with
    | enumeration _ hr =>
      rw [hr.nodes] at hj
      rw [List.mem_singleton.mp hj]
    | holder hkind _ hr hdirectors hlength _ ih =>
      rcases (mem_nodes_holder hr.node hdirectors hlength).mp hj with rfl | ⟨c, q, hcq, hj⟩
      · exact .refl
      · exact .head ⟨hkind, (List.of_mem_zip hcq).1⟩ (ih c q hcq hj)
  · intro hj
    induction hj with
    | refl => exact h.self_mem
    | tail _ hholds ih => exact h.closed ih hholds.1 hholds.2

/-- Namespaces are held by namespaces only, and not if they are left to a module. -/
theorem Holds.of_isNamespace (hi : (g.library.tree.get i).isNamespace) (h : g.Holds claimed o i) :
    (g.library.tree.get o).isNamespace ∧ i ∉ claimed := by
  have hpart := (List.mem_filter.mp h.2).2
  obtain ⟨hrecord, henum⟩ := not_isRecord_of_isNamespace hi
  rw [isPart, hrecord, henum] at hpart
  simp only [Bool.or_self, Bool.false_or, Bool.and_eq_true, Bool.not_eq_true',
    List.contains_eq_mem, decide_eq_false_iff_not] at hpart
  exact ⟨hpart.2.1.2, hpart.2.2⟩

theorem Holds.left_unique (hw : g.library.tree.WellFormed) (hm : g.library.MovesSound)
    (ha : g.Holds claimed a c) (hb : g.Holds claimed b c) : a = b := by
  have hbound : g.library.binder? c = some a := boundIn_of_mem_planned hw hm ha.2
  have hbound' : g.library.binder? c = some b := boundIn_of_mem_planned hw hm hb.2
  rw [hbound] at hbound'
  exact Option.some.inj hbound'

/-- Of two declarations that lead to a third one, one leads to the other. -/
theorem reflTransGen_total (hw : g.library.tree.WellFormed) (hm : g.library.MovesSound)
    (ha : ReflTransGen (g.Holds claimed) a c) (hb : ReflTransGen (g.Holds claimed) b c) :
    ReflTransGen (g.Holds claimed) a b ∨ ReflTransGen (g.Holds claimed) b a := by
  have hunique : Relator.RightUnique (Function.swap (g.Holds claimed)) :=
    fun _ _ _ h h' => h.left_unique hw hm h'
  have htotal := ReflTransGen.total_of_right_unique hunique ha.swap hb.swap
  exact htotal.symm.imp Relation.reflTransGen_swap.mp Relation.reflTransGen_swap.mp

/-! ## One section -/

section Section

variable {d : Draft}

theorem planned_of_isNamespace (ho : (g.library.tree.get o).isNamespace) :
    g.planned claimed o = (g.namespaceItems o).filter (g.isPart claimed true) := by
  rw [planned, contents_of_isNamespace ho, ho]

variable (ho : (g.library.tree.get o).isNamespace) (hd : g.SectionFor claimed o d)

include ho hd

theorem SectionFor.parts : List.Forall₂ (g.PlanFor claimed g.library.tree.ids)
    (g.planned claimed o) d.parts := by
  rw [planned_of_isNamespace ho]
  exact NamespaceDraft.parts hd

/-- The section of a namespace has what the namespace leads to, itself apart. -/
theorem SectionFor.mem_nodes_iff :
    i ∈ d.parts.flatMap Plan.nodes ↔ TransGen (g.Holds claimed) o i := by
  have hparts := SectionFor.parts ho hd
  rw [List.mem_flatMap, TransGen.head'_iff]
  constructor
  · rintro ⟨p, hp, hi⟩
    obtain ⟨c, hc, hplan⟩ := exists_of_forall₂ hparts hp
    exact ⟨c, ⟨isHolder_of_isNamespace ho, hc⟩, hplan.mem_nodes_iff.mp hi⟩
  · rintro ⟨c, ⟨-, hc⟩, hi⟩
    obtain ⟨hlength, hzip⟩ := List.forall₂_iff_zip.mp hparts
    obtain ⟨p, hp⟩ := exists_zip_of_mem_left hlength hc
    exact ⟨p, (List.of_mem_zip hp).2, (hzip hp).mem_nodes_iff.mpr hi⟩

/-- No namespace leads to itself: what is being planned is not planned again. -/
theorem SectionFor.not_mem_nodes : o ∉ d.parts.flatMap Plan.nodes :=
  not_mem_nodes_of_parts (SectionFor.parts ho hd) (isHolder_of_isNamespace ho)

theorem SectionFor.nodes_nodup (hw : g.library.tree.WellFormed) (hm : g.library.MovesSound) :
    (d.parts.flatMap Plan.nodes).Nodup :=
  nodup_nodes_of_parts (SectionFor.parts ho hd) (isHolder_of_isNamespace ho) hw hm

end Section

/-! ## Free functions -/

theorem isFunction_of_mem_freeFunctions {f : DeclId} (hf : f ∈ g.freeFunctions o) :
    (g.library.tree.get f).kind.isFunction = true := by
  rw [freeFunctions, List.mem_filter, Bool.and_eq_true] at hf
  exact hf.2.1

theorem binder?_of_mem_freeFunctions (hw : g.library.tree.WellFormed) (hm : g.library.MovesSound)
    {f : DeclId} (hf : f ∈ g.freeFunctions o) : g.library.binder? f = some o :=
  boundIn_of_mem_contents hw hm ((freeFunctions_sublist o).subset hf)

/-- A function is among the free functions of what it is bound in, once, and nowhere else. -/
theorem count_flatMap_freeFunctions (hw : g.library.tree.WellFormed) (hm : g.library.MovesSound)
    {f : DeclId} (hf : f ∈ g.freeFunctions b) (l : List DeclId) :
    (l.flatMap g.freeFunctions).count f = l.count b := by
  induction l with
  | nil => rfl
  | cons o l ih =>
    rw [List.flatMap_cons, List.count_append, ih, List.count_cons, Nat.add_comm]
    congr 1
    by_cases hob : o = b
    · have hnodup : (g.freeFunctions b).Nodup :=
        ((freeFunctions_sublist b).trans (contents_sublist_bound b)).nodup
          (Library.bound_nodup hw hm b)
      rw [hob, List.count_eq_one_of_mem hnodup hf, beq_self_eq_true]
      rfl
    · have hout : f ∉ g.freeFunctions o := by
        intro hfo
        have hbinder := binder?_of_mem_freeFunctions hw hm hf
        rw [binder?_of_mem_freeFunctions hw hm hfo] at hbinder
        exact hob (Option.some.inj hbinder)
      rw [List.count_eq_zero_of_not_mem hout, if_neg (by simpa using hob)]

/-- What regions wrap of free functions are those of the declarations that they are for. -/
theorem filter_flatMap_wrapped {rs : List Region}
    (h : ∀ r ∈ rs, g.DirectorRegion r ∨ ∃ o, g.RegionFor o r) :
    (rs.flatMap Region.wrapped).filter (fun f => (g.library.tree.get f).kind.isFunction) =
      (rs.filterMap Region.node).flatMap g.freeFunctions := by
  induction rs with
  | nil => rfl
  | cons r rs ih =>
    have hrest := ih fun r' hr' => h r' (List.mem_cons_of_mem r hr')
    rw [List.flatMap_cons, List.filter_append, hrest]
    rcases h r List.mem_cons_self with hdirector | ⟨o, hregion⟩
    · rw [hdirector.wrapped, List.filterMap_cons_none hdirector.node]
      rfl
    · rw [hregion.functions, List.filterMap_cons_some hregion.node, List.flatMap_cons]

/-! ## All sections -/

section Sections

variable {nodes held : List DeclId} {frames : List Region} {sections : List Draft}
  {rs : List Region}

theorem Composition.section_cases (h : g.Composition claimed nodes held frames sections rs)
    {d : Draft} (hd : d ∈ sections) {r : Region} (hr : r ∈ d.parts.flatMap Plan.regions) :
    g.DirectorRegion r ∨ ∃ o, g.RegionFor o r := by
  obtain ⟨p, hp, hr⟩ := List.mem_flatMap.mp hr
  obtain ⟨c, hplan⟩ := h.exists_planFor hd hp
  exact hplan.region_cases r hr

/-- A region is a frame, or a director's, or says what the region of a declaration says. -/
theorem Composed.region_cases (h : g.Composed claimed nodes held rs) {r : Region} (hr : r ∈ rs) :
    (∀ i, r.node = some i → i ∈ nodes) ∨ g.DirectorRegion r ∨ ∃ o, g.RegionFor o r := by
  obtain ⟨frames, sections, h⟩ := h
  rcases List.mem_append.mp (h.regions.mem_iff.mp hr) with hr | hr
  · refine .inl fun i hi => ?_
    rw [← h.nodes]
    exact List.mem_filterMap.mpr ⟨r, hr, hi⟩
  · obtain ⟨d, hd, hr⟩ := List.mem_flatMap.mp hr
    exact .inr (h.section_cases hd hr)

theorem filterMap_node_sections (sections : List Draft) :
    (sections.flatMap fun d => d.parts.flatMap Plan.regions).filterMap Region.node =
      sections.flatMap fun d => d.parts.flatMap Plan.nodes := by
  rw [List.filterMap_flatMap]
  refine congrArg (sections.flatMap ·) (funext fun d => ?_)
  rw [List.filterMap_flatMap]
  rfl

/-- The declarations with regions are those of the frames and what is planned in the sections. -/
theorem Composition.nodes_perm (h : g.Composition claimed nodes held frames sections rs) :
    (rs.filterMap Region.node).Perm
      (nodes ++ sections.flatMap fun d => d.parts.flatMap Plan.nodes) := by
  refine (h.regions.filterMap Region.node).trans ?_
  rw [List.filterMap_append, h.nodes, filterMap_node_sections]

section Walked

variable (hns : ∀ o ∈ held, (g.library.tree.get o).isNamespace)
  (h : g.Composition claimed nodes held frames sections rs)

include hns h

/-- The free functions that are wrapped are those of the namespaces held and of what is planned in
their sections. -/
theorem Composition.functions_perm :
    ((rs.flatMap Region.wrapped).filter fun f => (g.library.tree.get f).kind.isFunction).Perm
      ((held ++ sections.flatMap fun d => d.parts.flatMap Plan.nodes).flatMap
        g.freeFunctions) := by
  have hheld : (sections.flatMap Draft.wrapped).filter
      (fun f => (g.library.tree.get f).kind.isFunction) = held.flatMap g.freeFunctions := by
    have heach := h.each
    clear h
    induction heach with
    | nil => rfl
    | @cons o d held sections hsection _ ih =>
      rw [List.flatMap_cons, List.filter_append,
        ih fun o' ho' => hns o' (List.mem_cons_of_mem o ho'), List.flatMap_cons, hsection.functions,
        freeFunctions_of_isNamespace (hns o List.mem_cons_self)]
  have heach : ∀ r ∈ sections.flatMap fun d => d.parts.flatMap Plan.regions,
      g.DirectorRegion r ∨ ∃ o, g.RegionFor o r := by
    intro r hr
    obtain ⟨d, hd, hr⟩ := List.mem_flatMap.mp hr
    exact h.section_cases hd hr
  refine ((h.regions.flatMap_right Region.wrapped).filter _).trans (List.Perm.of_eq ?_)
  rw [List.flatMap_append, List.filter_append, h.wrapped, hheld, filter_flatMap_wrapped heach,
    filterMap_node_sections, List.flatMap_append]

open scoped Classical in
/-- What is planned in the sections, as often as there are namespaces that lead to it. -/
theorem Composition.count_sections (hw : g.library.tree.WellFormed) (hm : g.library.MovesSound)
    (i : DeclId) : (sections.flatMap fun d => d.parts.flatMap Plan.nodes).count i =
      held.countP fun o => TransGen (g.Holds claimed) o i := by
  have heach := h.each
  clear h
  induction heach with
  | nil => rfl
  | @cons o d held sections hsection _ ih =>
    have ho := hns o List.mem_cons_self
    rw [List.flatMap_cons, List.count_append, ih fun o' ho' => hns o' (List.mem_cons_of_mem o ho'),
      List.countP_cons, List.Nodup.count (SectionFor.nodes_nodup ho hsection hw hm),
      Nat.add_comm]
    congr 1
    simp only [SectionFor.mem_nodes_iff ho hsection, decide_eq_true_eq]

end Walked

section Counts

variable (hw : g.library.tree.WellFormed) (hm : g.library.MovesSound)
  (hns : ∀ o ∈ held, (g.library.tree.get o).isNamespace)
  (h : g.Composed claimed nodes held rs)

include hns h

/-- None of the namespaces leads to itself. -/
theorem Composed.not_transGen (ho : o ∈ held) : ¬ TransGen (g.Holds claimed) o o := by
  obtain ⟨frames, sections, h⟩ := h
  obtain ⟨hlength, hzip⟩ := List.forall₂_iff_zip.mp h.each
  obtain ⟨d, hd⟩ := exists_zip_of_mem_left hlength ho
  rw [← SectionFor.mem_nodes_iff (hns o ho) (hzip hd)]
  exact SectionFor.not_mem_nodes (hns o ho) (hzip hd)

/-- The free functions that are wrapped are those of what the namespaces lead to, themselves
included. -/
theorem Composed.mem_wrapped_iff {f : DeclId} (hkind : (g.library.tree.get f).kind.isFunction) :
    f ∈ rs.flatMap Region.wrapped ↔
      ∃ b, f ∈ g.freeFunctions b ∧ ∃ o ∈ held, ReflTransGen (g.Holds claimed) o b := by
  obtain ⟨frames, sections, h⟩ := h
  have hwrapped := (h.functions_perm hns).mem_iff (a := f)
  rw [List.mem_filter, and_iff_left hkind] at hwrapped
  rw [hwrapped, List.mem_flatMap]
  refine exists_congr fun b => and_comm.trans (and_congr_right fun _ => ?_)
  rw [List.mem_append, List.mem_flatMap]
  constructor
  · rintro (hb | ⟨d, hd, hb⟩)
    · exact ⟨b, hb, .refl⟩
    · obtain ⟨o, ho, hsection⟩ := exists_of_forall₂ h.each hd
      exact ⟨o, ho, ((SectionFor.mem_nodes_iff (hns o ho) hsection).mp hb).to_reflTransGen⟩
  · rintro ⟨o, ho, hob⟩
    rcases Relation.reflTransGen_iff_eq_or_transGen.mp hob with rfl | hob
    · exact .inl ho
    · obtain ⟨hlength, hzip⟩ := List.forall₂_iff_zip.mp h.each
      obtain ⟨d, hd⟩ := exists_zip_of_mem_left hlength ho
      exact .inr ⟨d, (List.of_mem_zip hd).2,
        (SectionFor.mem_nodes_iff (hns o ho) (hzip hd)).mpr hob⟩

include hw hm

open scoped Classical in
/-- **How often something has a region**: as often as it has a frame, and once for each namespace
that leads to it. -/
theorem Composed.count_nodes (i : DeclId) : (rs.filterMap Region.node).count i =
    nodes.count i + held.countP fun o => TransGen (g.Holds claimed) o i := by
  obtain ⟨frames, sections, h⟩ := h
  rw [h.nodes_perm.count_eq, List.count_append, h.count_sections hns hw hm]

open scoped Classical in
/-- **How often a free function is wrapped**: once for each namespace that is what the function is
bound in or leads to it. -/
theorem Composed.count_wrapped {f : DeclId} (hf : f ∈ g.freeFunctions b) :
    (rs.flatMap Region.wrapped).count f =
      held.countP fun o => ReflTransGen (g.Holds claimed) o b := by
  have hloops := fun o ho => h.not_transGen hns (o := o) ho
  obtain ⟨frames, sections, h⟩ := h
  rw [← List.count_filter (p := fun f => (g.library.tree.get f).kind.isFunction)
      (isFunction_of_mem_freeFunctions hf), (h.functions_perm hns).count_eq,
    count_flatMap_freeFunctions hw hm hf, List.count_append, h.count_sections hns hw hm]
  clear h hns
  induction held with
  | nil => rfl
  | cons o held ih =>
    have hrest := ih fun o' ho' => hloops o' (List.mem_cons_of_mem o ho')
    have hhead := hloops o List.mem_cons_self
    -- The namespace is what the function is bound in, or leads to it, but not both.
    have hone : ((if o == b then 1 else 0) + if TransGen (g.Holds claimed) o b then 1 else 0) =
        if ReflTransGen (g.Holds claimed) o b then 1 else 0 := by
      rw [Relation.reflTransGen_iff_eq_or_transGen]
      by_cases hob : o = b
      · subst hob
        simp [hhead]
      · simp [hob, Ne.symm hob]
    simp only [List.count_cons, List.countP_cons, decide_eq_true_eq]
    omega

end Counts

end Sections

/-! ## Extensions -/

section Extensions

variable {ns : Option DeclId} {modules : List ModuleSpec}

/-- What the walk of an extension reaches. -/
def Reaches (g : Setting) (ns : Option DeclId) (modules : List ModuleSpec) (i : DeclId) : Prop :=
  let held := ModuleSpec.namespacesOf modules
  ∃ o ∈ ns.toList ++ held, TransGen (g.Holds held) o i

theorem Composed.of_run (hw : g.library.tree.WellFormed) (hm : g.library.MovesSound)
    {name : String} {e : Extension} {s : Session}
    (hrun : (g.extension name ns modules).run.run {} = (.ok e, s)) :
    g.Composed (ModuleSpec.namespacesOf modules) (ModuleSpec.namespacesOf modules)
      (ns.toList ++ ModuleSpec.namespacesOf modules) e.plan.regions := by
  have h := ((extension_composed hw hm name ns modules {}).1 e s hrun).2
  rwa [show ({} : Session).claimed = [] from rfl, List.append_nil] at h

/-- What has a region is the namespace of a module, or reached by the walk. -/
theorem Composed.mem_nodes_iff {e : Extension} (hw : g.library.tree.WellFormed)
    (hm : g.library.MovesSound)
    (hns : ∀ o ∈ ns.toList ++ ModuleSpec.namespacesOf modules, (g.library.tree.get o).isNamespace)
    (h : g.Composed (ModuleSpec.namespacesOf modules) (ModuleSpec.namespacesOf modules)
      (ns.toList ++ ModuleSpec.namespacesOf modules) e.plan.regions) :
    i ∈ e.plan.nodes ↔ i ∈ ModuleSpec.namespacesOf modules ∨ g.Reaches ns modules i := by
  classical
  rw [← List.count_pos_iff, Plan.nodes, h.count_nodes hw hm hns, Nat.add_pos_iff_pos_or_pos,
    List.count_pos_iff, List.countP_pos_iff]
  simp only [decide_eq_true_eq]
  rfl

/-- What edits make of a library is sound, and its tree is the one they began with. -/
theorem sound_of_edits {t : DeclTree} (ht : t.Built) {es : List Edit}
    (hes : ∀ e ∈ es, e.InTree t) (hg : g.library = (Library.ofTree t).edits es) :
    g.library.tree = t ∧ g.library.tree.WellFormed ∧ g.library.MovesSound := by
  have htree : g.library.tree = t := by
    rw [hg, Library.edits_tree]
    rfl
  refine ⟨htree, ?_, ?_⟩
  · rw [htree]
    exact ht.wellFormed
  · rw [hg]
    exact .edits hes

end Extensions

end Setting

end RubyBinding
