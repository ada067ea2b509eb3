import RubyBinding.Proofs.Bonds
import RubyBinding.Proofs.Builders
import RubyBinding.Proofs.Orderly
import RubyBinding.Proofs.Units

/-!
# No member is dropped but those without a name

Whenever a class is planned, the plan has exactly the bindings of its exposed members that the
members are to have (`bindings_of_members`): one for each method, and one or two for each field,
unless the member has no Ruby name. It takes two things besides the bonds of the class itself: no
name stands for two functions (`services_nodup`), and nothing that is planned inside the class binds
one of its members (`bindingsOf_parts`).

A member without a Ruby name is one that was not renamed and whose name begins with a tilde or with
`operator`. The latter need not be an operator (`not_bound_operators`).
-/

namespace RubyBinding

open Code (Statement Definition Director Place)
open Text (IsWord)

/-! ## Members without a name -/

/-- A member that was not renamed and whose name begins like that of a destructor or an operator. -/
def Library.Unnamed (lib : Library) (m : DeclId) : Prop :=
  lib.renamed? m = none ∧ (['~'] <+: (lib.tree.get m).name.toList ∨
    "operator".toList <+: (lib.tree.get m).name.toList)

theorem isSpecialMember_iff {name : String} :
    isSpecialMember name ↔ ['~'] <+: name.toList ∨ "operator".toList <+: name.toList := by
  rw [isSpecialMember, Bool.or_eq_true, Text.isSome_after?_iff, Text.isSome_after?_iff]

theorem Library.memberName?_eq_none_iff {lib : Library} {m : DeclId} :
    lib.memberName? m = none ↔ lib.Unnamed m := by
  rw [memberName?, Unnamed, ← isSpecialMember_iff]
  cases lib.renamed? m with
  | some name => simp
  | none => cases hspecial : isSpecialMember (lib.tree.get m).name <;> simp [hspecial]

/-! ## Names of services -/

theorem service?_map_fst (x : Definition) :
    x.service?.map Prod.fst = none ∨ x.service?.map Prod.fst = x.drawn? := by
  cases x with
  | wrapper w =>
    obtain ⟨source, result, name, slots, body⟩ := w
    cases body with
    | callBlock block => exact .inl rfl
    | _ => exact .inr rfl
  | _ => exact .inl rfl

/-- A function that is made for Ruby is for the declaration that it wraps. -/
theorem exists_service_of_wrapper {w : Code.Wrapper} (h : ∀ block, w.body ≠ .callBlock block) :
    ∃ purpose, (Definition.wrapper w).service? = some (w.name, w.source, purpose) ∧
      (Definition.wrapper w).wraps? = some w.source := by
  obtain ⟨source, result, name, slots, body⟩ := w
  cases body with
  | callBlock block => exact absurd rfl (h block)
  | _ => exact ⟨_, rfl, rfl⟩

/-- Functions are made for Ruby under names that were drawn for them. -/
theorem services_names_sublist (ds : List Definition) :
    ((ds.filterMap Definition.service?).map Prod.fst).Sublist (ds.filterMap Definition.drawn?) := by
  rw [List.map_filterMap]
  induction ds with
  | nil => exact List.Sublist.refl _
  | cons x ds ih =>
    rw [List.filterMap_cons, List.filterMap_cons]
    rcases service?_map_fst x with hnone | heq
    · rw [hnone]
      cases x.drawn? with
      | none => exact ih
      | some name => exact ih.cons name
    · rw [heq]
      cases x.drawn? with
      | none => exact ih
      | some name => exact ih.cons_cons name

theorem isWord_of_mem_services {ds : List Definition} (hnamed : ∀ x ∈ ds, x.IsNamed)
    {service : Service} (h : service ∈ ds.filterMap Definition.service?) : IsWord service.1 := by
  obtain ⟨x, hx, hservice⟩ := List.mem_filterMap.mp h
  cases x with
  | wrapper w =>
    have hname := hnamed _ hx
    obtain ⟨source, result, name, slots, body⟩ := w
    cases body with
    | callBlock block => cases hservice
    | _ =>
      cases hservice
      obtain ⟨suffix, rfl, hsuffix⟩ := hname
      exact IsWord.append (by decide) hsuffix
  | _ => cases hservice

/-- The name of a director can be told from that of its members. -/
theorem eq_of_member_eq {name other member member' : String} (h : IsWord name) (h' : IsWord other)
    (heq : name ++ "::" ++ member = other ++ "::" ++ member') : name = other := by
  have hlead : ∀ {word : String} (rest : String), IsWord word →
      (word ++ "::" ++ rest).toList.takeWhile Text.isWordChar = word.toList := by
    intro word rest hword
    rw [String.append_assoc, String.toList_append, List.takeWhile_append_of_pos hword]
    have hcolons : ("::" ++ rest).toList = ':' :: ':' :: rest.toList := by
      rw [String.toList_append]
      rfl
    rw [hcolons, List.takeWhile_cons_of_neg (by decide), List.append_nil]
  rw [← String.toList_inj, ← hlead member h, ← hlead member' h', heq]

namespace Plan

variable {p q : Plan} {r : Region} {parts : List Plan} {handles : List String} {d : Director}

theorem Sound.part (h : (region r parts).Sound handles) (hq : q ∈ parts) :
    ∃ used, q.Sound used := by
  cases h with
  | holder _ _ _ _ _ hparts => exact ⟨_, hparts q hq⟩
  | plain _ _ hparts => exact ⟨_, hparts q hq⟩

theorem mem_definitions_of_director? (h : p.director? = some d) : .director d ∈ p.definitions := by
  unfold director? at h
  split at h
  next own inner parts =>
    split at h
    next hdefinitions =>
      cases h
      rw [definitions_region, List.flatMap_cons, definitions_region, hdefinitions]
      simp
    next => cases h
  next => cases h

end Plan

namespace Setting

variable {g : Setting} {i : DeclId} {p q : Plan} {r : Region} {parts : List Plan}
  {handles : List String}

/-- In a sound plan, no name stands for two functions. -/
theorem services_nodup (h : p.Sound handles) (hdrawn : p.drawn.Nodup) :
    ((g.services i p).map Prod.fst).Nodup := by
  have hdefinitions := ((drawn_perm g.library h).nodup_iff.mp hdrawn).of_append_right
  rw [services, List.map_append, List.nodup_append']
  refine ⟨(services_names_sublist _).nodup hdefinitions, ?_, ?_⟩
  · cases p.director? with
    | none => exact List.nodup_nil
    | some d =>
      have hfallbacks := (g.library.directed_fallbacks_nodup i).map
        (f := fun fallback => d.name ++ "::" ++ fallback)
        fun _ _ heq => (String.append_right_inj _).mp heq
      rw [List.map_map] at hfallbacks
      rw [Option.elim_some, memberServices, List.map_map]
      exact hfallbacks
  · -- Functions are named by words, and members are not.
    intro name hfunction hmember
    obtain ⟨service, hservice, rfl⟩ := List.mem_map.mp hfunction
    have hword := isWord_of_mem_services h.named hservice
    cases hdirector : p.director? with
    | none =>
      rw [hdirector] at hmember
      cases hmember
    | some d =>
      rw [hdirector] at hmember
      simp only [Option.elim_some, memberServices, List.map_map, List.mem_map] at hmember
      obtain ⟨v, -, hv⟩ := hmember
      rw [← hv] at hword
      exact not_isWord_member _ _ hword

/-- Nothing that is planned inside a class is bound to a function for a declaration that is not
wrapped there, nor to a member of the director of the class. -/
theorem not_mem_services_of_part (h : (Plan.region r parts).Sound handles)
    (hdrawn : (Plan.region r parts).drawn.Nodup) (hq : q ∈ parts) {m : DeclId}
    (hwrapped : m ∉ q.wrapped)
    (hdirector : ∀ d, (Plan.region r parts).director? = some d → ∀ v ∈ g.library.directed i,
      d.name ∉ q.definitions.filterMap Definition.director?)
    {s : Statement} (hs : s ∈ q.regions.flatMap Region.body) {target : String}
    (ht : s.target? = some target) (purpose : Purpose) :
    (target, m, purpose) ∉ g.services i (.region r parts) := by
  intro hmem
  obtain ⟨used, hpart⟩ := h.part hq
  obtain ⟨inner, hinner, hs⟩ := List.mem_flatMap.mp hs
  have hdefinitions : q.definitions ⊆ (Plan.region r parts).definitions := by
    intro x hx
    rw [Plan.definitions_region]
    exact List.mem_append_right _ (List.mem_flatMap.mpr ⟨q, hq, hx⟩)
  cases hpart.bound inner hinner s hs target ht with
  | @function w hw hbody =>
    -- The function is for one declaration only, and that is wrapped in the part.
    obtain ⟨purpose', hservice, hwraps⟩ := exists_service_of_wrapper hbody
    have hother : (w.name, w.source, purpose') ∈ g.services i (.region r parts) :=
      List.mem_append_left _ (List.mem_filterMap.mpr ⟨_, hdefinitions hw, hservice⟩)
    cases List.inj_on_of_nodup_map (services_nodup h hdrawn) hmem hother rfl
    obtain ⟨region, hregion, hw⟩ := List.mem_flatMap.mp hw
    refine hwrapped (List.mem_flatMap.mpr ⟨region, hregion, ?_⟩)
    exact List.mem_filterMap.mpr ⟨_, hw, hwraps⟩
  | @member d o name hd ho hname =>
    have hword : IsWord d.name := hpart.named _ hd
    rcases List.mem_append.mp hmem with hfunction | hmember
    · exact not_isWord_member _ _ (isWord_of_mem_services h.named hfunction)
    · cases hown : (Plan.region r parts).director? with
      | none =>
        rw [hown] at hmember
        cases hmember
      | some own =>
        rw [hown] at hmember
        obtain ⟨v, hv, heq⟩ := List.mem_map.mp hmember
        have hownWord : IsWord own.name := h.named _ (Plan.mem_definitions_of_director? hown)
        have hnames := eq_of_member_eq hownWord hword (congrArg Prod.fst heq)
        refine hdirector own hown v hv (List.mem_filterMap.mpr ⟨_, hd, ?_⟩)
        rw [hnames]
        rfl

/-- The exposed members of a class that is not planned are not wrapped in any plan. -/
theorem PlanFor.not_mem_wrapped {claimed unplanned : List DeclId} {c m : DeclId}
    (hw : g.library.tree.WellFormed) (hm : g.library.MovesSound)
    (h : g.PlanFor claimed unplanned c q) (hi : i ∉ unplanned) (hholder : g.library.isHolder i)
    (hexposed : m ∈ g.library.exposed i) : m ∉ q.wrapped := by
  intro hmem
  obtain ⟨r, hr, hwrapped⟩ := List.mem_flatMap.mp hmem
  rcases h.region_cases r hr with hdirector | ⟨o, hregion⟩
  · rw [hdirector.wrapped] at hwrapped
    cases hwrapped
  · -- What is wrapped for a class or namespace is bound in it.
    have hbound : g.library.binder? m = some o :=
      boundIn_of_mem_contents hw hm (hregion.wrapped_mem m hwrapped)
    rw [((Library.mem_exposed_iff hw).mp hexposed).2.2] at hbound
    cases hbound
    exact hi (h.mem_unplanned (List.mem_filterMap.mpr ⟨r, hr, hregion.node⟩) hholder)

/-- So they are wrapped in no part of the class. -/
theorem parts_wrapped (hw : g.library.tree.WellFormed) (hm : g.library.MovesSound)
    {unplanned : List DeclId} {parent : Option String} (hrecord : (g.library.tree.get i).isRecord)
    (hi : i ∉ unplanned) :
    Gen.Yields (fun _ => True) (g.classPlan (g.planOf unplanned) parent i)
      (fun p => ∀ r parts, p = .region r parts → ∀ q ∈ parts, ∀ m ∈ g.library.exposed i,
        m ∉ q.wrapped) fun _ => True := by
  refine .of_claims fun claimed => ?_
  have hnested : ∀ c ∈ g.contents i, ∀ parent, Gen.Yields (Claims claimed)
      (g.planOf unplanned parent c) (PlansAs g (g.PlanFor claimed unplanned) c) fun _ => True :=
    fun c _ parent => planOf_yields_along (fun _ _ => trivial) (fun _ _ => True)
      (fun _ _ => trivial) (fun _ _ _ => trivial) unplanned parent c trivial
  refine .mono (classPlan_yields (fun _ _ => trivial) parent hrecord hnested) ?_ fun _ h => h
  rintro _ ⟨own, directors, inner, rfl, hr, hdirectors, hinner⟩ _ _ ⟨⟩ q hq m hexposed
  rcases List.mem_append.mp hq with hq | hq
  · obtain ⟨rd, rfl, hdirector⟩ := hdirectors q hq
    rw [Plan.wrapped, Plan.regions, Plan.regionsOf, List.flatMap_singleton, hdirector.wrapped]
    exact List.not_mem_nil
  · obtain ⟨c, -, hplan⟩ := exists_of_forall₂ hinner hq
    refine hplan.not_mem_wrapped hw hm hi ?_ hexposed
    rw [Library.isHolder, hrecord, Bool.true_or]

/-! ## The bindings of a member -/

/-- The bindings of a declaration in the plan of a class, with what the bound functions do. -/
def bindings (g : Setting) (i : DeclId) (p : Plan) (m : DeclId) : List (Purpose × Statement) :=
  bindingsOf (g.services i p) (p.regions.flatMap Region.body) m

/-- The directors of a plan have names that were drawn for it. -/
theorem mem_drawn_of_director? {name : String}
    (h : name ∈ p.definitions.filterMap Definition.director?) : name ∈ p.drawn := by
  have hdrawn : name ∈ p.definitions.filterMap Definition.drawn? := by
    rw [← List.count_pos_iff] at h ⊢
    exact Nat.lt_of_lt_of_le h (count_director?_le _ _)
  obtain ⟨x, hx, hname⟩ := List.mem_filterMap.mp hdrawn
  obtain ⟨r, hr, hx⟩ := List.mem_flatMap.mp hx
  refine List.mem_flatMap.mpr ⟨r, hr, List.mem_append_right _ ?_⟩
  exact List.mem_filterMap.mpr ⟨x, hx, hname⟩

/-- The director of a class binds nothing itself, and no other part has a director of its name. -/
theorem Directed.part_cases {d : Director} (h : g.Directed i (.region r parts) r d)
    (hdrawn : (Plan.region r parts).drawn.Nodup) (hq : q ∈ parts) :
    (∀ s ∈ q.regions.flatMap Region.body, s.target? = none) ∨
      ∀ d', (Plan.region r parts).director? = some d' →
        d'.name ∉ q.definitions.filterMap Definition.director? := by
  obtain ⟨own, rest, hplan, hdefinitions, hown⟩ := h.plan
  cases hplan
  rcases List.mem_cons.mp hq with rfl | hq
  · left
    rw [Plan.regions, Plan.regionsOf, List.flatMap_singleton]
    exact hown
  · right
    intro d' hd' hmem
    simp only [Plan.director?, hdefinitions] at hd'
    cases hd'
    rw [Plan.drawn_region, List.flatMap_cons, Plan.drawn_region, List.nodup_append'] at hdrawn
    refine (List.nodup_append'.mp hdrawn.2.1).2.2 (List.mem_append_left _ ?_)
      (List.mem_flatMap.mpr ⟨q, hq, mem_drawn_of_director? hmem⟩)
    rw [Region.drawn, hdefinitions]
    exact List.mem_append_right _ (List.mem_singleton_self _)

/-- **What is planned inside a class binds none of its exposed members.** -/
theorem bindingsOf_parts (h : (Plan.region r parts).Sound handles)
    (hdrawn : (Plan.region r parts).drawn.Nodup)
    (hdirected : g.library.virtuals i ≠ [] → ∃ d, g.Directed i (.region r parts) r d) {m : DeclId}
    (hwrapped : ∀ q ∈ parts, m ∉ q.wrapped) :
    bindingsOf (g.services i (.region r parts))
      (parts.flatMap fun q => q.regions.flatMap Region.body) m = [] := by
  refine bindingsOf_eq_nil fun s hs target ht purpose => ?_
  obtain ⟨q, hq, hs⟩ := List.mem_flatMap.mp hs
  have hcases : (∀ s ∈ q.regions.flatMap Region.body, s.target? = none) ∨
      ∀ d, (Plan.region r parts).director? = some d → ∀ v ∈ g.library.directed i,
        d.name ∉ q.definitions.filterMap Definition.director? := by
    by_cases hvirtuals : g.library.virtuals i = []
    · right
      intro d _ v hv
      rw [Library.directed, Library.boundVirtuals, hvirtuals] at hv
      cases hv
    · obtain ⟨d, hd⟩ := hdirected hvirtuals
      exact (hd.part_cases hdrawn hq).imp_right fun hother d' hd' _ _ => hother d' hd'
  rcases hcases with hnone | hother
  · rw [hnone s hs] at ht
    cases ht
  · exact not_mem_services_of_part h hdrawn hq (hwrapped q hq) hother hs ht purpose

/-- The exposed members of a class have the bindings that are made for their bonds. -/
theorem bindings_made (hw : g.library.tree.WellFormed) (hm : g.library.MovesSound)
    {unplanned : List DeclId} {parent : Option String} (hrecord : (g.library.tree.get i).isRecord)
    (hi : i ∉ unplanned) {s s' : Session}
    (hrun : (g.classPlan (g.planOf unplanned) parent i).run.run s = (.ok p, s')) :
    ∃ r parts, p = .region r parts ∧ ∀ m ∈ g.library.exposed i,
      List.Forall₂ Bond.MadeBy ((g.memberBonds i r.handle).filter fun b => b.member == m)
        (g.bindings i p m) := by
  obtain ⟨⟨r, parts, hplan, more, hbody, hmore⟩, -⟩ :=
    (classPlan_makes hw (g.planOf unplanned) parent i).of_run trivial hrun
  obtain ⟨hdrawn, hsound⟩ := (classPlan_draws (planOf_draws unplanned) parent i).of_run hrun
  have hwrapped := ((parts_wrapped hw hm hrecord hi).of_run trivial hrun).1 r parts hplan
  have hdirected : g.library.virtuals i ≠ [] → ∃ d, g.Directed i p r d := by
    intro hvirtuals
    obtain ⟨⟨r', d, hd⟩, -⟩ := (classPlan_directs hw hvirtuals).of_run trivial hrun
    obtain ⟨own, rest, hother, -⟩ := hd.plan
    cases hplan.symm.trans hother
    exact ⟨d, hd⟩
  refine ⟨r, parts, hplan, fun m hexposed => ?_⟩
  subst hplan
  have hout : more.filter (fun b => b.member == m) = [] := by
    refine List.filter_eq_nil_iff.mpr fun b hb heq => hmore b hb ?_
    rwa [eq_of_beq heq]
  have hregion := hbody.forall₂_bindingsOf (services_nodup hsound hdrawn) m
  rw [List.filter_append, hout, List.append_nil] at hregion
  rw [bindings, Plan.regions, Plan.regionsOf_eq_flatMap, List.flatMap_cons, List.flatMap_assoc,
    bindingsOf_append, bindingsOf_parts hsound hdrawn hdirected
      fun q hq => hwrapped q hq m hexposed, List.append_nil]
  exact hregion

/-! ### Bonds of one member -/

section Bonds

variable {l : List Named} {f : Named → List Bond} (hf : ∀ e, ∀ b ∈ f e, b.member = e.1)

include hf

theorem filter_bonds_of_not_mem {m : DeclId} (hm : m ∉ l.map Prod.fst) :
    (l.flatMap f).filter (fun b => b.member == m) = [] := by
  refine List.filter_eq_nil_iff.mpr fun b hb heq => hm ?_
  obtain ⟨e, he, hb⟩ := List.mem_flatMap.mp hb
  rw [← eq_of_beq heq, hf e b hb]
  exact List.mem_map_of_mem he

theorem filter_bonds_of_mem (hl : (l.map Prod.fst).Nodup) {e : Named} (he : e ∈ l) :
    (l.flatMap f).filter (fun b => b.member == e.1) = f e := by
  obtain ⟨before, after, rfl⟩ := List.append_of_mem he
  rw [List.map_append, List.map_cons, List.nodup_append, List.nodup_cons] at hl
  obtain ⟨-, ⟨hafter, -⟩, hbefore⟩ := hl
  have hown : (f e).filter (fun b => b.member == e.1) = f e :=
    List.filter_eq_self.mpr fun b hb => beq_iff_eq.mpr (hf e b hb)
  rw [List.flatMap_append, List.flatMap_cons, List.filter_append, List.filter_append, hown,
    filter_bonds_of_not_mem hf fun hmem => hbefore e.1 hmem e.1 List.mem_cons_self rfl,
    filter_bonds_of_not_mem hf hafter, List.nil_append, List.append_nil]

end Bonds

theorem member_of_mem_methodBonds {handle : String} (m : Named) :
    ∀ b ∈ g.library.methodBonds handle m, b.member = m.1 :=
  List.forall_mem_singleton.mpr rfl

theorem member_of_mem_fieldBonds {handle : String} (m : Named) :
    ∀ b ∈ g.library.fieldBonds handle m, b.member = m.1 := by
  refine List.forall_mem_cons.mpr ⟨rfl, ?_⟩
  split
  · exact List.forall_mem_singleton.mpr rfl
  · exact List.forall_mem_nil _

theorem map_fst_fields (i : DeclId) :
    (g.library.members i).fields.map Prod.fst = (g.library.exposed i).filter fun m =>
      (g.library.memberName? m).isSome && (g.library.tree.get m).kind.isReadable := by
  refine (map_fst_distinct _ _).trans ?_
  rw [List.filter_filter]

theorem not_isReadable_of_isMethod {k : Kind} (h : k.isMethod) : k.isReadable = false := by
  cases k with
  | method result params flags => rfl
  | _ => cases h

/-- A member without a name has no bonds. -/
theorem memberBonds_of_unnamed {m : DeclId} (h : g.library.Unnamed m) (handle : String) :
    (g.memberBonds i handle).filter (fun b => b.member == m) = [] := by
  have hnone : (g.library.memberName? m).isSome = false := by
    rw [Library.memberName?_eq_none_iff.mpr h]
    rfl
  rw [memberBonds, List.filter_append, filter_bonds_of_not_mem member_of_mem_methodBonds,
    filter_bonds_of_not_mem member_of_mem_fieldBonds]
  · rfl
  · rw [map_fst_fields, List.mem_filter, hnone, Bool.false_and]
    exact fun hmem => nomatch hmem.2
  · rw [Library.map_fst_members, List.mem_filter, hnone, Bool.false_and]
    exact fun hmem => nomatch hmem.2

theorem isSome_memberName? {m : DeclId} (h : ¬ g.library.Unnamed m) :
    (g.library.memberName? m).isSome = true := by
  rwa [← Library.memberName?_eq_none_iff, ← ne_eq, Option.ne_none_iff_isSome] at h

/-- A method with a name has one bond. -/
theorem memberBonds_of_method (hw : g.library.tree.WellFormed) {m : DeclId}
    (hexposed : m ∈ g.library.exposed i) (hnamed : ¬ g.library.Unnamed m)
    (hmethod : (g.library.tree.get m).kind.isMethod) (handle : String) :
    ∃ ruby, (g.memberBonds i handle).filter (fun b => b.member == m) =
      [⟨(g.library.tree.get m).kind.place handle, ruby, m, .call⟩] := by
  have hkey : m ∈ (g.library.members i).methods.map Prod.fst := by
    rw [Library.map_fst_members, List.mem_filter, isSome_memberName? hnamed, hmethod]
    exact ⟨hexposed, rfl⟩
  have hout : m ∉ (g.library.members i).fields.map Prod.fst := by
    rw [map_fst_fields, List.mem_filter, not_isReadable_of_isMethod hmethod, Bool.and_false]
    exact fun hmem => nomatch hmem.2
  obtain ⟨e, he, rfl⟩ := List.mem_map.mp hkey
  refine ⟨e.2, ?_⟩
  rw [memberBonds, List.filter_append,
    filter_bonds_of_mem member_of_mem_methodBonds (Library.members_methods_nodup hw i) he,
    filter_bonds_of_not_mem member_of_mem_fieldBonds hout]
  rfl

/-- A field with a name that a function can return has one bond or two. -/
theorem memberBonds_of_field (hw : g.library.tree.WellFormed) {m : DeclId}
    (hexposed : m ∈ g.library.exposed i) (hnamed : ¬ g.library.Unnamed m)
    (hfield : (g.library.tree.get m).kind.isReadable) (handle : String) :
    ∃ ruby, (g.memberBonds i handle).filter (fun b => b.member == m) =
      g.library.fieldBonds handle (m, ruby) := by
  have hkey : m ∈ (g.library.members i).fields.map Prod.fst := by
    rw [map_fst_fields, List.mem_filter, isSome_memberName? hnamed, hfield]
    exact ⟨hexposed, rfl⟩
  have hkeys : ((g.library.members i).fields.map Prod.fst).Nodup := by
    rw [map_fst_fields]
    exact ((hw.children_nodup i).filter _).filter _
  have hout : m ∉ (g.library.members i).methods.map Prod.fst := by
    rw [Library.map_fst_members, List.mem_filter, Bool.and_eq_true]
    intro hmem
    rw [not_isReadable_of_isMethod hmem.2.2] at hfield
    cases hfield
  obtain ⟨e, he, rfl⟩ := List.mem_map.mp hkey
  refine ⟨e.2, ?_⟩
  rw [memberBonds, List.filter_append, filter_bonds_of_not_mem member_of_mem_methodBonds hout,
    filter_bonds_of_mem member_of_mem_fieldBonds hkeys he]
  rfl

/-! ## The result -/

/-- **No member is dropped but those without a name.** Whenever a class is planned that is not being
planned already, each of its exposed methods has one binding in the plan, on the class itself if it
is static and not virtual; each exposed field that a function can return has one to read it, and one
to write it exactly if it can be assigned to. A member that was not renamed and whose name begins
with a tilde or with `operator` has none. -/
theorem bindings_of_members (hw : g.library.tree.WellFormed) (hm : g.library.MovesSound)
    {unplanned : List DeclId} {parent : Option String} (hrecord : (g.library.tree.get i).isRecord)
    (hi : i ∉ unplanned) {s s' : Session}
    (hrun : (g.classPlan (g.planOf unplanned) parent i).run.run s = (.ok p, s')) :
    ∃ r parts, p = .region r parts ∧ ∀ m ∈ g.library.exposed i,
      let kind := (g.library.tree.get m).kind
      (g.library.Unnamed m → g.bindings i p m = []) ∧
      (¬ g.library.Unnamed m →
        (kind.isMethod → ∃ ruby target,
          g.bindings i p m = [(.call, .bind (kind.place r.handle) ruby target)]) ∧
        (kind.isReadable → ∃ ruby getter setter,
          g.bindings i p m = (.read, .bind (kind.place r.handle) ruby getter) ::
            if kind.isWritable then [(.write, .bind (kind.place r.handle) (ruby ++ "=") setter)]
            else [])) := by
  obtain ⟨r, parts, hplan, hmade⟩ := bindings_made hw hm hrecord hi hrun
  refine ⟨r, parts, hplan, fun m hexposed => ?_⟩
  have hbonds := hmade m hexposed
  refine ⟨fun hunnamed => ?_, fun hnamed => ⟨fun hmethod => ?_, fun hfield => ?_⟩⟩
  · rw [memberBonds_of_unnamed hunnamed] at hbonds
    exact List.forall₂_nil_left_iff.mp hbonds
  · obtain ⟨ruby, hbond⟩ := memberBonds_of_method hw hexposed hnamed hmethod r.handle
    rw [hbond] at hbonds
    generalize g.bindings i p m = bindings at hbonds ⊢
    cases hbonds with
    | cons hcall hnil =>
      cases hnil
      obtain ⟨target, rfl⟩ := hcall
      exact ⟨ruby, target, rfl⟩
  · obtain ⟨ruby, hbond⟩ := memberBonds_of_field hw hexposed hnamed hfield r.handle
    rw [hbond, Library.fieldBonds] at hbonds
    generalize g.bindings i p m = bindings at hbonds ⊢
    cases hbonds with
    | cons hread hwrite =>
      obtain ⟨getter, rfl⟩ := hread
      refine ⟨ruby, getter, ?_⟩
      dsimp only at hwrite ⊢
      split at hwrite
      next hwritable =>
        cases hwrite with
        | cons hset hnil =>
          cases hnil
          obtain ⟨setter, rfl⟩ := hset
          exact ⟨setter, by rw [if_pos hwritable]⟩
      next hreadonly =>
        cases hwrite
        exact ⟨"", by rw [if_neg hreadonly]⟩

/-- A calculator with a static and a virtual method, a field that can be assigned to and one that
cannot, and a method whose name begins with `operator`. -/
def calculatorTree : DeclTree :=
  let int : Ty := .integer .int true
  let t := (DeclTree.empty.add DeclTree.root "Calculator" (.record false [])).2
  let t := (t.add 1 "sum" (.method int [] { isStatic := true })).2
  let t := (t.add 1 "run" (.method .void [] { isVirtual := true })).2
  let t := (t.add 1 "total" (.field int false false)).2
  let t := (t.add 1 "limit" (.field int false true)).2
  (t.add 1 "operators" (.method int [] {})).2

theorem calculatorTree_built : calculatorTree.Built := by
  refine .add (.add (.add (.add (.add (.add .empty ?_ _ _) ?_ _ _) ?_ _ _) ?_ _ _) ?_ _ _) ?_ _ _
  all_goals decide

def calculatorSetting : Setting := { library := .ofTree calculatorTree }

/-- The plan of the calculator, on its own. -/
def calculatorPlan : Gen Plan := calculatorSetting.classPlan (calculatorSetting.planOf []) none 1

theorem calculatorPlan_isOk : (calculatorPlan.run.run {}).1.isOk = true := by decide +kernel

theorem exposed_calculator : calculatorSetting.library.exposed 1 = [2, 3, 4, 5, 6] := by cbv

theorem bindings_of_members_calculator :
    ∃ p s r parts, calculatorPlan.run.run {} = (.ok p, s) ∧ p = .region r parts ∧
      (∃ ruby target, calculatorSetting.bindings 1 p 2 =
        [(.call, .bind (.singleton r.handle) ruby target)]) ∧
      (∃ ruby target, calculatorSetting.bindings 1 p 3 =
        [(.call, .bind (.method r.handle) ruby target)]) ∧
      (∃ ruby getter setter, calculatorSetting.bindings 1 p 4 =
        [(.read, .bind (.method r.handle) ruby getter),
          (.write, .bind (.method r.handle) (ruby ++ "=") setter)]) ∧
      ∃ ruby getter, calculatorSetting.bindings 1 p 5 =
        [(.read, .bind (.method r.handle) ruby getter)] := by
  obtain ⟨p, s, hrun⟩ := Library.exists_of_isOk calculatorPlan_isOk
  obtain ⟨r, parts, hplan, hmembers⟩ := bindings_of_members calculatorTree_built.wellFormed
    (.ofTree calculatorTree) (by rfl) List.not_mem_nil hrun
  have hnames : [2, 3, 4, 5].all (fun m => (calculatorSetting.library.memberName? m).isSome) =
      true := by decide +kernel
  have hbound : ∀ m ∈ [2, 3, 4, 5], m ∈ calculatorSetting.library.exposed 1 ∧
      ¬ calculatorSetting.library.Unnamed m := by
    intro m hm
    refine ⟨?_, fun hunnamed => ?_⟩
    · rw [exposed_calculator]
      exact List.mem_append_left [6] hm
    · have hname := List.all_eq_true.mp hnames m hm
      rw [Library.memberName?_eq_none_iff.mpr hunnamed] at hname
      cases hname
  have hmember := fun m hm => (hmembers m (hbound m hm).1).2 (hbound m hm).2
  obtain ⟨ruby, getter, setter, hwritable⟩ := (hmember 4 (by decide)).2 rfl
  obtain ⟨ruby', getter', setter', hreadonly⟩ := (hmember 5 (by decide)).2 rfl
  exact ⟨p, s, r, parts, hrun, hplan, (hmember 2 (by decide)).1 rfl, (hmember 3 (by decide)).1 rfl,
    ⟨ruby, getter, setter, hwritable⟩, ruby', getter', hreadonly⟩

/-- Nothing binds the method `operators`, although its name is an ordinary identifier. -/
theorem not_bound_operators :
    ∃ p s, calculatorPlan.run.run {} = (.ok p, s) ∧ 6 ∈ calculatorSetting.library.exposed 1 ∧
      (calculatorTree.get 6).kind.isMethod ∧ (calculatorTree.get 6).name = "operators" ∧
      Text.IsIdentifier "operators" ∧ "operators" ≠ "operator" ∧
      calculatorSetting.bindings 1 p 6 = [] := by
  obtain ⟨p, s, hrun⟩ := Library.exists_of_isOk calculatorPlan_isOk
  have hmem : 6 ∈ calculatorSetting.library.exposed 1 := by
    rw [exposed_calculator]
    decide
  refine ⟨p, s, hrun, hmem, rfl, rfl, by decide, by decide, ?_⟩
  obtain ⟨r, parts, -, hmade⟩ := bindings_made calculatorTree_built.wellFormed
    (.ofTree calculatorTree) (by rfl) List.not_mem_nil hrun
  have hbonds := hmade 6 hmem
  have hunnamed : calculatorSetting.library.Unnamed 6 := ⟨rfl, .inr ⟨['s'], rfl⟩⟩
  rw [memberBonds_of_unnamed hunnamed] at hbonds
  exact List.forall₂_nil_left_iff.mp hbonds

end Setting

end RubyBinding
