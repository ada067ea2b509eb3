import Mathlib
import RubyBinding.Proofs.Planning

/-!
# Everything is bound once

An extension for a namespace has one region for each declaration that is to have one, inside the
region of the class or namespace that the declaration is bound in; and what is wrapped is wrapped
there. All of this is read off the shape of the plans (`Setting.PlanFor`):

* the plans in one region are for different declarations, and a declaration lies in the plan of one
  of them only, because the way outwards from it is unique (`PlanFor.nodes_disjoint`);
* what a planned class or namespace is to hold is planned in it (`PlanFor.closed`);
* nothing lies inside itself, since what is being planned is not planned again.

`bindsOnce_of_extension` puts this together.
-/

namespace RubyBinding

namespace Plan

theorem nodes_region (r : Region) (ps : List Plan) :
    (region r ps).nodes = r.node.toList ++ ps.flatMap nodes := by
  have hparts : (ps.flatMap regions).filterMap Region.node = ps.flatMap nodes := by
    rw [List.filterMap_flatMap]
    rfl
  rw [nodes, regions, regionsOf_eq_flatMap, List.filterMap_cons, hparts]
  cases r.node <;> rfl

end Plan

namespace Setting

variable {g : Setting} {claimed unplanned : List DeclId} {i j c : DeclId} {p : Plan}

theorem IsDirector.nodes (h : g.IsDirector p) : p.nodes = [] := by
  obtain ⟨r, rfl, hr⟩ := h
  rw [Plan.nodes_region, hr.node]
  rfl

/-- The region of a declaration without parts has that declaration only. -/
theorem RegionFor.nodes {r : Region} (h : g.RegionFor i r) : (Plan.region r []).nodes = [i] := by
  rw [Plan.nodes_region, h.node]
  rfl

/-- Directors are for no declaration, so that the declarations of a region with directors are its
own and those of its other parts. -/
theorem nodes_holder {r : Region} {directors parts : List Plan} (hnode : r.node = some i)
    (hdirectors : ∀ d ∈ directors, g.IsDirector d) :
    (Plan.region r (directors ++ parts)).nodes = i :: parts.flatMap Plan.nodes := by
  have hnone : directors.flatMap Plan.nodes = [] := by
    rw [List.flatMap_eq_nil_iff]
    exact fun d hd => (hdirectors d hd).nodes
  rw [Plan.nodes_region, hnode, List.flatMap_append, hnone]
  rfl

theorem exists_zip_of_mem_left {α β : Type} {as : List α} {bs : List β}
    (hlength : as.length = bs.length) {a : α} (ha : a ∈ as) : ∃ b, (a, b) ∈ as.zip bs := by
  rw [← List.map_fst_zip (Nat.le_of_eq hlength)] at ha
  obtain ⟨⟨a, b⟩, hab, rfl⟩ := List.mem_map.mp ha
  exact ⟨b, hab⟩

theorem exists_zip_of_mem_right {α β : Type} {as : List α} {bs : List β}
    (hlength : as.length = bs.length) {b : β} (hb : b ∈ bs) : ∃ a, (a, b) ∈ as.zip bs := by
  rw [← List.map_snd_zip (Nat.le_of_eq hlength.symm)] at hb
  obtain ⟨⟨a, b⟩, hab, rfl⟩ := List.mem_map.mp hb
  exact ⟨a, hab⟩

theorem mem_nodes_holder {r : Region} {directors parts : List Plan} (hnode : r.node = some i)
    (hdirectors : ∀ d ∈ directors, g.IsDirector d)
    (hlength : (g.planned claimed i).length = parts.length) :
    j ∈ (Plan.region r (directors ++ parts)).nodes ↔
      j = i ∨ ∃ c q, (c, q) ∈ (g.planned claimed i).zip parts ∧ j ∈ q.nodes := by
  rw [nodes_holder hnode hdirectors, List.mem_cons, List.mem_flatMap]
  refine or_congr_right ⟨?_, ?_⟩
  · rintro ⟨q, hq, hj⟩
    obtain ⟨c, hcq⟩ := exists_zip_of_mem_right hlength hq
    exact ⟨c, q, hcq, hj⟩
  · rintro ⟨c, q, hcq, hj⟩
    exact ⟨q, (List.of_mem_zip hcq).2, hj⟩

theorem isHolder_of_isEnumeration (h : (g.library.tree.get i).kind.isEnumeration) :
    ¬ g.library.isHolder i := by
  unfold Library.isHolder Decl.isRecord Decl.isNamespace
  cases hkind : (g.library.tree.get i).kind with
  | enumeration isScoped values => exact Bool.false_ne_true
  | _ => rw [hkind] at h; cases h

/-! ## One plan -/

namespace PlanFor

/-- The plan for a declaration is for that declaration. -/
theorem self_mem (h : g.PlanFor claimed unplanned i p) : i ∈ p.nodes := by
  cases h with
  | enumeration _ hr =>
    rw [hr.nodes]
    exact List.mem_singleton_self i
  | holder _ _ hr hdirectors _ _ =>
    rw [nodes_holder hr.node hdirectors]
    exact List.mem_cons_self

/-- Every class or namespace in a plan was left to be planned. -/
theorem mem_unplanned (h : g.PlanFor claimed unplanned i p) (hj : j ∈ p.nodes)
    (hholder : g.library.isHolder j) : j ∈ unplanned := by
  induction h with
  | enumeration hkind hr =>
    rw [hr.nodes] at hj
    rw [List.mem_singleton.mp hj] at hholder
    exact absurd hholder (isHolder_of_isEnumeration hkind)
  | holder _ hi hr hdirectors hlength _ ih =>
    rcases (mem_nodes_holder hr.node hdirectors hlength).mp hj with rfl | ⟨c, q, hcq, hj⟩
    · exact hi
    · exact List.mem_of_mem_erase (ih c q hcq hj)

/-- Whatever else is in a plan was planned in a class or namespace of that plan. -/
theorem exists_planned (h : g.PlanFor claimed unplanned i p) (hj : j ∈ p.nodes) :
    j = i ∨ ∃ o ∈ p.nodes, g.library.isHolder o ∧ j ∈ g.planned claimed o := by
  induction h with
  | enumeration _ hr =>
    rw [hr.nodes] at hj
    exact .inl (List.mem_singleton.mp hj)
  | holder hkind _ hr hdirectors hlength _ ih =>
    rcases (mem_nodes_holder hr.node hdirectors hlength).mp hj with rfl | ⟨c, q, hcq, hj⟩
    · exact .inl rfl
    · rcases ih c q hcq hj with rfl | ⟨o, ho, hheld, hplanned⟩
      · refine .inr ⟨_, (mem_nodes_holder hr.node hdirectors hlength).mpr (.inl rfl), hkind, ?_⟩
        exact (List.of_mem_zip hcq).1
      · refine .inr ⟨o, ?_, hheld, hplanned⟩
        exact (mem_nodes_holder hr.node hdirectors hlength).mpr (.inr ⟨c, q, hcq, ho⟩)

/-- Whatever is to be planned in a class or namespace of a plan is in that plan. -/
theorem closed (h : g.PlanFor claimed unplanned i p) (hj : j ∈ p.nodes)
    (hholder : g.library.isHolder j) (hc : c ∈ g.planned claimed j) : c ∈ p.nodes := by
  induction h with
  | enumeration hkind hr =>
    rw [hr.nodes] at hj
    rw [List.mem_singleton.mp hj] at hholder
    exact absurd hholder (isHolder_of_isEnumeration hkind)
  | holder _ _ hr hdirectors hlength hparts ih =>
    refine (mem_nodes_holder hr.node hdirectors hlength).mpr (.inr ?_)
    rcases (mem_nodes_holder hr.node hdirectors hlength).mp hj with rfl | ⟨d, q, hdq, hj⟩
    · obtain ⟨q, hcq⟩ := exists_zip_of_mem_left hlength hc
      exact ⟨c, q, hcq, (hparts c q hcq).self_mem⟩
    · exact ⟨d, q, hdq, ih d q hdq hj⟩

/-- A class or namespace lies in none of its own parts. -/
theorem not_mem_part (hu : unplanned.Nodup) (hholder : g.library.isHolder i)
    (h : g.PlanFor claimed (unplanned.erase i) c p) : i ∉ p.nodes := by
  intro hi
  have hmem := h.mem_unplanned hi hholder
  exact ((List.Nodup.mem_erase_iff hu).mp hmem).1 rfl

/-- A plan does not lie in itself: what it is for is planned in nothing that is in it. -/
theorem not_planned (hu : unplanned.Nodup) (h : g.PlanFor claimed unplanned i p) (hj : j ∈ p.nodes)
    (hholder : g.library.isHolder j) : i ∉ g.planned claimed j := by
  intro hi
  cases h with
  | enumeration hkind hr =>
    rw [hr.nodes] at hj
    rw [List.mem_singleton.mp hj] at hholder
    exact absurd hholder (isHolder_of_isEnumeration hkind)
  | @holder _ _ _ _ parts hkind _ hr hdirectors hlength hparts =>
    -- Either way, `i` is in one of the parts, and was taken out before that part was planned.
    have hpart : ∃ c q, (c, q) ∈ (g.planned claimed i).zip parts ∧ i ∈ q.nodes := by
      rcases (mem_nodes_holder hr.node hdirectors hlength).mp hj with rfl | ⟨d, q, hdq, hj⟩
      · obtain ⟨q, hq⟩ := exists_zip_of_mem_left hlength hi
        exact ⟨j, q, hq, (hparts j q hq).self_mem⟩
      · exact ⟨d, q, hdq, (hparts d q hdq).closed hj hholder hi⟩
    obtain ⟨c, q, hcq, hiq⟩ := hpart
    exact (hparts c q hcq).not_mem_part hu hkind hiq

end PlanFor

/-! ## Plans side by side -/

section Siblings

variable {d : DeclId} {q : Plan} {unplanned' : List DeclId}

theorem boundIn_of_mem_planned (hw : g.library.tree.WellFormed) (hm : g.library.MovesSound)
    (hc : c ∈ g.planned claimed i) : g.library.BoundIn c i :=
  boundIn_of_mem_contents hw hm (List.mem_filter.mp hc).1

/-- The way outwards from a declaration leads to what a plan is for, if the declaration is in the
plan. So of two plans with a common declaration, one is for something in the other. -/
theorem PlanFor.mem_or_mem (hw : g.library.tree.WellFormed) (hm : g.library.MovesSound)
    (h : g.PlanFor claimed unplanned c p) (h' : g.PlanFor claimed unplanned' d q)
    (hj : j ∈ p.nodes) (hj' : j ∈ q.nodes) : c ∈ q.nodes ∨ d ∈ p.nodes := by
  induction h with
  | enumeration _ hr =>
    rw [hr.nodes] at hj
    rw [List.mem_singleton.mp hj] at hj'
    exact .inl hj'
  | holder _ _ hr hdirectors hlength hparts ih =>
    have hnodes := fun x => mem_nodes_holder (j := x) hr.node hdirectors hlength
    rcases (hnodes _).mp hj with rfl | ⟨b, r, hbr, hj⟩
    · exact .inl hj'
    rcases ih b r hbr hj with hb | hd
    · -- If `b` is in the other plan, so is what `b` is bound in, unless `b` is what it is for.
      rcases h'.exists_planned hb with rfl | ⟨o, ho, -, hplanned⟩
      · exact .inr ((hnodes _).mpr (.inr ⟨_, r, hbr, (hparts _ r hbr).self_mem⟩))
      · have hbi := boundIn_of_mem_planned hw hm (List.of_mem_zip hbr).1
        have hbo := boundIn_of_mem_planned hw hm hplanned
        rw [Library.BoundIn, hbi] at hbo
        cases hbo
        exact .inl ho
    · exact .inr ((hnodes _).mpr (.inr ⟨b, r, hbr, hd⟩))

/-- What is planned in `i` lies in no other plan there, unless `i` itself does. -/
theorem PlanFor.not_mem_of_ne (hw : g.library.tree.WellFormed) (hm : g.library.MovesSound)
    (hc : c ∈ g.planned claimed i) (h : g.PlanFor claimed unplanned d q) (hne : c ≠ d)
    (hi : i ∉ q.nodes) : c ∉ q.nodes := by
  intro hcq
  rcases h.exists_planned hcq with rfl | ⟨o, ho, -, hplanned⟩
  · exact hne rfl
  · have hci := boundIn_of_mem_planned hw hm hc
    have hco := boundIn_of_mem_planned hw hm hplanned
    rw [Library.BoundIn, hci] at hco
    cases hco
    exact hi ho

/-- The plans for two declarations that are planned in `i` have nothing in common. -/
theorem PlanFor.nodes_disjoint (hw : g.library.tree.WellFormed) (hm : g.library.MovesSound)
    (hc : c ∈ g.planned claimed i) (hd : d ∈ g.planned claimed i) (hne : c ≠ d)
    (h : g.PlanFor claimed unplanned c p) (h' : g.PlanFor claimed unplanned' d q)
    (hp : i ∉ p.nodes) (hq : i ∉ q.nodes) : List.Disjoint p.nodes q.nodes := by
  intro j hj hj'
  rcases h.mem_or_mem hw hm h' hj hj' with hmem | hmem
  · exact h'.not_mem_of_ne hw hm hc hne hq hmem
  · exact h.not_mem_of_ne hw hm hd hne.symm hp hmem

/-- Side by side, the plans for what is planned in `i` have each declaration once, if each of them
does and `i` is in none. -/
theorem nodup_flatMap_nodes (hw : g.library.tree.WellFormed) (hm : g.library.MovesSound)
    {cs : List DeclId} {ps : List Plan} (hcs : cs.Nodup)
    (hplanned : ∀ c ∈ cs, c ∈ g.planned claimed i)
    (h : List.Forall₂ (fun c p => g.PlanFor claimed unplanned c p ∧ i ∉ p.nodes ∧ p.nodes.Nodup)
      cs ps) : (ps.flatMap Plan.nodes).Nodup := by
  induction h with
  | nil => exact List.nodup_nil
  | @cons c p cs ps hcp hrest ih =>
    obtain ⟨hplan, hp, hnodup⟩ := hcp
    obtain ⟨hc, hcs⟩ := List.nodup_cons.mp hcs
    rw [List.flatMap_cons, List.nodup_append']
    refine ⟨hnodup, ih hcs fun d hd => hplanned d (List.mem_cons_of_mem _ hd), ?_⟩
    intro j hj hj'
    obtain ⟨q, hq, hj'⟩ := List.mem_flatMap.mp hj'
    obtain ⟨d, hd, hplan', hq', -⟩ := exists_of_forall₂ hrest hq
    have hne : c ≠ d := fun hcd => hc (hcd ▸ hd)
    exact hplan.nodes_disjoint hw hm (hplanned c List.mem_cons_self)
      (hplanned d (List.mem_cons_of_mem _ hd)) hne hplan' hp hq' hj hj'

theorem planned_nodup (hw : g.library.tree.WellFormed) (hm : g.library.MovesSound) (i : DeclId) :
    (g.planned claimed i).Nodup := by
  refine List.Nodup.filter _ ?_
  exact (contents_sublist_bound i).nodup (Library.bound_nodup hw hm i)

/-- **A plan has each declaration once.** -/
theorem PlanFor.nodes_nodup (hw : g.library.tree.WellFormed) (hm : g.library.MovesSound)
    (hu : unplanned.Nodup) (h : g.PlanFor claimed unplanned i p) : p.nodes.Nodup := by
  induction h with
  | enumeration _ hr =>
    rw [hr.nodes]
    exact List.nodup_singleton _
  | @holder unplanned i _ _ parts hkind _ hr hdirectors hlength hparts ih =>
    have hpart : ∀ c q, (c, q) ∈ (g.planned claimed i).zip parts →
        g.PlanFor claimed (unplanned.erase i) c q ∧ i ∉ q.nodes ∧ q.nodes.Nodup := by
      intro c q hcq
      exact ⟨hparts c q hcq, (hparts c q hcq).not_mem_part hu hkind, ih c q hcq (hu.erase i)⟩
    rw [nodes_holder hr.node hdirectors, List.nodup_cons]
    refine ⟨?_, ?_⟩
    · intro hi
      obtain ⟨q, hq, hiq⟩ := List.mem_flatMap.mp hi
      obtain ⟨c, hcq⟩ := exists_zip_of_mem_right hlength hq
      exact (hpart c q hcq).2.1 hiq
    · exact nodup_flatMap_nodes hw hm (planned_nodup hw hm i) (fun c hc => hc)
        (List.forall₂_iff_zip.mpr ⟨hlength, fun {c q} hcq => hpart c q hcq⟩)

end Siblings

/-! ## Extensions -/

section Extensions

variable {ns o : DeclId} {e : Extension}

/-- Outside the global namespace, everything that is bound somewhere is held there. -/
theorem contents_of_ne_root (h : o ≠ DeclTree.root) : g.contents o = g.library.bound o := by
  have hitems : g.namespaceItems o = g.library.bound o := by
    rw [namespaceItems, if_neg h]
    rfl
  rw [contents, hitems]
  split <;> rfl

theorem mem_planned_iff (hw : g.library.tree.WellFormed) (hm : g.library.MovesSound)
    (ho : o ≠ DeclTree.root) :
    i ∈ g.planned [] o ↔
      (g.library.isIgnored i = false ∧ g.library.binder? i = some o) ∧
        (g.library.tree.get i).name.isEmpty = false ∧
          ((g.library.tree.get i).isRecord ∨ (g.library.tree.get i).kind.isEnumeration ∨
            (g.library.tree.get i).isNamespace ∧ (g.library.tree.get o).isNamespace) := by
  rw [planned, List.mem_filter, contents_of_ne_root ho, Library.mem_bound_iff hw hm]
  refine and_congr_right fun _ => ?_
  simp [isPart, or_assoc]

theorem ne_root_of_mem_planned (hw : g.library.tree.WellFormed) (hm : g.library.MovesSound)
    (hi : i ∈ g.planned claimed o) : i ≠ DeclTree.root := by
  rintro rfl
  have hbound : g.library.binder? DeclTree.root = some o := boundIn_of_mem_planned hw hm hi
  rw [Library.binder?_root hw hm] at hbound
  cases hbound

theorem isHolder_of_isNamespace (ho : (g.library.tree.get o).isNamespace) :
    g.library.isHolder o := by
  rw [Library.isHolder, ho, Bool.or_true]

section Parts

variable {ps : List Plan}
  (h : List.Forall₂ (g.PlanFor claimed g.library.tree.ids) (g.planned claimed o) ps)
  (ho : g.library.isHolder o)

include h ho

/-- What is being planned is not planned again inside. -/
theorem not_mem_nodes_of_parts : o ∉ ps.flatMap Plan.nodes := by
  intro hmem
  obtain ⟨p, hp, hmem⟩ := List.mem_flatMap.mp hmem
  obtain ⟨c, hc, hplan⟩ := exists_of_forall₂ h hp
  exact hplan.not_planned List.nodup_range hmem ho hc

theorem nodup_nodes_of_parts (hw : g.library.tree.WellFormed) (hm : g.library.MovesSound) :
    (ps.flatMap Plan.nodes).Nodup := by
  have hout := not_mem_nodes_of_parts h ho
  obtain ⟨hlength, hzip⟩ := List.forall₂_iff_zip.mp h
  have hparts : List.Forall₂
      (fun c p => g.PlanFor claimed g.library.tree.ids c p ∧ o ∉ p.nodes ∧ p.nodes.Nodup)
      (g.planned claimed o) ps := by
    refine List.forall₂_iff_zip.mpr ⟨hlength, fun {c p} hcp => ⟨hzip hcp, ?_, ?_⟩⟩
    · intro hmem
      exact hout (List.mem_flatMap.mpr ⟨p, (List.of_mem_zip hcp).2, hmem⟩)
    · exact (hzip hcp).nodes_nodup hw hm List.nodup_range
  exact nodup_flatMap_nodes hw hm (planned_nodup hw hm o) (fun c hc => hc) hparts

end Parts

namespace NamespaceExtension

theorem nodes (h : g.NamespaceExtension ns e) : e.plan.nodes = e.parts.flatMap Plan.nodes := by
  rw [Extension.plan, Plan.nodes_region, h.node]
  rfl

/-- The namespace itself is bound nowhere inside: it is being planned all the time. -/
theorem not_mem_nodes (h : g.NamespaceExtension ns e) (hns : (g.library.tree.get ns).isNamespace) :
    ns ∉ e.plan.nodes := by
  rw [h.nodes]
  exact not_mem_nodes_of_parts h.parts (isHolder_of_isNamespace hns)

theorem nodes_nodup (hw : g.library.tree.WellFormed) (hm : g.library.MovesSound)
    (h : g.NamespaceExtension ns e) (hns : (g.library.tree.get ns).isNamespace) :
    e.plan.nodes.Nodup := by
  rw [h.nodes]
  exact nodup_nodes_of_parts h.parts (isHolder_of_isNamespace hns) hw hm

/-- The declarations with regions are what is planned in the namespace or in one of them. -/
theorem mem_nodes_iff (h : g.NamespaceExtension ns e) :
    i ∈ e.plan.nodes ↔
      ∃ o, i ∈ g.planned [] o ∧ (o = ns ∨ o ∈ e.plan.nodes ∧ g.library.isHolder o) := by
  rw [h.nodes]
  constructor
  · intro hi
    obtain ⟨p, hp, hi⟩ := List.mem_flatMap.mp hi
    obtain ⟨c, hc, hplan⟩ := exists_of_forall₂ h.parts hp
    rcases hplan.exists_planned hi with rfl | ⟨o, ho, hholder, hplanned⟩
    · exact ⟨ns, hc, .inl rfl⟩
    · exact ⟨o, hplanned, .inr ⟨List.mem_flatMap.mpr ⟨p, hp, ho⟩, hholder⟩⟩
  · rintro ⟨o, hi, rfl | ⟨ho, hholder⟩⟩
    · obtain ⟨hlength, hzip⟩ := List.forall₂_iff_zip.mp h.parts
      obtain ⟨p, hp⟩ := exists_zip_of_mem_left hlength hi
      exact List.mem_flatMap.mpr ⟨p, (List.of_mem_zip hp).2, (hzip hp).self_mem⟩
    · obtain ⟨p, hp, ho⟩ := List.mem_flatMap.mp ho
      obtain ⟨c, -, hplan⟩ := exists_of_forall₂ h.parts hp
      exact List.mem_flatMap.mpr ⟨p, hp, hplan.closed ho hholder hi⟩

/-- What a region of the extension makes available is bound in its declaration. -/
theorem region_cases (h : g.NamespaceExtension ns e) {r : Region}
    (hr : r ∈ e.parts.flatMap Plan.regions) :
    g.DirectorRegion r ∨ ∃ o ∈ e.plan.nodes, g.RegionFor o r := by
  obtain ⟨p, hp, hrp⟩ := List.mem_flatMap.mp hr
  obtain ⟨c, -, hplan⟩ := exists_of_forall₂ h.parts hp
  rcases hplan.region_cases r hrp with hdirector | ⟨o, hregion⟩
  · exact .inl hdirector
  · refine .inr ⟨o, ?_, hregion⟩
    rw [h.nodes]
    exact List.mem_flatMap.mpr ⟨p, hp, List.mem_filterMap.mpr ⟨r, hrp, hregion.node⟩⟩

/-- A region that wraps something is the region of what holds it. -/
theorem exists_node_of_mem_wrapped (h : g.NamespaceExtension ns e) {r : Region}
    (hr : r ∈ e.parts.flatMap Plan.regions) {f : DeclId} (hf : f ∈ r.wrapped) :
    ∃ o ∈ e.plan.nodes, r.node = some o ∧ f ∈ g.contents o := by
  rcases h.region_cases hr with hdirector | ⟨o, ho, hregion⟩
  · rw [hdirector.wrapped] at hf
    cases hf
  · exact ⟨o, ho, hregion.node, hregion.wrapped_mem f hf⟩

/-- **No function is made available twice.** Regions are for different declarations, and functions
are bound in one of them only. -/
theorem functions_nodup (hw : g.library.tree.WellFormed) (hm : g.library.MovesSound)
    (h : g.NamespaceExtension ns e) (hns : (g.library.tree.get ns).isNamespace) :
    (e.plan.wrapped.filter fun f => (g.library.tree.get f).kind.isFunction).Nodup := by
  have hcontents : ∀ o, (g.contents o).Nodup := fun o =>
    (contents_sublist_bound o).nodup (Library.bound_nodup hw hm o)
  have hunique : ∀ {o o' f}, f ∈ g.contents o → f ∈ g.contents o' → o = o' := by
    intro o o' f ho ho'
    have hbound : g.library.binder? f = some o := boundIn_of_mem_contents hw hm ho
    have hbound' : g.library.binder? f = some o' := boundIn_of_mem_contents hw hm ho'
    rw [hbound] at hbound'
    exact Option.some.inj hbound'
  have hregions : e.plan.regions = e.root :: e.parts.flatMap Plan.regions := by
    rw [Extension.plan, Plan.regions, Plan.regionsOf_eq_flatMap]
  have hnodes : (e.parts.flatMap Plan.regions).Pairwise fun r r' =>
      ∀ i, r.node = some i → r'.node ≠ some i := by
    have hnodup := h.nodes_nodup hw hm hns
    rw [Plan.nodes, hregions, List.filterMap_cons, h.node, List.Nodup,
      List.pairwise_filterMap] at hnodup
    refine hnodup.imp fun hne i hi hi' => hne i hi i hi' rfl
  rw [Plan.wrapped, List.filter_flatMap, hregions, List.nodup_flatMap]
  refine ⟨?_, List.pairwise_cons.mpr ⟨?_, hnodes.imp_of_mem ?_⟩⟩
  · intro r hr
    rcases List.mem_cons.mp hr with rfl | hr
    · exact (List.filter_sublist.trans h.wrapped).nodup (hcontents ns)
    · rcases h.region_cases hr with hdirector | ⟨o, -, hregion⟩
      · rw [hdirector.wrapped]
        exact List.nodup_nil
      · rw [hregion.functions]
        exact (freeFunctions_sublist o).nodup (hcontents o)
  · -- What the root wraps is held by the namespace, which has no region.
    intro r hr f hf hf'
    have hfns := h.wrapped.subset (List.mem_filter.mp hf).1
    obtain ⟨o, ho, -, hfo⟩ := h.exists_node_of_mem_wrapped hr (List.mem_filter.mp hf').1
    rw [hunique hfo hfns] at ho
    exact h.not_mem_nodes hns ho
  · intro r r' hr hr' hne f hf hf'
    obtain ⟨o, -, hnode, hfo⟩ := h.exists_node_of_mem_wrapped hr (List.mem_filter.mp hf).1
    obtain ⟨o', -, hnode', hfo'⟩ := h.exists_node_of_mem_wrapped hr' (List.mem_filter.mp hf').1
    rw [hunique hfo' hfo] at hnode'
    exact hne o hnode hnode'

end NamespaceExtension

/-! ## Where things are -/

/-- Whatever is at an address in a plan is a director or the plan for a declaration. -/
theorem PlanFor.at?_cases (h : g.PlanFor claimed unplanned i p) {a : List Nat} {q : Plan}
    (ha : p.at? a = some q) :
    g.IsDirector q ∨ ∃ unplanned' o, g.PlanFor claimed unplanned' o q := by
  induction a generalizing unplanned i p with
  | nil =>
    cases ha
    exact .inr ⟨unplanned, i, h⟩
  | cons k a ih =>
    cases h with
    | enumeration _ _ => cases ha
    | holder _ _ _ hdirectors hlength hparts =>
      rw [Plan.at?] at ha
      split at ha
      · next part hpart =>
        rcases List.mem_append.mp (List.mem_of_getElem? hpart) with hmem | hmem
        · obtain ⟨r, rfl, hr⟩ := hdirectors part hmem
          cases a with
          | nil =>
            cases ha
            exact .inl ⟨r, rfl, hr⟩
          | cons l a => cases ha
        · obtain ⟨c, hc⟩ := exists_zip_of_mem_right hlength hmem
          exact ih (hparts c part hc) ha
      · cases ha

theorem PlanFor.node (h : g.PlanFor claimed unplanned i p) : p.node = some i := by
  cases h with
  | enumeration _ hr => exact hr.node
  | holder _ _ hr _ _ _ => exact hr.node

theorem PlanFor.regionFor {r : Region} {ps : List Plan}
    (h : g.PlanFor claimed unplanned o (.region r ps)) : g.RegionFor o r := by
  cases h with
  | enumeration _ hr => exact hr
  | holder _ _ hr _ _ _ => exact hr

/-- What has a region inside the region of a declaration is planned in that declaration. -/
theorem PlanFor.planned_of_part {r : Region} {ps : List Plan}
    (h : g.PlanFor claimed unplanned o (.region r ps)) (hp : p ∈ ps) (hnode : p.node = some c) :
    c ∈ g.planned claimed o := by
  cases h with
  | enumeration _ _ => cases hp
  | holder _ _ _ hdirectors hlength hparts =>
    rcases List.mem_append.mp hp with hmem | hmem
    · obtain ⟨r', rfl, hr'⟩ := hdirectors p hmem
      rw [Plan.node, hr'.node] at hnode
      cases hnode
    · obtain ⟨d, hd⟩ := exists_zip_of_mem_right hlength hmem
      rw [(hparts d p hd).node] at hnode
      cases hnode
      exact (List.of_mem_zip hd).1

/-- Whatever is at an address in an extension is the extension, a director, or the plan for a
declaration. -/
theorem NamespaceExtension.at?_cases (h : g.NamespaceExtension ns e) {a : List Nat} {q : Plan}
    (ha : e.plan.at? a = some q) :
    q = e.plan ∨ g.IsDirector q ∨ ∃ unplanned o, g.PlanFor [] unplanned o q := by
  cases a with
  | nil =>
    cases ha
    exact .inl rfl
  | cons k a =>
    rw [Extension.plan, Plan.at?] at ha
    split at ha
    · next part hpart =>
      obtain ⟨c, -, hplan⟩ := exists_of_forall₂ h.parts (List.mem_of_getElem? hpart)
      exact .inr (hplan.at?_cases ha)
    · cases ha

end Extensions

end Setting

/-! ## The result -/

/-- A declaration is to have a region of its own in an extension for the namespace `ns`, if those
with regions are `nodes`: it is a named class or enumeration, or a namespace that is bound in a
namespace, it is not ignored, and it is bound in `ns`, or in a class or namespace with a region. -/
def Library.HasOwnRegion (lib : Library) (ns : DeclId) (nodes : List DeclId) (i : DeclId) : Prop :=
  let d := lib.tree.get i
  d.name.isEmpty = false ∧ lib.isIgnored i = false ∧
    ∃ o, lib.binder? i = some o ∧ (o = ns ∨ o ∈ nodes ∧ lib.isHolder o) ∧
      (d.isRecord ∨ d.kind.isEnumeration ∨ d.isNamespace ∧ (lib.tree.get o).isNamespace)

/-- In an extension for the namespace `ns`, everything is bound where it is to be bound, and nowhere
else. -/
structure Extension.BindsOnce (lib : Library) (ns : DeclId) (e : Extension) : Prop where
  /-- No declaration has two regions. -/
  nodes_nodup : e.plan.nodes.Nodup
  /-- Those that are to have a region have one, and no others. -/
  mem_nodes_iff : ∀ i, i ∈ e.plan.nodes ↔ lib.HasOwnRegion ns e.plan.nodes i
  /-- The region of a declaration is a part of the region of what it is bound in. -/
  binder_of_part : ∀ a r parts, e.plan.at? a = some (.region r parts) → ∀ p ∈ parts, ∀ i,
    p.node = some i → lib.binder? i = some (r.node.getD ns)
  /-- What is wrapped is wrapped in the region of what it is bound in. -/
  binder_of_wrapped : ∀ a r parts, e.plan.at? a = some (.region r parts) → ∀ f ∈ r.wrapped,
    lib.binder? f = some (r.node.getD ns)
  /-- No free function is wrapped twice. -/
  count_wrapped_le : ∀ f, (lib.tree.get f).kind.isFunction → e.plan.wrapped.count f ≤ 1
  /-- What is ignored has no region and no wrapper. -/
  not_mem_of_isIgnored : ∀ i, lib.isIgnored i → i ∉ e.plan.nodes ∧ i ∉ e.plan.wrapped

namespace Setting

variable {g : Setting} {ns : DeclId} {e : Extension}

namespace NamespaceExtension

/-- The declarations with regions are those that are to have one. -/
theorem mem_nodes_iff_hasOwnRegion (hw : g.library.tree.WellFormed) (hm : g.library.MovesSound)
    (h : g.NamespaceExtension ns e) (hroot : ns ≠ DeclTree.root) (i : DeclId) :
    i ∈ e.plan.nodes ↔ g.library.HasOwnRegion ns e.plan.nodes i := by
  have hne : ∀ o, o = ns ∨ o ∈ e.plan.nodes ∧ g.library.isHolder o → o ≠ DeclTree.root := by
    rintro o (rfl | ⟨ho, -⟩)
    · exact hroot
    · obtain ⟨x, hx, -⟩ := h.mem_nodes_iff.mp ho
      exact ne_root_of_mem_planned hw hm hx
  rw [h.mem_nodes_iff]
  constructor
  · rintro ⟨o, hi, ho⟩
    obtain ⟨⟨hign, hbinder⟩, hname, hkind⟩ := (mem_planned_iff hw hm (hne o ho)).mp hi
    exact ⟨hname, hign, o, hbinder, ho, hkind⟩
  · rintro ⟨hname, hign, o, hbinder, ho, hkind⟩
    exact ⟨o, (mem_planned_iff hw hm (hne o ho)).mpr ⟨⟨hign, hbinder⟩, hname, hkind⟩, ho⟩

/-- What is wrapped is held by some class or namespace. -/
theorem exists_contents_of_mem_wrapped (h : g.NamespaceExtension ns e) {f : DeclId}
    (hf : f ∈ e.plan.wrapped) : ∃ o, f ∈ g.contents o := by
  obtain ⟨r, hr, hf⟩ := List.mem_flatMap.mp hf
  rw [Extension.plan, Plan.regions, Plan.regionsOf_eq_flatMap] at hr
  rcases List.mem_cons.mp hr with rfl | hr
  · exact ⟨ns, h.wrapped.subset hf⟩
  · obtain ⟨o, -, -, ho⟩ := h.exists_node_of_mem_wrapped hr hf
    exact ⟨o, ho⟩

/-- Wherever a region is, what has a region inside it and what is wrapped in it are bound in its
declaration; in the root, they are bound in the namespace. -/
theorem boundIn_at? (hw : g.library.tree.WellFormed) (hm : g.library.MovesSound)
    (h : g.NamespaceExtension ns e) {a : List Nat} {r : Region} {parts : List Plan}
    (ha : e.plan.at? a = some (.region r parts)) :
    (∀ p ∈ parts, ∀ i, p.node = some i → g.library.BoundIn i (r.node.getD ns)) ∧
      ∀ f ∈ r.wrapped, g.library.BoundIn f (r.node.getD ns) := by
  rcases h.at?_cases ha with heq | ⟨r', heq, hr'⟩ | ⟨unplanned, o, hplan⟩
  · cases heq
    rw [h.node]
    refine ⟨?_, ?_⟩
    · intro p hp i hnode
      obtain ⟨c, hc, hplan⟩ := exists_of_forall₂ h.parts hp
      rw [hplan.node] at hnode
      cases hnode
      exact boundIn_of_mem_planned hw hm hc
    · intro f hf
      exact boundIn_of_mem_contents hw hm (h.wrapped.subset hf)
  · cases heq
    rw [hr'.wrapped]
    exact ⟨List.forall_mem_nil _, List.forall_mem_nil _⟩
  · rw [hplan.regionFor.node]
    refine ⟨?_, ?_⟩
    · intro p hp i hnode
      exact boundIn_of_mem_planned hw hm (hplan.planned_of_part hp hnode)
    · intro f hf
      exact boundIn_of_mem_contents hw hm (hplan.regionFor.wrapped_mem f hf)

theorem bindsOnce (hw : g.library.tree.WellFormed) (hm : g.library.MovesSound)
    (h : g.NamespaceExtension ns e) (hns : (g.library.tree.get ns).isNamespace)
    (hroot : ns ≠ DeclTree.root) : e.BindsOnce g.library ns where
  nodes_nodup := h.nodes_nodup hw hm hns
  mem_nodes_iff := h.mem_nodes_iff_hasOwnRegion hw hm hroot
  binder_of_part := fun _ _ _ ha => (h.boundIn_at? hw hm ha).1
  binder_of_wrapped := fun _ _ _ ha => (h.boundIn_at? hw hm ha).2
  count_wrapped_le := by
    intro f hf
    have hnodup := h.functions_nodup hw hm hns
    rw [← List.count_filter (p := fun f => (g.library.tree.get f).kind.isFunction) hf]
    exact List.nodup_iff_count_le_one.mp hnodup f
  not_mem_of_isIgnored := by
    intro i hi
    refine ⟨?_, ?_⟩
    · intro hin
      have hign := ((h.mem_nodes_iff_hasOwnRegion hw hm hroot i).mp hin).2.1
      rw [hi] at hign
      cases hign
    · intro hin
      obtain ⟨o, ho⟩ := h.exists_contents_of_mem_wrapped hin
      have hign := ((Library.mem_bound_iff hw hm).mp ((contents_sublist_bound o).subset ho)).1
      rw [hi] at hign
      cases hign

end NamespaceExtension

/-- **Everything is bound once.** Whatever was said about a library, an extension for one of its
namespaces, without explicit modules, has a region for each declaration that is to have one, where
it is bound, and wraps what it wraps there, each free function once at most. -/
theorem bindsOnce_of_extension {t : DeclTree} (ht : t.Built) {es : List Edit}
    (hes : ∀ e ∈ es, e.InTree t) (hg : g.library = (Library.ofTree t).edits es)
    (hroot : ns ≠ DeclTree.root) (hns : (t.get ns).isNamespace) {name : String} {s : Session}
    (hrun : (g.extension name (some ns) []).run.run {} = (.ok e, s)) :
    e.BindsOnce g.library ns := by
  have htree : g.library.tree = t := by
    rw [hg, Library.edits_tree]
    rfl
  have hw : g.library.tree.WellFormed := by
    rw [htree]
    exact ht.wellFormed
  have hm : g.library.MovesSound := by
    rw [hg]
    exact .edits hes
  have hns' : (g.library.tree.get ns).isNamespace := by
    rw [htree]
    exact hns
  have hclaims : Claims [] ({} : Session) := fun _ => Iff.rfl
  have hplan := (namespaceExtension_yields hw hm name hns').of_run hclaims hrun
  exact hplan.1.bindsOnce hw hm hns' hroot

/-- A namespace with two classes and a function. -/
def smallTree : DeclTree :=
  let t := (DeclTree.empty.add DeclTree.root "N" .nspace).2
  let t := (t.add 1 "A" (.record false [])).2
  let t := (t.add 1 "B" (.record false [])).2
  (t.add 1 "f" (.function .void [])).2

/-- The second class and the function go into the first class. -/
def smallEdits : List Edit := [.moveTo 3 2, .moveTo 4 2, .rename 4 "f"]

def smallSetting : Setting := { library := (Library.ofTree smallTree).edits smallEdits }

theorem smallTree_built : smallTree.Built := by
  refine .add (.add (.add (.add .empty ?_ _ _) ?_ _ _) ?_ _ _) ?_ _ _ <;> decide

theorem bindsOnce_small :
    ∃ e s, (smallSetting.extension "N" (some 1) []).run.run {} = (.ok e, s) ∧
      e.BindsOnce smallSetting.library 1 := by
  have hsome : ((smallSetting.extension "N" (some 1) []).run.run {}).1.toOption.isSome = true := by
    cbv
  rcases hrun : (smallSetting.extension "N" (some 1) []).run.run {} with ⟨err | e, s⟩
  · rw [hrun] at hsome
    cases hsome
  · have hedits : ∀ e ∈ smallEdits, e.InTree smallTree := by decide
    exact ⟨e, s, rfl, bindsOnce_of_extension smallTree_built hedits rfl (by decide) rfl hrun⟩

end Setting

end RubyBinding
