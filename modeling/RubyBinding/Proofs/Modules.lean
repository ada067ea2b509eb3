import Mathlib
import RubyBinding.Proofs.Conversions
import RubyBinding.Proofs.Sections

/-!
# Extensions with explicit modules

The namespace of a module is left to that module: wherever the walk meets it, it passes over it, so
that the namespace has the region of its module and no other. The namespace that the extension
itself is for is left to nobody. A module whose namespace leads to it walks through it again, and
this is the only way in which anything is bound twice (`bindsOnce_modules_iff`).
-/

namespace RubyBinding

open Relation (TransGen ReflTransGen)

/-- In an extension with modules, nothing is bound twice: a class or an enumeration has one region
at most, and a free function is wrapped once at most. -/
structure Extension.NoneTwice (lib : Library) (e : Extension) : Prop where
  count_nodes_le : ∀ i, (lib.tree.get i).isRecord ∨ (lib.tree.get i).kind.isEnumeration →
    e.plan.nodes.count i ≤ 1
  count_wrapped_le : ∀ f, (lib.tree.get f).kind.isFunction → e.plan.wrapped.count f ≤ 1

theorem countP_le_one_iff {α : Type} {l : List α} (hl : l.Nodup) (p : α → Bool) :
    l.countP p ≤ 1 ↔ ∀ a ∈ l, ∀ b ∈ l, p a → p b → a = b := by
  classical
  have hcard : l.countP p = (l.toFinset.filter (p · = true)).card := by
    rw [List.countP_eq_length_filter, ← List.toFinset_card_of_nodup (hl.filter _),
      List.toFinset_filter]
  rw [hcard, Finset.card_le_one]
  simp only [Finset.mem_filter, List.mem_toFinset]
  constructor
  · intro h a ha b hb hpa hpb
    exact h a ⟨ha, hpa⟩ b ⟨hb, hpb⟩
  · intro h a ha b hb
    exact h a ha.1 b hb.1 ha.2 hb.2

namespace Setting

variable {g : Setting} {claimed : List DeclId} {ns : Option DeclId} {modules : List ModuleSpec}
  {i m n o : DeclId} {e : Extension}

/-- A namespace and everything that it leads to are nothing that is bound: there is no class, no
enumeration and no free function. -/
def BindsNothing (g : Setting) (claimed : List DeclId) (n : DeclId) : Prop :=
  ∀ i, ReflTransGen (g.Holds claimed) n i →
    (g.library.tree.get i).isRecord = false ∧ (g.library.tree.get i).kind.isEnumeration = false ∧
      g.freeFunctions i = []

/-- What is left to a module is planned nowhere else. -/
theorem not_transGen_of_claimed (hm : m ∈ claimed) (hns : (g.library.tree.get m).isNamespace) :
    ¬ TransGen (g.Holds claimed) o m := by
  rw [TransGen.tail'_iff]
  rintro ⟨b, -, hholds⟩
  exact (hholds.of_isNamespace hns).2 hm

section Twice

variable (hw : g.library.tree.WellFormed) (hm : g.library.MovesSound)
  (hns : ∀ o ∈ ns.toList ++ claimed, (g.library.tree.get o).isNamespace)

include hw hm hns

open scoped Classical in
/-- Two of the namespaces that an extension begins with lead to one declaration only if one of them
is the extension's own, and a module's leads to it. -/
theorem countP_le_one_iff_not_transGen (hnodup : (ns.toList ++ claimed).Nodup) :
    ((ns.toList ++ claimed).countP fun o => ReflTransGen (g.Holds claimed) o i) ≤ 1 ↔
      ∀ n ∈ ns, ∀ m ∈ claimed, TransGen (g.Holds claimed) m n →
        ¬ ReflTransGen (g.Holds claimed) n i := by
  simp only [countP_le_one_iff hnodup, decide_eq_true_eq]
  constructor
  · intro hone n hn m hmem hmn hni
    have heq := hone m (List.mem_append_right _ hmem) n
      (List.mem_append_left _ (Option.mem_toList.mpr hn)) (hmn.to_reflTransGen.trans hni) hni
    rw [← heq] at hn
    exact (List.nodup_append.mp hnodup).2.2 m (Option.mem_toList.mpr hn) m hmem rfl
  · intro hcond
    have hsame : ∀ a ∈ ns.toList ++ claimed, ∀ b ∈ ns.toList ++ claimed,
        ReflTransGen (g.Holds claimed) a b → ReflTransGen (g.Holds claimed) b i → a = b := by
      intro a ha b hb hab hbi
      by_contra hne
      have htrans := (Relation.reflTransGen_iff_eq_or_transGen.mp hab).resolve_left (Ne.symm hne)
      -- What is led to is no module's namespace, so it is the extension's, and the other is not.
      rcases List.mem_append.mp hb with hb | hb
      · rcases List.mem_append.mp ha with ha | ha
        · rw [Option.mem_toList] at ha hb
          exact hne (Option.mem_unique ha hb)
        · exact hcond b (Option.mem_toList.mp hb) a ha htrans hbi
      · exact not_transGen_of_claimed hb (hns b (List.mem_append_right _ hb)) htrans
    intro a ha b hb hai hbi
    rcases reflTransGen_total hw hm hai hbi with hab | hba
    · exact hsame a ha b hb hab hbi
    · exact (hsame b hb a ha hba hai).symm

variable (h : g.Composed claimed claimed (ns.toList ++ claimed) e.plan.regions)

include h

open scoped Classical in
/-- A class or an enumeration has a region for each of the namespaces that lead to it. -/
theorem count_nodes_eq
    (hi : (g.library.tree.get i).isRecord ∨ (g.library.tree.get i).kind.isEnumeration) :
    e.plan.nodes.count i =
      (ns.toList ++ claimed).countP fun o => ReflTransGen (g.Holds claimed) o i := by
  -- No namespace is a class, and so what leads to a class leads to it by a step at least.
  have hne : ∀ o ∈ ns.toList ++ claimed, i ≠ o := by
    rintro o ho rfl
    obtain ⟨hrecord, henum⟩ := not_isRecord_of_isNamespace (hns i ho)
    rw [hrecord, henum] at hi
    exact hi.elim Bool.false_ne_true Bool.false_ne_true
  have hout : i ∉ claimed := fun hmem => hne i (List.mem_append_right _ hmem) rfl
  rw [Plan.nodes, h.count_nodes hw hm hns, List.count_eq_zero_of_not_mem hout, Nat.zero_add]
  refine List.countP_congr fun o ho => ?_
  rw [decide_eq_true_eq, decide_eq_true_eq, Relation.reflTransGen_iff_eq_or_transGen,
    or_iff_right (hne o ho)]

open scoped Classical in
/-- Nothing is bound twice exactly if one of the namespaces at most leads to what binds anything. -/
theorem noneTwice_iff_countP_le_one :
    e.NoneTwice g.library ↔
      ∀ i, ((g.library.tree.get i).isRecord ∨ (g.library.tree.get i).kind.isEnumeration ∨
          g.freeFunctions i ≠ []) →
        ((ns.toList ++ claimed).countP fun o => ReflTransGen (g.Holds claimed) o i) ≤ 1 := by
  constructor
  · intro hnone i hi
    rcases or_assoc.mpr hi with hkind | hfunctions
    · rw [← count_nodes_eq hw hm hns h hkind]
      exact hnone.count_nodes_le i hkind
    · obtain ⟨f, hf⟩ := List.exists_mem_of_ne_nil _ hfunctions
      have hle := hnone.count_wrapped_le f (isFunction_of_mem_freeFunctions hf)
      rwa [Plan.wrapped, h.count_wrapped hw hm hns hf] at hle
  · intro hcond
    refine ⟨?_, ?_⟩
    · intro i hi
      rw [count_nodes_eq hw hm hns h hi]
      exact hcond i (hi.imp_right .inl)
    · intro f hf
      by_cases hmem : f ∈ e.plan.wrapped
      · obtain ⟨b, hfb, -⟩ := (h.mem_wrapped_iff hns hf).mp hmem
        rw [Plan.wrapped, h.count_wrapped hw hm hns hfb]
        exact hcond b (.inr (.inr (List.ne_nil_of_mem hfb)))
      · rw [List.count_eq_zero_of_not_mem hmem]
        exact Nat.zero_le 1

/-- In an extension that begins with several namespaces, nothing is bound twice exactly if the
extension's own namespace binds nothing or no module's namespace leads to it. -/
theorem noneTwice_iff (hnodup : (ns.toList ++ claimed).Nodup) :
    e.NoneTwice g.library ↔
      ∀ n ∈ ns, (∃ m ∈ claimed, TransGen (g.Holds claimed) m n) → g.BindsNothing claimed n := by
  classical
  simp only [noneTwice_iff_countP_le_one hw hm hns h,
    countP_le_one_iff_not_transGen hw hm hns hnodup]
  constructor
  · rintro hcond n hn ⟨m, hmem, hmn⟩ i hni
    have hbinds := fun hi => hcond i hi n hn m hmem hmn hni
    refine ⟨?_, ?_, ?_⟩
    · exact Bool.eq_false_iff.mpr fun hrecord => hbinds (.inl hrecord)
    · exact Bool.eq_false_iff.mpr fun henum => hbinds (.inr (.inl henum))
    · exact by_contra fun hfunctions => hbinds (.inr (.inr hfunctions))
  · intro hcond i hi n hn m hmem hmn hni
    obtain ⟨hrecord, henum, hfunctions⟩ := hcond n hn ⟨m, hmem, hmn⟩ i hni
    rw [hrecord, henum] at hi
    exact hi.elim Bool.false_ne_true fun hi => hi.elim Bool.false_ne_true fun hi => hi hfunctions

end Twice

/-- **When explicit modules lead to nothing twice.** The namespaces of modules have the regions of
their modules only. Nothing else is bound twice exactly if no module's namespace leads to the
extension's own one, or nothing is bound in that. -/
theorem bindsOnce_modules_iff {t : DeclTree} (ht : t.Built) {es : List Edit}
    (hes : ∀ e ∈ es, e.InTree t) (hg : g.library = (Library.ofTree t).edits es)
    (hns : ∀ o ∈ ns.toList ++ ModuleSpec.namespacesOf modules, (t.get o).isNamespace)
    (hnodup : (ns.toList ++ ModuleSpec.namespacesOf modules).Nodup) {name : String} {s : Session}
    (hrun : (g.extension name ns modules).run.run {} = (.ok e, s)) :
    (∀ m ∈ ModuleSpec.namespacesOf modules, e.plan.nodes.count m = 1) ∧
      (e.NoneTwice g.library ↔
        ∀ n ∈ ns, (∃ m ∈ ModuleSpec.namespacesOf modules,
            TransGen (g.Holds (ModuleSpec.namespacesOf modules)) m n) →
          g.BindsNothing (ModuleSpec.namespacesOf modules) n) := by
  classical
  obtain ⟨htree, hw, hm⟩ := sound_of_edits ht hes hg
  rw [← htree] at hns
  have h := Composed.of_run hw hm hrun
  refine ⟨?_, noneTwice_iff hw hm hns h hnodup⟩
  intro m hmem
  have hone := (List.nodup_append.mp hnodup).2.1
  have hnone : ((ns.toList ++ ModuleSpec.namespacesOf modules).countP fun o =>
      TransGen (g.Holds (ModuleSpec.namespacesOf modules)) o m) = 0 := by
    rw [List.countP_eq_zero]
    intro o _ hreaches
    exact not_transGen_of_claimed hmem (hns m (List.mem_append_right _ hmem))
      (of_decide_eq_true hreaches)
  rw [Plan.nodes, h.count_nodes hw hm hns, hnone, List.count_eq_one_of_mem hone hmem]

/-- A namespace in a namespace, and a class in that. -/
def innerTree : DeclTree :=
  let t := (DeclTree.empty.add DeclTree.root "a" .nspace).2
  let t := (t.add 1 "b" .nspace).2
  (t.add 2 "C" (.record false [])).2

def innerSetting : Setting := { library := .ofTree innerTree }

theorem innerTree_built : innerTree.Built := by
  refine .add (.add (.add .empty ?_ _ _) ?_ _ _) ?_ _ _ <;> decide

/-- A module for the inner namespace, in an extension for the outer one: nothing is bound twice. -/
theorem bindsOnce_outer :
    ∃ e s, (innerSetting.extension "E" (some 1) [⟨"B", some 2, []⟩]).run.run {} = (.ok e, s) ∧
      e.plan.nodes.count 2 = 1 ∧ e.NoneTwice innerSetting.library := by
  have hpasses : innerSetting.runPasses "E" (some 1) [⟨"B", some 2, []⟩] (fun _ _ => true) =
      true := by cbv
  obtain ⟨e, s, hrun, -⟩ := exists_of_runPasses hpasses
  have hw : innerTree.WellFormed := innerTree_built.wellFormed
  have hm : innerSetting.library.MovesSound := .ofTree innerTree
  -- The outer namespace is held by the global one only, and that by nothing.
  have hout : ¬ TransGen (innerSetting.Holds [2]) 2 1 := by
    rw [TransGen.tail'_iff]
    rintro ⟨o, ho, -, hplanned⟩
    have hbinder : innerSetting.library.binder? 1 = some o :=
      boundIn_of_mem_planned hw hm hplanned
    have hroot : o = DeclTree.root := (Option.some.inj hbinder).symm
    subst hroot
    rcases ReflTransGen.cases_tail ho with heq | ⟨c, -, -, hc⟩
    · cases heq
    · exact ne_root_of_mem_planned hw hm hc rfl
  obtain ⟨hcount, hiff⟩ := bindsOnce_modules_iff innerTree_built (List.forall_mem_nil _) rfl
    (by decide) (by decide) hrun
  refine ⟨e, s, hrun, hcount 2 (List.mem_singleton_self 2), hiff.mpr ?_⟩
  rintro n ⟨⟩ ⟨m, hmem, hreaches⟩
  rw [List.mem_singleton.mp hmem] at hreaches
  exact absurd hreaches hout

/-- A module for the outer namespace, in an extension for the inner one: the class of the inner one
is bound twice, although the two namespaces are different. -/
theorem not_noneTwice_inner :
    ∃ e s, (innerSetting.extension "E" (some 2) [⟨"A", some 1, []⟩]).run.run {} = (.ok e, s) ∧
      [2, 1].Nodup ∧ (innerTree.get 2).isNamespace ∧ (innerTree.get 1).isNamespace ∧
        ¬ e.NoneTwice innerSetting.library := by
  have hpasses : innerSetting.runPasses "E" (some 2) [⟨"A", some 1, []⟩]
      (fun p _ => p.nodes.count 3 == 2) = true := by cbv
  obtain ⟨e, s, hrun, htwo⟩ := exists_of_runPasses hpasses
  refine ⟨e, s, hrun, by decide, rfl, rfl, ?_⟩
  intro hnone
  have hle := hnone.count_nodes_le 3 (.inl rfl)
  rw [beq_iff_eq.mp htwo] at hle
  exact absurd hle (by decide)

end Setting

end RubyBinding
