import Mathlib
import RubyBinding.Proofs.Conversions
import RubyBinding.Proofs.Layouts
import RubyBinding.Proofs.Sections

/-!
# Superclasses are settled

Ruby knows one superclass of a class at most. It is settled which one that is if one was chosen, or
if no more than one base of the class is not ignored (`Library.Settles`). Wherever the walk of an
extension meets a class for which it is not settled, nothing is generated; what is generated defines
every class that the walk reaches with the superclass that was settled for it
(`settled_of_generate`).
-/

namespace RubyBinding

open Relation (TransGen)

/-- It is settled which superclass of a class Ruby knows: the chosen one, or else the only base that
is not ignored, or none if there is no such base. -/
def Library.Settles (lib : Library) (c : DeclId) (s : Option DeclId) : Prop :=
  match lib.chosenSuperclass? c with
  | some chosen => s = some chosen
  | none => ((lib.tree.superclasses c).filter fun b => !lib.isIgnored b) = s.toList

/-- The superclass of a class is open: none was chosen, and several bases are not ignored. -/
def Library.IsAmbiguous (lib : Library) (c : DeclId) : Prop :=
  lib.chosenSuperclass? c = none ∧
    2 ≤ ((lib.tree.superclasses c).filter fun b => !lib.isIgnored b).length

theorem Library.superclass?_eq_ok_iff {lib : Library} {c : DeclId} {s : Option DeclId} :
    lib.superclass? c = .ok s ↔ lib.Settles c s := by
  have hselected : lib.superclass? c = .ok s ↔ lib.effectiveSuperclasses c = s.toList := by
    unfold superclass?
    generalize lib.effectiveSuperclasses c = bases
    rcases bases with - | ⟨b, - | ⟨b', bases⟩⟩ <;> cases s <;> simp [eq_comm]
  rw [hselected, effectiveSuperclasses, Settles]
  cases lib.chosenSuperclass? c with
  | none => rfl
  | some chosen => cases s <;> simp [eq_comm]

/-- What is open is not settled. -/
theorem Library.IsAmbiguous.not_settles {lib : Library} {c : DeclId} (h : lib.IsAmbiguous c)
    (s : Option DeclId) : ¬ lib.Settles c s := by
  intro hs
  rw [Settles, h.1] at hs
  have hlength := h.2
  rw [hs] at hlength
  cases s with
  | none => exact absurd hlength (Nat.not_succ_le_zero 1)
  | some b => exact absurd hlength (Nat.not_succ_le_self 1)

namespace Setting

variable {g : Setting} {ns : Option DeclId} {modules : List ModuleSpec} {e : Extension}

/-- In an extension, every class has its superclass settled: each region of a class begins by
defining it, with the superclass that was settled for it, and so does no other region; and each
class that the walk reaches has a region. -/
structure SettlesSuperclasses (g : Setting) (ns : Option DeclId) (modules : List ModuleSpec)
    (e : Extension) : Prop where
  defines : ∀ r ∈ e.plan.regions, ∀ c, r.node = some c → (g.library.tree.get c).isRecord →
    ∃ handle s parent, g.library.Settles c s ∧
      r.body.head? = some (.defineClass handle (g.library.classType c)
        (s.map g.library.classType) parent (g.library.className c))
  only : ∀ r ∈ e.plan.regions, ∀ handle cpp superclass parent ruby,
    r.body.head? = some (.defineClass handle cpp superclass parent ruby) →
      ∃ c, r.node = some c ∧ (g.library.tree.get c).isRecord
  reached : ∀ c, g.Reaches ns modules c → (g.library.tree.get c).isRecord →
    ∃ r ∈ e.plan.regions, r.node = some c

theorem settlesSuperclasses_of_run (hw : g.library.tree.WellFormed) (hm : g.library.MovesSound)
    (hns : ∀ o ∈ ns.toList ++ ModuleSpec.namespacesOf modules, (g.library.tree.get o).isNamespace)
    {name : String} {s : Session}
    (hrun : (g.extension name ns modules).run.run {} = (.ok e, s)) :
    g.SettlesSuperclasses ns modules e := by
  have h := Composed.of_run hw hm hrun
  refine ⟨?_, ?_, ?_⟩
  · intro r hr c hnode hrecord
    rcases h.region_cases hr with hframe | hdirector | ⟨o, hregion⟩
    · -- Frames are for namespaces.
      have hc := hns c (List.mem_append_right _ (hframe c hnode))
      rw [isNamespace_of_isRecord hrecord] at hc
      cases hc
    · rw [hdirector.node] at hnode
      cases hnode
    · rw [hregion.node] at hnode
      cases hnode
      obtain ⟨handle, s, parent, hs, hhead⟩ := hregion.defines hrecord
      exact ⟨handle, s, parent, Library.superclass?_eq_ok_iff.mp hs, hhead⟩
  · intro r hr handle cpp superclass parent ruby hhead
    obtain ⟨c, s, hnode, hrecord, -⟩ :=
      h.opensSoundly r hr handle cpp superclass parent ruby hhead
    exact ⟨c, hnode, hrecord⟩
  · intro c hc _
    have hmem := (h.mem_nodes_iff hw hm hns).mpr (.inr hc)
    exact List.mem_filterMap.mp hmem

/-- **Nothing is generated while the superclass of a class is open.** Whatever was said about a
library, if files are generated, in either layout, then all classes of the extension are defined
with the superclasses that were settled for them; and if the walk reaches a class whose superclass
is open, no files are generated. -/
theorem settled_of_generate {t : DeclTree} (ht : t.Built) {es : List Edit}
    (hes : ∀ e ∈ es, e.InTree t) (hg : g.library = (Library.ofTree t).edits es)
    (hns : ∀ o ∈ ns.toList ++ ModuleSpec.namespacesOf modules, (t.get o).isNamespace)
    (layout : Layout) (name : String) :
    (∀ files, g.generate layout name ns modules = .ok files →
      ∃ e s, (g.extension name ns modules).run.run {} = (.ok e, s) ∧
        g.render layout e s.converters = .ok files ∧ g.SettlesSuperclasses ns modules e) ∧
    ∀ c, g.Reaches ns modules c → (t.get c).isRecord → g.library.IsAmbiguous c →
      ∃ error, g.generate layout name ns modules = .error error := by
  obtain ⟨htree, hw, hm⟩ := sound_of_edits ht hes hg
  rw [← htree] at hns ⊢
  have hgenerated : ∀ files, g.generate layout name ns modules = .ok files →
      ∃ e s, (g.extension name ns modules).run.run {} = (.ok e, s) ∧
        g.render layout e s.converters = .ok files ∧ g.SettlesSuperclasses ns modules e := by
    intro files hfiles
    unfold generate at hfiles
    rcases hrun : (g.extension name ns modules).run.run {} with ⟨error | e, s⟩ <;>
      rw [hrun] at hfiles
    · cases hfiles
    · exact ⟨e, s, rfl, hfiles, settlesSuperclasses_of_run hw hm hns hrun⟩
  refine ⟨hgenerated, ?_⟩
  intro c hc hrecord hambiguous
  cases hfiles : g.generate layout name ns modules with
  | error error => exact ⟨error, rfl⟩
  | ok files =>
    obtain ⟨e, s, -, -, hsettles⟩ := hgenerated files hfiles
    obtain ⟨r, hr, hnode⟩ := hsettles.reached c hc hrecord
    obtain ⟨handle, s', parent, hs, -⟩ := hsettles.defines r hr c hnode hrecord
    exact absurd hs (hambiguous.not_settles s')

/-- A namespace with two classes, and a third one that has both as bases. -/
def jointTree : DeclTree :=
  let t := (DeclTree.empty.add DeclTree.root "N" .nspace).2
  let t := (t.add 1 "A" (.record false [])).2
  let t := (t.add 1 "B" (.record false [])).2
  (t.add 1 "C" (.record false [⟨"A", .pub, false⟩, ⟨"B", .pub, false⟩])).2

def jointSetting (es : List Edit) : Setting := { library := (Library.ofTree jointTree).edits es }

/-- A module for the namespace. -/
def jointModules : List ModuleSpec := [⟨"M", some 1, []⟩]

theorem jointTree_built : jointTree.Built := by
  refine .add (.add (.add (.add .empty ?_ _ _) ?_ _ _) ?_ _ _) ?_ _ _ <;> decide

/-- Where a base was chosen, files are generated; where none was, none are. -/
theorem settled_joint :
    (∃ files e s, (jointSetting [.chooseSuperclass 4 3]).generate .multiple "E" none jointModules =
        .ok files ∧
      ((jointSetting [.chooseSuperclass 4 3]).extension "E" none jointModules).run.run {} =
        (.ok e, s) ∧
      (jointSetting [.chooseSuperclass 4 3]).SettlesSuperclasses none jointModules e) ∧
    ∃ error, (jointSetting []).generate .multiple "E" none jointModules = .error error := by
  have hns : ∀ o ∈ (none : Option DeclId).toList ++ ModuleSpec.namespacesOf jointModules,
      (jointTree.get o).isNamespace := by
    intro o ho
    rw [List.mem_singleton.mp ho]
    rfl
  refine ⟨?_, ?_⟩
  · have hpasses : (jointSetting [.chooseSuperclass 4 3]).runPasses "E" none jointModules
        (fun _ _ => true) = true := by cbv
    obtain ⟨e, s, hrun, -⟩ := exists_of_runPasses hpasses
    have hdepth := Library.exists_depth_of_all (jointSetting [.chooseSuperclass 4 3]).library
      (by cbv)
    obtain ⟨files, hrender⟩ := exists_render_multiple hdepth e s.converters
    have hfiles : (jointSetting [.chooseSuperclass 4 3]).generate .multiple "E" none
        jointModules = .ok files := by
      rw [generate, hrun]
      exact hrender
    have hedits : ∀ e ∈ [Edit.chooseSuperclass 4 3], e.InTree jointTree := by decide
    obtain ⟨e', s', hrun', -, hsettles⟩ :=
      (settled_of_generate jointTree_built hedits rfl hns .multiple "E").1 files hfiles
    exact ⟨files, e', s', hfiles, hrun', hsettles⟩
  · have hplanned : ((jointSetting []).planned [1] 1).contains 4 = true := by cbv
    have hreaches : (jointSetting []).Reaches none jointModules 4 :=
      ⟨1, List.mem_singleton_self 1, .single ⟨rfl, List.contains_iff_mem.mp hplanned⟩⟩
    have hbases : ((jointSetting []).library.tree.superclasses 4).filter
        (fun b => !(jointSetting []).library.isIgnored b) = [2, 3] := by cbv
    have hambiguous : (jointSetting []).library.IsAmbiguous 4 := by
      refine ⟨rfl, ?_⟩
      rw [hbases]
      exact Nat.le_refl 2
    exact (settled_of_generate jointTree_built (List.forall_mem_nil _) rfl hns .multiple "E").2 4
      hreaches rfl hambiguous

end Setting

end RubyBinding
