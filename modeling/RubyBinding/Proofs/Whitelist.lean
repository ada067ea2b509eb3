import Mathlib
import RubyBinding.Proofs.Conversions
import RubyBinding.Proofs.Sections

/-!
# What an extension for the global namespace binds

An extension for the global namespace is to leave out what comes from other headers than the
library's. What stands in the global namespace itself is left out where it does. A namespace there
is entered as soon as anything in it comes from the library's headers, and whatever is in it, in
turn, is bound without another look at its header (`Setting.Entered`). So nothing foreign is bound
exactly if there is nothing foreign in the namespaces that are entered (`bindsOwn_iff`).
-/

namespace RubyBinding

open Relation (TransGen ReflTransGen)

namespace Setting

variable {g : Setting} {i o c n : DeclId} {e : Extension}

/-- A declaration has no file, or one of the library's headers. -/
def IsOwn (g : Setting) (i : DeclId) : Prop :=
  ∀ file, (g.library.tree.get i).file = some file → g.isSource file = true

/-- All that an extension binds of namespaces comes from the library's headers: the classes and
enumerations that are declared in a namespace, and the free functions that are wrapped. -/
structure BindsOwn (g : Setting) (e : Extension) : Prop where
  nodes : ∀ i ∈ e.plan.nodes,
    (g.library.tree.get i).isRecord ∨ (g.library.tree.get i).kind.isEnumeration →
      ∀ o, g.library.tree.parent? i = some o → (g.library.tree.get o).isNamespace → g.IsOwn i
  wrapped : ∀ f ∈ e.plan.wrapped, (g.library.tree.get f).kind.isFunction → g.IsOwn f

/-- A namespace that is exposed and has a name. -/
def IsModule (g : Setting) (o n : DeclId) : Prop :=
  n ∈ g.library.exposed o ∧ (g.library.tree.get n).isNamespace ∧
    (g.library.tree.get n).name.isEmpty = false

/-- The namespaces that are entered from the global one: those in it in which anything comes from
the library's headers, and all inside those. -/
inductive Entered (g : Setting) : DeclId → Prop
  | outermost {n : DeclId} (hn : g.IsModule DeclTree.root n) (hsources : g.isFromSources n) :
      Entered g n
  | inner {o n : DeclId} (ho : Entered g o) (hn : g.IsModule o n) : Entered g n

/-- What a namespace binds in code of its own: named classes and enumerations, and functions that
have a Ruby name. -/
def IsBindable (g : Setting) (i : DeclId) : Prop :=
  let d := g.library.tree.get i
  (d.name.isEmpty = false ∧ (d.isRecord ∨ d.kind.isEnumeration)) ∨
    (d.kind.isFunction ∧ (g.library.memberName? i).isSome)

theorem IsBindable.isNamespace (h : g.IsBindable i) :
    (g.library.tree.get i).isNamespace = false := by
  unfold Decl.isNamespace
  rcases h with ⟨-, hkind⟩ | ⟨hkind, -⟩
  · unfold Decl.isRecord at hkind
    cases hk : (g.library.tree.get i).kind <;>
      simp_all [Kind.isRecord, Kind.isEnumeration, Kind.isNamespace]
  · cases hk : (g.library.tree.get i).kind <;> simp_all [Kind.isFunction, Kind.isNamespace]

/-! ## Where declarations come from -/

/-- What is no namespace is from the library's headers exactly if it has no other file. -/
theorem isFromSources_iff_isOwn (hi : (g.library.tree.get i).isNamespace = false) :
    g.isFromSources i ↔ g.IsOwn i := by
  rw [isFromSources, hi, IsOwn]
  cases (g.library.tree.get i).file with
  | none => simp
  | some file => simp

theorem ne_root_of_mem_exposed (hw : g.library.tree.WellFormed)
    (hc : c ∈ g.library.exposed o) : c ≠ DeclTree.root := by
  rintro rfl
  have hparent := (hw.mem_children _ _).mp (List.mem_filter.mp hc).1
  rw [hw.parent_root] at hparent
  cases hparent

theorem Entered.isNamespace (h : g.Entered o) : (g.library.tree.get o).isNamespace := by
  cases h with
  | outermost hn _ => exact hn.2.1
  | inner _ hn => exact hn.2.1

theorem Entered.ne_root (hw : g.library.tree.WellFormed) (h : g.Entered o) : o ≠ DeclTree.root := by
  cases h with
  | outermost hn _ => exact ne_root_of_mem_exposed hw hn.1
  | inner _ hn => exact ne_root_of_mem_exposed hw hn.1

/-- What is planned in a namespace, where nothing is left to modules. -/
theorem mem_planned_iff_of_isNamespace (ho : (g.library.tree.get o).isNamespace) :
    c ∈ g.planned [] o ↔
      c ∈ g.contents o ∧ (g.library.tree.get c).name.isEmpty = false ∧
        ((g.library.tree.get c).isRecord ∨ (g.library.tree.get c).kind.isEnumeration ∨
          (g.library.tree.get c).isNamespace) := by
  rw [planned, List.mem_filter, isPart, ho]
  simp [or_assoc]

section Walk

variable (hmoves : g.library.moves = [])

include hmoves

/-! ## Libraries without moves -/

theorem adopted_of_no_moves (o : DeclId) : g.library.adopted o = [] := by
  rw [Library.adopted, Library.movedInto, hmoves]
  rfl

theorem mem_contents_iff_of_no_moves (ho : (g.library.tree.get o).isNamespace) :
    c ∈ g.contents o ↔
      c ∈ g.library.exposed o ∧ (o = DeclTree.root → g.isFromSources c) := by
  rw [contents_of_isNamespace ho, namespaceItems, adopted_of_no_moves hmoves, List.append_nil]
  by_cases hroot : o = DeclTree.root
  · rw [if_pos hroot, List.mem_filter]
    simp only [hroot, forall_const]
  · rw [if_neg hroot]
    simp only [hroot, false_implies, and_true]

/-- Only namespaces bind free functions, where nothing was moved into a class. -/
theorem mem_freeFunctions_iff_of_no_moves {f : DeclId} :
    f ∈ g.freeFunctions o ↔
      (g.library.tree.get o).isNamespace ∧ f ∈ g.contents o ∧
        (g.library.tree.get f).kind.isFunction ∧ (g.library.memberName? f).isSome := by
  cases hns : (g.library.tree.get o).isNamespace with
  | true =>
    rw [freeFunctions_of_isNamespace hns, contents_of_isNamespace hns, List.mem_filter,
      Bool.and_eq_true]
    simp
  | false =>
    rw [freeFunctions]
    simp [hns, adopted_of_no_moves hmoves]

/-! ## The walk from the global namespace -/

/-- **The walk from the global namespace enters these namespaces and no others.** -/
theorem reaches_namespace_iff (hw : g.library.tree.WellFormed)
    (ho : (g.library.tree.get o).isNamespace) :
    ReflTransGen (g.Holds []) DeclTree.root o ↔ o = DeclTree.root ∨ g.Entered o := by
  constructor
  · intro h
    induction h with
    | refl => exact .inl rfl
    | @tail a b _ hab ih =>
      have ha := (hab.of_isNamespace ho).1
      obtain ⟨hb, hname, -⟩ := (mem_planned_iff_of_isNamespace ha).mp hab.2
      obtain ⟨hexposed, hsources⟩ := (mem_contents_iff_of_no_moves hmoves ha).mp hb
      rcases ih ha with rfl | hentered
      · exact .inr (.outermost ⟨hexposed, ho, hname⟩ (hsources rfl))
      · exact .inr (.inner hentered ⟨hexposed, ho, hname⟩)
  · have hstep : ∀ {o n : DeclId}, (g.library.tree.get o).isNamespace → g.IsModule o n →
        (o = DeclTree.root → g.isFromSources n) → g.Holds [] o n := by
      intro o n ho hn hsources
      refine ⟨isHolder_of_isNamespace ho, (mem_planned_iff_of_isNamespace ho).mpr ⟨?_, ?_⟩⟩
      · exact (mem_contents_iff_of_no_moves hmoves ho).mpr ⟨hn.1, hsources⟩
      · exact ⟨hn.2.2, .inr (.inr hn.2.1)⟩
    rintro (rfl | hentered)
    · exact .refl
    · induction hentered with
      | outermost hn hsources => exact .single (hstep hw.root_isNamespace hn fun _ => hsources)
      | inner ho' hn ih =>
        exact (ih ho'.isNamespace).tail
          (hstep ho'.isNamespace hn fun hroot => absurd hroot (ho'.ne_root hw))

/-- Where the walk comes to a namespace, it binds what is exposed there: of the global namespace
what is from the library's headers, and of the namespaces that are entered everything. -/
theorem reaches_iff (hw : g.library.tree.WellFormed) (ho : (g.library.tree.get o).isNamespace) :
    (ReflTransGen (g.Holds []) DeclTree.root o ∧ c ∈ g.contents o) ↔
      c ∈ g.library.exposed o ∧ (o = DeclTree.root ∧ g.isFromSources c ∨ g.Entered o) := by
  rw [reaches_namespace_iff hmoves hw ho, mem_contents_iff_of_no_moves hmoves ho]
  constructor
  · rintro ⟨rfl | hentered, hc, hsources⟩
    · exact ⟨hc, .inl ⟨rfl, hsources rfl⟩⟩
    · exact ⟨hc, .inr hentered⟩
  · rintro ⟨hc, ⟨rfl, hsources⟩ | hentered⟩
    · exact ⟨.inl rfl, hc, fun _ => hsources⟩
    · exact ⟨.inr hentered, hc, fun hroot => absurd hroot (hentered.ne_root hw)⟩

/-! ## Extensions for the global namespace -/

theorem parent_of_mem_contents (hw : g.library.tree.WellFormed) (hc : c ∈ g.contents o) :
    g.library.tree.parent? c = some o := by
  have hbound := (contents_sublist_bound o).subset hc
  rw [Library.bound, adopted_of_no_moves hmoves, List.append_nil] at hbound
  exact (hw.mem_children o c).mp (List.mem_filter.mp hbound).1

variable (hw : g.library.tree.WellFormed) (hm : g.library.MovesSound)
  (hns : ∀ o ∈ [DeclTree.root], (g.library.tree.get o).isNamespace)
  (h : g.Composed [] [] [DeclTree.root] e.plan.regions)

include hw hns h

/-- Which free functions are wrapped. -/
theorem mem_wrapped_iff_of_no_moves {f : DeclId} (hf : (g.library.tree.get f).kind.isFunction) :
    f ∈ e.plan.wrapped ↔
      (g.library.memberName? f).isSome ∧ ∃ o, (g.library.tree.get o).isNamespace ∧
        f ∈ g.library.exposed o ∧ (o = DeclTree.root ∧ g.isFromSources f ∨ g.Entered o) := by
  rw [Plan.wrapped, h.mem_wrapped_iff hns hf]
  constructor
  · rintro ⟨o, hfo, root, hroot, hreaches⟩
    rw [List.mem_singleton.mp hroot] at hreaches
    obtain ⟨ho, hcontents, -, hname⟩ := (mem_freeFunctions_iff_of_no_moves hmoves).mp hfo
    exact ⟨hname, o, ho, (reaches_iff hmoves hw ho).mp ⟨hreaches, hcontents⟩⟩
  · rintro ⟨hname, o, ho, hbound⟩
    obtain ⟨hreaches, hcontents⟩ := (reaches_iff hmoves hw ho).mpr hbound
    exact ⟨o, (mem_freeFunctions_iff_of_no_moves hmoves).mpr ⟨ho, hcontents, hf, hname⟩,
      DeclTree.root, List.mem_singleton_self _, hreaches⟩

include hm

/-- Which classes and enumerations that are declared in namespaces have regions. -/
theorem mem_nodes_iff_of_no_moves (hp : g.library.tree.parent? i = some o)
    (ho : (g.library.tree.get o).isNamespace)
    (hi : (g.library.tree.get i).isRecord ∨ (g.library.tree.get i).kind.isEnumeration) :
    i ∈ e.plan.nodes ↔
      (g.library.tree.get i).name.isEmpty = false ∧ i ∈ g.library.exposed o ∧
        (o = DeclTree.root ∧ g.isFromSources i ∨ g.Entered o) := by
  have hreaches : i ∈ e.plan.nodes ↔ TransGen (g.Holds []) DeclTree.root i := by
    have hiff : i ∈ e.plan.nodes ↔ i ∈ ModuleSpec.namespacesOf [] ∨
        g.Reaches (some DeclTree.root) [] i := Composed.mem_nodes_iff hw hm hns h
    rw [hiff, Reaches]
    simp [ModuleSpec.namespacesOf]
  rw [hreaches, TransGen.tail'_iff, ← reaches_iff hmoves hw ho]
  constructor
  · rintro ⟨b, hb, -, hplanned⟩
    -- What is planned in `b` is declared there.
    have hcontents := (List.mem_filter.mp hplanned).1
    have hparent := parent_of_mem_contents hmoves hw hcontents
    rw [hp] at hparent
    cases hparent
    exact ⟨((mem_planned_iff_of_isNamespace ho).mp hplanned).2.1, hb, hcontents⟩
  · rintro ⟨hname, hb, hcontents⟩
    refine ⟨o, hb, isHolder_of_isNamespace ho, ?_⟩
    exact (mem_planned_iff_of_isNamespace ho).mpr
      ⟨hcontents, hname, hi.imp_right Or.inl⟩

end Walk

/-- **When nothing foreign is bound.** Where nothing was moved, an extension for the global
namespace binds nothing from other headers than the library's exactly if there is nothing such to be
bound in the namespaces that are entered: in those where anything comes from the library's headers,
and in all inside them. -/
theorem bindsOwn_iff {t : DeclTree} (ht : t.Built) {es : List Edit} (hes : ∀ e ∈ es, e.InTree t)
    (hg : g.library = (Library.ofTree t).edits es) (hmoves : g.library.moves = [])
    {name : String} {s : Session}
    (hrun : (g.extension name (some DeclTree.root) []).run.run {} = (.ok e, s)) :
    g.BindsOwn e ↔
      ∀ o, g.Entered o → ∀ c ∈ g.library.exposed o, g.IsBindable c → g.IsOwn c := by
  obtain ⟨-, hw, hm⟩ := sound_of_edits ht hes hg
  have h : g.Composed [] [] [DeclTree.root] e.plan.regions := Composed.of_run hw hm hrun
  have hns : ∀ o ∈ [DeclTree.root], (g.library.tree.get o).isNamespace := by
    intro o ho
    rw [List.mem_singleton.mp ho]
    exact hw.root_isNamespace
  constructor
  · intro hown o ho c hc hbindable
    rcases hbindable with ⟨hname, hkind⟩ | ⟨hkind, hname⟩
    · have hp := (hw.mem_children o c).mp (List.mem_filter.mp hc).1
      have hnode := (mem_nodes_iff_of_no_moves hmoves hw hm hns h hp ho.isNamespace hkind).mpr
        ⟨hname, hc, .inr ho⟩
      exact hown.nodes c hnode hkind o hp ho.isNamespace
    · have hwrapped := (mem_wrapped_iff_of_no_moves hmoves hw hns h hkind).mpr
        ⟨hname, o, ho.isNamespace, hc, .inr ho⟩
      exact hown.wrapped c hwrapped hkind
  · intro hcond
    have hexposed : ∀ o c, c ∈ g.library.exposed o → g.IsBindable c →
        (o = DeclTree.root ∧ g.isFromSources c ∨ g.Entered o) → g.IsOwn c := by
      rintro o c hc hbindable (⟨-, hsources⟩ | ho)
      · exact (isFromSources_iff_isOwn hbindable.isNamespace).mp hsources
      · exact hcond o ho c hc hbindable
    refine ⟨?_, ?_⟩
    · intro i hi hkind o hp ho
      obtain ⟨hname, hc, hwhere⟩ :=
        (mem_nodes_iff_of_no_moves hmoves hw hm hns h hp ho hkind).mp hi
      exact hexposed o i hc (.inl ⟨hname, hkind⟩) hwhere
    · intro f hf hkind
      obtain ⟨hname, o, -, hc, hwhere⟩ := (mem_wrapped_iff_of_no_moves hmoves hw hns h hkind).mp hf
      exact hexposed o f hc (.inr ⟨hkind, hname⟩) hwhere

/-- A namespace with a class from the header `o.h` and one from `file`, and a function from
another header. -/
def sharedTree (file : String) : DeclTree :=
  let t := (DeclTree.empty.add DeclTree.root "lib" .nspace).2
  let t := (t.add 1 "A" (.record false [])).2.setFile 2 "o.h"
  let t := (t.add 1 "B" (.record false [])).2.setFile 3 file
  (t.add DeclTree.root "abs" (.function .void [])).2.setFile 4 "t.h"

def sharedSetting (file : String) : Setting where
  library := .ofTree (sharedTree file)
  sources := ["o.h"]

theorem sharedTree_built (file : String) : (sharedTree file).Built := by
  have hlib : (DeclTree.empty.add DeclTree.root "lib" .nspace).2.Built :=
    .add .empty Nat.one_pos _ _
  have hours := (hlib.add Nat.one_lt_two "A" (.record false [])).setFile 2 "o.h"
  have hboth := (hours.add (Nat.lt_add_left 1 Nat.one_lt_two) "B" (.record false [])).setFile 3 file
  exact (hboth.add (Nat.zero_lt_succ 3) _ _).setFile _ _

/-- Where both classes are from the library's header, nothing foreign is bound. -/
theorem bindsOwn_shared :
    ∃ e s, ((sharedSetting "o.h").extension "E" (some DeclTree.root) []).run.run {} =
      (.ok e, s) ∧ (sharedSetting "o.h").BindsOwn e := by
  have hpasses : (sharedSetting "o.h").runPasses "E" (some DeclTree.root) []
      (fun _ _ => true) = true := by cbv
  obtain ⟨e, s, hrun, -⟩ := exists_of_runPasses hpasses
  have hw := (sharedTree_built "o.h").wellFormed
  refine ⟨e, s, hrun, (bindsOwn_iff (sharedTree_built "o.h") (List.forall_mem_nil _) rfl rfl
    hrun).mpr ?_⟩
  intro o ho c hc hbindable file hfile
  have hparent := (hw.mem_children o c).mp (List.mem_filter.mp hc).1
  have hlt : c < 5 := DeclTree.lt_size_of_parent hparent
  interval_cases c
  · cases hparent
  · cases hfile
  · cases hfile
    cbv
  · cases hfile
    cbv
  · cases hparent
    exact absurd rfl (ho.ne_root hw)

/-- Where one class is from another header, it is bound all the same. -/
theorem not_bindsOwn_shared :
    ∃ e s, ((sharedSetting "t.h").extension "E" (some DeclTree.root) []).run.run {} =
      (.ok e, s) ∧ ¬ (sharedSetting "t.h").BindsOwn e := by
  have hpasses : (sharedSetting "t.h").runPasses "E" (some DeclTree.root) []
      (fun p _ => p.nodes.contains 3) = true := by cbv
  obtain ⟨e, s, hrun, hbound⟩ := exists_of_runPasses hpasses
  refine ⟨e, s, hrun, fun hown => ?_⟩
  have hrecord : ((sharedTree "t.h").get 3).isRecord = true := by cbv
  have hparent : (sharedTree "t.h").parent? 3 = some 1 := by cbv
  have hns : ((sharedTree "t.h").get 1).isNamespace = true := by cbv
  have hfile : ((sharedTree "t.h").get 3).file = some "t.h" := by cbv
  have hsource :=
    hown.nodes 3 (List.contains_iff_mem.mp hbound) (.inl hrecord) 1 hparent hns _ hfile
  have hforeign : (sharedSetting "t.h").isSource "t.h" = false := by cbv
  rw [hforeign] at hsource
  cases hsource

end Setting

end RubyBinding
