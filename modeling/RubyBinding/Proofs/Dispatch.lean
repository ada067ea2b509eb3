import RubyBinding.Proofs.Names
import RubyBinding.Proofs.Virtuals

/-!
# Which Ruby methods a director asks

A director overrides each virtual method once (`overridden_nodup`), and its members that reach the
implementations have different names (`fallbacks_nodup`). An override asks for the Ruby method under
which the class binds the overridden one; where the class does not bind it, as it is inherited or
not exposed, for the method of the name that it asks for (`dispatchName?`). The former names differ
from each other (`eq_of_mem_members`); the latter need not differ from any.
-/

namespace RubyBinding.Library

variable {lib : Library} {i m : DeclId} {v w : Virtual}

/-- The Ruby method that the override of a virtual method of a class asks. -/
def dispatchName? (lib : Library) (i m : DeclId) : Option String :=
  ((lib.members i).methods.lookup m).or (lib.memberName? m)

/-- The virtual methods that the director of a class overrides. -/
def overridden (lib : Library) (i : DeclId) : List DeclId := (lib.virtuals i).map Virtual.method

/-! ## Overridden methods -/

theorem pureVirtuals_methods_nodup (hw : lib.tree.WellFormed) (implemented : List String)
    {cs : List DeclId} (hcs : cs.Nodup) :
    ((lib.pureVirtuals implemented cs).map Prod.fst).Nodup := by
  induction cs generalizing implemented with
  | nil => exact List.nodup_nil
  | cons c cs ih =>
    obtain ⟨hc, hcs⟩ := List.nodup_cons.mp hcs
    rw [pureVirtuals, filterMap_named, List.map_append,
      Setting.map_fst_withNames (g := { library := lib }), List.filter_filter]
    refine List.Nodup.append (((hw.children_nodup c).filter _).filter _) (ih _ hcs) ?_
    intro m hm hmem
    obtain ⟨e, he, rfl⟩ := List.mem_map.mp hmem
    obtain ⟨d, hd, hmd⟩ := exists_class_of_mem_pureVirtuals he
    exact hc (eq_of_mem_methods hw (List.mem_filter.mp hm).1 hmd ▸ hd)

/-- A director overrides no method twice. -/
theorem overridden_nodup (hw : lib.tree.WellFormed) (i : DeclId) : (lib.overridden i).Nodup := by
  have hmap : lib.overridden i = (lib.ownVirtuals i).map Prod.fst ++ (lib.pureVirtuals
      ((lib.methods i).map fun m => (lib.tree.get m).name) (lib.ancestors i)).map Prod.fst := by
    have h := congrArg (List.map fun e => e.1.1) (lib.map_virtuals i)
    rw [List.map_map, List.map_append, List.map_map, List.map_map] at h
    exact h
  rw [hmap]
  refine List.Nodup.append ?_ (pureVirtuals_methods_nodup hw _ (lib.ancestors_nodup i)) ?_
  · rw [ownVirtuals, filterMap_named, Setting.map_fst_withNames (g := { library := lib })]
    exact ((hw.children_nodup i).filter _).filter _ |>.filter _
  · intro m hm hmem
    obtain ⟨e, he, rfl⟩ := List.mem_map.mp hm
    obtain ⟨f, hf, hfe⟩ := List.mem_map.mp hmem
    obtain ⟨a, ha, hma⟩ := exists_class_of_mem_pureVirtuals hf
    rw [hfe] at hma
    -- An ancestor that declares a method of the class would be the class itself.
    refine (mem_ancestors_iff.mp ha).1 ?_
    exact eq_of_mem_methods hw hma (mem_methods_of_mem_ownVirtuals he)

/-- The members that reach the implementations have different names. -/
theorem fallbacks_nodup (lib : Library) (i : DeclId) :
    ((lib.virtuals i).map Virtual.fallback).Nodup := by
  unfold virtuals
  dsimp only
  generalize (lib.ownVirtuals i).map (·, false) ++ (lib.pureVirtuals
    ((lib.methods i).map fun m => (lib.tree.get m).name) (lib.ancestors i)).map (·, true) = all
  have hlength := Fresh.length_pickAll {} (all.map fun e =>
    "default_" ++ identifier (lib.tree.get e.1.1).name)
  have hnodup := (Fresh.pickAll_nodup {} (all.map fun e =>
    "default_" ++ identifier (lib.tree.get e.1.1).name)).1
  rw [List.length_map] at hlength
  generalize (({} : Fresh).pickAll _).1 = fallbacks at hlength hnodup
  have hmap : (all.zipWith (fun e fallback => Virtual.mk e.1.1 e.1.2 fallback e.2) fallbacks).map
      Virtual.fallback = fallbacks := by
    rw [List.map_zipWith]
    refine List.ext_getElem (by simp [hlength]) fun i _ _ => ?_
    simp
  rw [hmap]
  exact hnodup

/-! ## Names of members -/

/-- No two methods of a class are bound under one Ruby name. -/
theorem members_names_nodup (lib : Library) (i : DeclId) :
    ((lib.members i).methods.map Prod.snd).Nodup := by
  have hnames := Setting.map_snd_distinct {} (lib.withNames
    ((lib.exposed i).filter fun m => (lib.tree.get m).kind.isMethod))
  exact hnames ▸ (Fresh.pickAll_nodup {} _).1

/-- A Ruby name leads back to the method that is bound under it. -/
theorem eq_of_mem_members {m m' : DeclId} {ruby : String}
    (hm : (m, ruby) ∈ (lib.members i).methods) (hm' : (m', ruby) ∈ (lib.members i).methods) :
    m = m' :=
  congrArg Prod.fst (List.inj_on_of_nodup_map (lib.members_names_nodup i) hm hm' rfl)

theorem map_fst_members (lib : Library) (i : DeclId) :
    (lib.members i).methods.map Prod.fst = (lib.exposed i).filter fun m =>
      (lib.memberName? m).isSome && (lib.tree.get m).kind.isMethod := by
  refine (Setting.map_fst_distinct (g := { library := lib }) {} _).trans ?_
  rw [List.filter_filter]

theorem of_mem_members {m : Named} (hm : m ∈ (lib.members i).methods) :
    m.1 ∈ lib.exposed i ∧ (lib.memberName? m.1).isSome ∧ (lib.tree.get m.1).kind.isMethod := by
  have hkey := List.mem_map_of_mem (f := Prod.fst) hm
  rwa [map_fst_members, List.mem_filter, Bool.and_eq_true] at hkey

theorem members_methods_nodup (hw : lib.tree.WellFormed) (i : DeclId) :
    ((lib.members i).methods.map Prod.fst).Nodup := by
  rw [map_fst_members]
  exact ((hw.children_nodup i).filter _).filter _

theorem lookup_eq_some_of_mem {α β : Type} [BEq α] [LawfulBEq α] {l : List (α × β)}
    (hl : (l.map Prod.fst).Nodup) {e : α × β} (he : e ∈ l) : l.lookup e.1 = some e.2 := by
  obtain ⟨before, after, rfl⟩ := List.append_of_mem he
  refine List.lookup_eq_some_iff.mpr ⟨before, after, rfl, fun f hf => ?_⟩
  rw [List.map_append, List.nodup_append] at hl
  have hne := hl.2.2 f.1 (List.mem_map_of_mem hf) e.1 List.mem_cons_self
  simpa using hne.symm

theorem mem_of_lookup_eq_some {α β : Type} [BEq α] [LawfulBEq α] {l : List (α × β)} {a : α}
    {b : β} (h : l.lookup a = some b) : (a, b) ∈ l := by
  obtain ⟨before, after, rfl, -⟩ := List.lookup_eq_some_iff.mp h
  exact List.mem_append_right _ List.mem_cons_self

/-! ## The names that overrides ask for -/

/-- A virtual method that a class binds itself: it is exposed, and has a Ruby name. -/
def BindsVirtual (lib : Library) (i m : DeclId) : Prop :=
  m ∈ lib.exposed i ∧ (lib.tree.get m).kind.isVirtual ∧ (lib.memberName? m).isSome

/-- The virtual methods of a class, as its director overrides them. -/
abbrev directed (lib : Library) (i : DeclId) : List Virtual :=
  lib.boundVirtuals i (lib.members i).methods

theorem map_method_directed (lib : Library) (i : DeclId) :
    (lib.directed i).map Virtual.method = lib.overridden i := by
  rw [directed, boundVirtuals, List.map_map]
  rfl

theorem map_fallback_directed (lib : Library) (i : DeclId) :
    (lib.directed i).map Virtual.fallback = (lib.virtuals i).map Virtual.fallback := by
  rw [directed, boundVirtuals, List.map_map]
  rfl

theorem directed_methods_nodup (hw : lib.tree.WellFormed) (i : DeclId) :
    ((lib.directed i).map Virtual.method).Nodup := by
  rw [map_method_directed]
  exact overridden_nodup hw i

theorem directed_fallbacks_nodup (lib : Library) (i : DeclId) :
    ((lib.directed i).map Virtual.fallback).Nodup := by
  rw [map_fallback_directed]
  exact lib.fallbacks_nodup i

theorem virtuals_ne_nil (hm : m ∈ lib.overridden i) : lib.virtuals i ≠ [] := by
  intro hnone
  rw [overridden, hnone] at hm
  cases hm

theorem isMethod_of_isVirtual {k : Kind} (h : k.isVirtual) : k.isMethod := by
  cases k with
  | method result params flags => rfl
  | _ => cases h

/-- Each method of a director asks for its own name. -/
theorem dispatchName?_of_mem_directed (hv : v ∈ lib.directed i) :
    (lib.tree.get v.method).kind.isMethod ∧ lib.dispatchName? i v.method = some v.ruby := by
  obtain ⟨u, hu, rfl⟩ := List.mem_map.mp hv
  obtain ⟨hmethod, hruby⟩ := isMethod_of_mem_virtuals hu
  refine ⟨hmethod, ?_⟩
  dsimp only
  rw [dispatchName?, hruby]
  cases (lib.members i).methods.lookup u.method <;> rfl

/-- What a class does not expose, it does not bind. -/
theorem dispatchName?_of_not_mem_exposed (hm : m ∉ lib.exposed i) :
    lib.dispatchName? i m = lib.memberName? m := by
  rw [dispatchName?]
  cases hlookup : (lib.members i).methods.lookup m with
  | none => rfl
  | some ruby =>
    have hmem := List.mem_map_of_mem (f := Prod.fst) (mem_of_lookup_eq_some hlookup)
    rw [map_fst_members] at hmem
    exact absurd (List.mem_filter.mp hmem).1 hm

/-- An exposed method of a director is bound by the class, under the name that its override asks
for. -/
theorem mem_members_of_mem_directed (hw : lib.tree.WellFormed) (hv : v ∈ lib.directed i)
    (hexposed : v.method ∈ lib.exposed i) : (v.method, v.ruby) ∈ (lib.members i).methods := by
  obtain ⟨u, hu, rfl⟩ := List.mem_map.mp hv
  obtain ⟨hmethod, hruby⟩ := isMethod_of_mem_virtuals hu
  have hmember : u.method ∈ (lib.members i).methods.map Prod.fst := by
    rw [map_fst_members, List.mem_filter, hruby, hmethod]
    exact ⟨hexposed, rfl⟩
  obtain ⟨e, he, heq⟩ := List.mem_map.mp hmember
  have hlookup := lookup_eq_some_of_mem (members_methods_nodup hw i) he
  rw [heq] at hlookup
  dsimp only
  rw [hlookup]
  exact heq ▸ he

/-- A virtual method that a class binds is a method of its director. -/
theorem BindsVirtual.exists_directed (hw : lib.tree.WellFormed) (h : lib.BindsVirtual i m) :
    ∃ v ∈ lib.directed i, v.method = m ∧ v.isInherited = false ∧
      (m, v.ruby) ∈ (lib.members i).methods := by
  obtain ⟨hexposed, hvirtual, hnamed⟩ := h
  obtain ⟨hchild, hshown⟩ := List.mem_filter.mp hexposed
  have hkept : lib.isIgnored m = false := by
    rw [isExposed] at hshown
    cases hign : lib.isIgnored m with
    | false => rfl
    | true => rw [hign] at hshown; cases hshown
  have hown : m ∈ ((lib.virtuals i).filter fun v => !v.isInherited).map Virtual.method := by
    rw [map_method_own, List.mem_filter]
    refine ⟨List.mem_filter.mpr ⟨hchild, isMethod_of_isVirtual hvirtual⟩, ?_⟩
    rw [hvirtual, hkept, hnamed]
    rfl
  obtain ⟨u, hu, rfl⟩ := List.mem_map.mp hown
  obtain ⟨hu, hinherited⟩ := List.mem_filter.mp hu
  have hv := List.mem_map_of_mem (f := fun v : Virtual =>
    { v with ruby := ((lib.members i).methods.lookup v.method).getD v.ruby }) hu
  exact ⟨_, hv, rfl, by simpa using hinherited, mem_members_of_mem_directed hw hv hexposed⟩

/-- Overrides for different methods ask for different names exactly if no method that the class does
not bind asks for a name that another override asks for. -/
theorem directed_names_nodup_iff (hw : lib.tree.WellFormed) (i : DeclId) :
    ((lib.directed i).map Virtual.ruby).Nodup ↔
      ∀ m ∈ lib.overridden i, m ∉ lib.exposed i → ∀ m' ∈ lib.overridden i, m' ≠ m →
        lib.dispatchName? i m' ≠ lib.memberName? m := by
  have hmethods := directed_methods_nodup hw i
  have hinj := List.inj_on_of_nodup_map hmethods
  rw [← map_method_directed, List.nodup_map_iff_inj_on hmethods.of_map]
  constructor
  · intro hnames m hm hout m' hm' hne heq
    obtain ⟨v, hv, rfl⟩ := List.mem_map.mp hm
    obtain ⟨w, hw', rfl⟩ := List.mem_map.mp hm'
    rw [← dispatchName?_of_not_mem_exposed hout, (dispatchName?_of_mem_directed hv).2,
      (dispatchName?_of_mem_directed hw').2] at heq
    rw [hnames w hw' v hv (Option.some.inj heq)] at hne
    exact hne rfl
  · intro hclear v hv w hw' hruby
    have hapart : ∀ v ∈ lib.directed i, ∀ w ∈ lib.directed i, v.ruby = w.ruby →
        v.method ∉ lib.exposed i → v.method = w.method := by
      intro v hv w hw' hruby hout
      by_contra hne
      refine hclear v.method (List.mem_map_of_mem hv) hout w.method (List.mem_map_of_mem hw')
        (Ne.symm hne) ?_
      rw [← dispatchName?_of_not_mem_exposed hout, (dispatchName?_of_mem_directed hv).2,
        (dispatchName?_of_mem_directed hw').2, hruby]
    refine hinj hv hw' ?_
    by_cases hvout : v.method ∈ lib.exposed i
    · by_cases hwout : w.method ∈ lib.exposed i
      · -- What the class binds, it binds under different names.
        have hvm := mem_members_of_mem_directed hw hv hvout
        have hwm := mem_members_of_mem_directed hw hw' hwout
        exact eq_of_mem_members (hruby ▸ hvm) hwm
      · exact (hapart w hw' v hv hruby.symm hwout).symm
    · exact hapart v hv w hw' hruby hvout

end RubyBinding.Library
