import Mathlib
import RubyBinding.Proofs.Ancestors
import RubyBinding.Proofs.Edits
import RubyBinding.Proofs.Steps

/-!
# Which virtual methods a director overrides

A director overrides the virtual methods of its class, and of the pure virtual methods of the
ancestors those whose names no class declares that the walk through the ancestors meets before
(`overridesVirtuals`). What the walk meets before a class need not be below it, and what is below it
need not be met before; the two agree where no class has several bases and none is its own ancestor
(`IsChain.followsInheritance`).
-/

namespace RubyBinding.Library

open Relation (ReflTransGen TransGen)

variable {lib : Library} {k a c m x : DeclId} {name ruby : String}

/-- A class declares a method of a name. -/
def Declares (lib : Library) (c : DeclId) (name : String) : Prop :=
  ∃ m ∈ lib.methods c, (lib.tree.get m).name = name

/-- A class itself or one of its ancestors. -/
def IsOrHasAncestor (lib : Library) : DeclId → DeclId → Prop := ReflTransGen lib.Inherits

/-- The walk through the ancestors of a class, which starts at the class itself, meets one class
before another. -/
def MeetsBefore (lib : Library) (k x a : DeclId) : Prop :=
  x ∈ (k :: lib.ancestors k).takeWhile (· != a)

/-- The director of a class overrides a method that the class inherits. -/
def OverridesInherited (lib : Library) (k m : DeclId) : Prop :=
  ∃ v ∈ lib.virtuals k, v.method = m ∧ v.isInherited

/-- No class from `k` on up that is below `a` declares a method of a name. -/
def IsOpenBelow (lib : Library) (k a : DeclId) (name : String) : Prop :=
  ∀ x, lib.IsOrHasAncestor k x → x ≠ a → lib.HasAncestor x a → ¬ lib.Declares x name

/-- Of the classes that declare methods of a name, the walk meets those before `a` that are below
it. -/
def FollowsInheritance (lib : Library) (k a : DeclId) (name : String) : Prop :=
  ∀ x, lib.IsOrHasAncestor k x → x ≠ a → lib.Declares x name →
    (lib.MeetsBefore k x a ↔ lib.HasAncestor x a)

/-! ## The order of the walk -/

theorem walk_nodup (lib : Library) (k : DeclId) : (k :: lib.ancestors k).Nodup :=
  List.nodup_cons.mpr ⟨fun hk => (mem_ancestors_iff.mp hk).1 rfl, lib.ancestors_nodup k⟩

theorem mem_walk_iff : x ∈ k :: lib.ancestors k ↔ lib.IsOrHasAncestor k x := by
  rw [List.mem_cons, mem_ancestors_iff, IsOrHasAncestor, Relation.reflTransGen_iff_eq_or_transGen]
  by_cases hx : x = k <;> simp [hx, HasAncestor]

/-- In a list without duplicates, what comes before an entry is what is taken until it. -/
theorem takeWhile_bne_eq {before after : List DeclId} (h : (before ++ a :: after).Nodup) :
    (before ++ a :: after).takeWhile (· != a) = before := by
  have hne : ∀ x ∈ before, (x != a) = true := by
    intro x hx
    have hdisjoint := (List.nodup_append.mp h).2.2 x hx a List.mem_cons_self
    simpa using hdisjoint
  rw [List.takeWhile_append_of_pos hne, List.takeWhile_cons_of_neg (by simp), List.append_nil]

theorem MeetsBefore.isOrHasAncestor (h : lib.MeetsBefore k x a) :
    lib.IsOrHasAncestor k x ∧ x ≠ a := by
  refine ⟨mem_walk_iff.mp (List.takeWhile_subset _ h), ?_⟩
  simpa using List.mem_takeWhile_imp h

/-- What is met before a class is no farther away. -/
theorem MeetsBefore.nearer (h : lib.MeetsBefore k x a) (ha : a ∈ k :: lib.ancestors k) {n : Nat}
    (hn : lib.ReachedIn k n a) : lib.ReachedIn k n x := by
  have hpairwise : (k :: lib.ancestors k).Pairwise fun b c =>
      ∀ n, lib.ReachedIn k n c → lib.ReachedIn k n b :=
    List.pairwise_cons.mpr ⟨fun _ _ n _ => .self n, lib.ancestors_nearest_first k⟩
  obtain ⟨before, after, hsplit⟩ := List.append_of_mem ha
  have hnodup := lib.walk_nodup k
  rw [hsplit] at hnodup hpairwise
  rw [MeetsBefore, hsplit, takeWhile_bne_eq hnodup] at h
  exact (List.pairwise_append.mp hpairwise).2.2 x h a List.mem_cons_self n hn

/-- Of two entries of a list, one comes first. -/
theorem mem_takeWhile_or (l : List DeclId) (hx : x ∈ l) (ha : a ∈ l) (hne : x ≠ a) :
    x ∈ l.takeWhile (· != a) ∨ a ∈ l.takeWhile (· != x) := by
  induction l with
  | nil => cases hx
  | cons b l ih =>
    by_cases hba : b = a
    · refine .inr ?_
      rw [hba, List.takeWhile_cons_of_pos (by simpa using hne.symm)]
      exact List.mem_cons_self
    · by_cases hbx : b = x
      · refine .inl ?_
        rw [hbx, List.takeWhile_cons_of_pos (by simpa using hne)]
        exact List.mem_cons_self
      · rw [List.takeWhile_cons_of_pos (by simpa using hba),
          List.takeWhile_cons_of_pos (by simpa using hbx)]
        have htail := ih (List.mem_of_ne_of_mem (Ne.symm hbx) hx)
          (List.mem_of_ne_of_mem (Ne.symm hba) ha)
        exact htail.imp (List.mem_cons_of_mem b) (List.mem_cons_of_mem b)

/-- The methods of a name that the classes before `a` declare hide those of `a`. -/
theorem forall_before_iff (ha : a ∈ lib.ancestors k) {P : DeclId → Prop} :
    (∃ before after, lib.ancestors k = before ++ a :: after ∧ P k ∧ ∀ x ∈ before, P x) ↔
      ∀ x, lib.MeetsBefore k x a → P x := by
  obtain ⟨before, after, hsplit⟩ := List.append_of_mem ha
  have hnodup := lib.walk_nodup k
  rw [hsplit, ← List.cons_append] at hnodup
  have htake : (k :: lib.ancestors k).takeWhile (· != a) = k :: before := by
    rw [hsplit, ← List.cons_append, takeWhile_bne_eq hnodup]
  constructor
  · rintro ⟨before', after', hsplit', hk, hbefore⟩ x hx
    have hnodup' := lib.walk_nodup k
    rw [hsplit', ← List.cons_append] at hnodup'
    rw [MeetsBefore, hsplit', ← List.cons_append, takeWhile_bne_eq hnodup'] at hx
    exact List.forall_mem_cons.mpr ⟨hk, hbefore⟩ x hx
  · intro h
    have hall : ∀ x ∈ k :: before, P x := by
      intro x hx
      exact h x (by rw [MeetsBefore, htake]; exact hx)
    exact ⟨before, after, hsplit, List.forall_mem_cons.mp hall⟩

/-! ## The methods that are listed -/

theorem mem_methods_iff (hw : lib.tree.WellFormed) :
    m ∈ lib.methods c ↔ lib.tree.parent? m = some c ∧ (lib.tree.get m).kind.isMethod := by
  rw [methods, DeclTree.membersOf, List.mem_filter, hw.mem_children]

/-- A method is declared in one class only. -/
theorem eq_of_mem_methods (hw : lib.tree.WellFormed) (hc : m ∈ lib.methods c)
    (ha : m ∈ lib.methods a) : c = a := by
  have hparents : some c = some a :=
    ((mem_methods_iff hw).mp hc).1.symm.trans ((mem_methods_iff hw).mp ha).1
  exact Option.some.inj hparents

/-- Entries of a list with the Ruby names they ask for. -/
theorem filterMap_named (p : DeclId → Bool) (is : List DeclId) :
    (is.filterMap fun m => if p m then (lib.memberName? m).map fun ruby => (m, ruby) else none) =
      lib.withNames (is.filter p) := by
  rw [withNames, List.filterMap_filter]

theorem mem_withNames_iff {is : List DeclId} :
    (m, ruby) ∈ lib.withNames is ↔ m ∈ is ∧ lib.memberName? m = some ruby := by
  rw [withNames, List.mem_filterMap]
  constructor
  · rintro ⟨i, hi, hmap⟩
    obtain ⟨r, hr, heq⟩ := Option.map_eq_some_iff.mp hmap
    cases heq
    exact ⟨hi, hr⟩
  · rintro ⟨hm, hr⟩
    exact ⟨m, hm, by rw [hr]; rfl⟩

/-- Of the pure virtual methods of some classes, those are found whose names neither are implemented
already nor are declared by a class before their own. -/
theorem mem_pureVirtuals_iff {implemented : List String} {cs : List DeclId} :
    (m, ruby) ∈ lib.pureVirtuals implemented cs ↔
      ∃ before c after, cs = before ++ c :: after ∧ m ∈ lib.methods c ∧
        (lib.tree.get m).kind.isPureVirtual ∧ lib.memberName? m = some ruby ∧
        (lib.tree.get m).name ∉ implemented ∧
        ∀ x ∈ before, ¬ lib.Declares x (lib.tree.get m).name := by
  induction cs generalizing implemented with
  | nil => simp [pureVirtuals]
  | cons c cs ih =>
    have hfound : ∀ implemented : List String, (m, ruby) ∈ lib.withNames ((lib.methods c).filter
          fun m => (lib.tree.get m).kind.isPureVirtual &&
            !implemented.contains (lib.tree.get m).name) ↔
        m ∈ lib.methods c ∧ (lib.tree.get m).kind.isPureVirtual ∧
          lib.memberName? m = some ruby ∧ (lib.tree.get m).name ∉ implemented := by
      intro implemented
      rw [mem_withNames_iff, List.mem_filter]
      simp [and_comm, and_assoc, and_left_comm]
    -- What `c` declares counts as implemented from here on.
    have hdeclares : ∀ name, name ∈ implemented ++ ((lib.methods c).map fun m =>
        (lib.tree.get m).name) ↔ name ∈ implemented ∨ lib.Declares c name := by
      intro name
      rw [List.mem_append, List.mem_map, Declares]
    rw [pureVirtuals, List.mem_append, filterMap_named, hfound, ih, hdeclares]
    constructor
    · rintro (⟨hm, hpure, hruby, hnew⟩ | ⟨before, d, after, rfl, hm, hpure, hruby, hnew, hbefore⟩)
      · exact ⟨[], c, cs, rfl, hm, hpure, hruby, hnew, List.forall_mem_nil _⟩
      · refine ⟨c :: before, d, after, rfl, hm, hpure, hruby, fun hin => hnew (.inl hin), ?_⟩
        exact List.forall_mem_cons.mpr ⟨fun hin => hnew (.inr hin), hbefore⟩
    · rintro ⟨before, d, after, hsplit, hm, hpure, hruby, hnew, hbefore⟩
      cases before with
      | nil =>
        obtain ⟨rfl, rfl⟩ := List.cons.inj hsplit
        exact .inl ⟨hm, hpure, hruby, hnew⟩
      | cons e before =>
        obtain ⟨rfl, rfl⟩ := List.cons.inj hsplit
        obtain ⟨hc, hbefore⟩ := List.forall_mem_cons.mp hbefore
        exact .inr ⟨before, d, after, rfl, hm, hpure, hruby, not_or.mpr ⟨hnew, hc⟩, hbefore⟩

theorem exists_class_of_mem_pureVirtuals {implemented : List String} {cs : List DeclId}
    {e : DeclId × String} (h : e ∈ lib.pureVirtuals implemented cs) :
    ∃ c ∈ cs, e.1 ∈ lib.methods c := by
  obtain ⟨before, c, after, rfl, hm, -⟩ := mem_pureVirtuals_iff.mp h
  exact ⟨c, List.mem_append_right _ List.mem_cons_self, hm⟩

theorem mem_methods_of_mem_ownVirtuals {e : DeclId × String} (h : e ∈ lib.ownVirtuals k) :
    e.1 ∈ lib.methods k := by
  rw [ownVirtuals, filterMap_named, mem_withNames_iff] at h
  exact (List.mem_filter.mp h.1).1

/-- The virtual methods of a class, apart from the members that reach their implementations. -/
theorem map_virtuals (lib : Library) (k : DeclId) :
    (lib.virtuals k).map (fun v => ((v.method, v.ruby), v.isInherited)) =
      (lib.ownVirtuals k).map (·, false) ++ (lib.pureVirtuals
        ((lib.methods k).map fun m => (lib.tree.get m).name) (lib.ancestors k)).map (·, true) := by
  unfold virtuals
  dsimp only
  generalize hall : (lib.ownVirtuals k).map (·, false) ++ (lib.pureVirtuals
    ((lib.methods k).map fun m => (lib.tree.get m).name) (lib.ancestors k)).map (·, true) = all
  have hlength := Fresh.length_pickAll {} (all.map fun e =>
    "default_" ++ identifier (lib.tree.get e.1.1).name)
  rw [List.length_map] at hlength
  generalize (({} : Fresh).pickAll _).1 = fallbacks at hlength
  rw [List.map_zipWith]
  refine List.ext_getElem (by simp [hlength]) fun i _ _ => ?_
  simp

theorem mem_virtuals_iff {v : DeclId × String} (isInherited : Bool) :
    (∃ w ∈ lib.virtuals k, ((w.method, w.ruby), w.isInherited) = (v, isInherited)) ↔
      if isInherited then v ∈ lib.pureVirtuals
        ((lib.methods k).map fun m => (lib.tree.get m).name) (lib.ancestors k)
      else v ∈ lib.ownVirtuals k := by
  rw [← List.mem_map, map_virtuals, List.mem_append, List.mem_map, List.mem_map]
  cases isInherited <;> simp

/-- Overridden methods are methods, under the Ruby names that they ask for. -/
theorem isMethod_of_mem_virtuals {v : Virtual} (hv : v ∈ lib.virtuals k) :
    (lib.tree.get v.method).kind.isMethod ∧ lib.memberName? v.method = some v.ruby := by
  have hmem := (mem_virtuals_iff v.isInherited).mp ⟨v, hv, rfl⟩
  split at hmem
  · obtain ⟨_, c, _, _, hm, _, hruby, _⟩ := mem_pureVirtuals_iff.mp hmem
    exact ⟨(List.mem_filter.mp hm).2, hruby⟩
  · have hm := mem_methods_of_mem_ownVirtuals hmem
    rw [ownVirtuals, filterMap_named, mem_withNames_iff] at hmem
    exact ⟨(List.mem_filter.mp hm).2, hmem.2⟩

/-- What a director overrides of what its class inherits. -/
theorem overridesInherited_iff :
    lib.OverridesInherited k m ↔ ∃ a ∈ lib.ancestors k, m ∈ lib.methods a ∧
      (lib.tree.get m).kind.isPureVirtual ∧ (lib.memberName? m).isSome ∧
      ∀ x, lib.MeetsBefore k x a → ¬ lib.Declares x (lib.tree.get m).name := by
  have hruby : lib.OverridesInherited k m ↔ ∃ ruby, (m, ruby) ∈ lib.pureVirtuals
      ((lib.methods k).map fun m => (lib.tree.get m).name) (lib.ancestors k) := by
    constructor
    · rintro ⟨v, hv, rfl, hinherited⟩
      exact ⟨v.ruby, (mem_virtuals_iff true).mp ⟨v, hv, by rw [hinherited]⟩⟩
    · rintro ⟨ruby, hmem⟩
      obtain ⟨v, hv, heq⟩ := (mem_virtuals_iff true).mpr hmem
      simp only [Prod.mk.injEq] at heq
      exact ⟨v, hv, heq.1.1, heq.2⟩
  have hk : (lib.tree.get m).name ∉ (lib.methods k).map (fun m => (lib.tree.get m).name) ↔
      ¬ lib.Declares k (lib.tree.get m).name := by
    rw [List.mem_map, Declares]
  rw [hruby]
  constructor
  · rintro ⟨ruby, hmem⟩
    obtain ⟨before, a, after, hsplit, hm, hpure, hruby, hnew, hbefore⟩ :=
      mem_pureVirtuals_iff.mp hmem
    have ha : a ∈ lib.ancestors k := hsplit ▸ List.mem_append_right _ List.mem_cons_self
    refine ⟨a, ha, hm, hpure, Option.isSome_of_eq_some hruby, ?_⟩
    exact (forall_before_iff ha).mp ⟨before, after, hsplit, hk.mp hnew, hbefore⟩
  · rintro ⟨a, ha, hm, hpure, hsome, hbefore⟩
    obtain ⟨ruby, hruby⟩ := Option.isSome_iff_exists.mp hsome
    obtain ⟨before, after, hsplit, hnew, hbefore⟩ := (forall_before_iff ha).mpr hbefore
    exact ⟨ruby, mem_pureVirtuals_iff.mpr
      ⟨before, a, after, hsplit, hm, hpure, hruby, hk.mpr hnew, hbefore⟩⟩

/-- A class overrides its own virtual methods in the order in which they are declared. -/
theorem map_method_own (lib : Library) (k : DeclId) :
    ((lib.virtuals k).filter fun v => !v.isInherited).map Virtual.method =
      (lib.methods k).filter fun m => (lib.tree.get m).kind.isVirtual && !lib.isIgnored m &&
        (lib.memberName? m).isSome := by
  have hown : (((lib.virtuals k).map fun v => ((v.method, v.ruby), v.isInherited)).filter
      fun e => !e.2).map (fun e => e.1.1) = (lib.ownVirtuals k).map Prod.fst := by
    rw [map_virtuals, List.filter_append, List.filter_map, List.filter_map]
    simp [Function.comp_def]
  rw [List.filter_map, List.map_map] at hown
  have hmap : ((lib.virtuals k).filter fun v => !v.isInherited).map Virtual.method =
      (lib.ownVirtuals k).map Prod.fst := hown
  rw [hmap, ownVirtuals, filterMap_named, Setting.map_fst_withNames (g := { library := lib }),
    List.filter_filter]
  exact List.filter_congr fun m _ => Bool.and_comm _ _

/-! ## Chains -/

/-- From `k` on up, no class has several bases, and none is its own ancestor. -/
structure IsChain (lib : Library) (k : DeclId) : Prop where
  single : ∀ c, lib.IsOrHasAncestor k c → ∀ b b', lib.Inherits c b → lib.Inherits c b' → b = b'
  acyclic : ∀ c, lib.IsOrHasAncestor k c → ¬ lib.HasAncestor c c

theorem ReachedIn.isOrHasAncestor {n : Nat} (h : lib.ReachedIn k n a) :
    lib.IsOrHasAncestor k a := by
  induction h with
  | self _ => exact .refl
  | base _ hb ih => exact .tail ih hb

theorem HasAncestor.reachedIn (h : lib.HasAncestor k a) : ∃ n, lib.ReachedIn k n a := by
  induction h with
  | single hb => exact ⟨1, .base (.self 0) hb⟩
  | tail _ hb ih =>
    obtain ⟨n, hn⟩ := ih
    exact ⟨n + 1, .base hn hb⟩

namespace IsChain

/-- On the way to a class, every class is passed that is not at or above it. -/
theorem passes (h : lib.IsChain k) (hx : lib.IsOrHasAncestor k x) {n : Nat}
    (ha : lib.ReachedIn k n a) : lib.IsOrHasAncestor a x ∨ ∃ i < n, lib.ReachedIn k i x := by
  induction ha with
  | self n => exact .inl hx
  | base hc hb ih =>
    rename_i n c b
    rcases ih with hcx | ⟨i, hi, hreached⟩
    · -- The way on from `c` leads over its only base.
      rcases hcx.cases_head with rfl | ⟨b', hb', hx'⟩
      · exact .inr ⟨n, Nat.lt_succ_self n, hc⟩
      · rw [h.single c hc.isOrHasAncestor b b' hb hb']
        exact .inl hx'
    · exact .inr ⟨i, Nat.lt_succ_of_lt hi, hreached⟩

/-- What is below a class is reached over fewer bases. -/
theorem exists_nearer (h : lib.IsChain k) (hx : lib.IsOrHasAncestor k x)
    (hxa : lib.HasAncestor x a) : ∃ n, lib.ReachedIn k n x ∧ ¬ lib.ReachedIn k n a := by
  by_contra hall
  -- Else the way to `a` could be made shorter and shorter.
  have hnone : ∀ n, ¬ lib.ReachedIn k n a := by
    intro n
    induction n using Nat.strongRecOn with
    | _ n ih =>
      intro ha
      rcases h.passes hx ha with hax | ⟨i, hi, hreached⟩
      · exact h.acyclic x hx (hxa.trans_left hax)
      · exact ih i hi (not_not.mp fun hout => hall ⟨i, hreached, hout⟩)
  obtain ⟨n, hn⟩ := HasAncestor.reachedIn (TransGen.trans_right hx hxa)
  exact hnone n hn

/-- Of two classes that are reached, one is at or above the other. -/
theorem comparable (h : lib.IsChain k) (hx : lib.IsOrHasAncestor k x)
    (ha : lib.IsOrHasAncestor k a) : lib.IsOrHasAncestor x a ∨ lib.IsOrHasAncestor a x := by
  induction hx with
  | refl => exact .inl ha
  | tail hc hb ih =>
    rename_i c b
    rcases ih with hca | hac
    · rcases hca.cases_head with rfl | ⟨b', hb', hba⟩
      · exact .inr (.single hb)
      · rw [h.single c hc b b' hb hb']
        exact .inl hba
    · exact .inr (hac.tail hb)

/-- **In a chain, the walk follows inheritance.** -/
theorem followsInheritance (h : lib.IsChain k) (ha : lib.IsOrHasAncestor k a) (name : String) :
    lib.FollowsInheritance k a name := by
  intro x hx hne _
  have hawalk := mem_walk_iff.mpr ha
  have hxwalk := mem_walk_iff.mpr hx
  have habove : ∀ {b c}, lib.IsOrHasAncestor b c → b ≠ c → lib.HasAncestor b c := by
    intro b c hbc hbc'
    exact (Relation.reflTransGen_iff_eq_or_transGen.mp hbc).resolve_left (Ne.symm hbc')
  constructor
  · intro hmeets
    rcases h.comparable hx ha with hxa | hax
    · exact habove hxa hne
    · obtain ⟨n, hn, hout⟩ := h.exists_nearer ha (habove hax hne.symm)
      exact absurd (hmeets.nearer hawalk hn) hout
  · intro hxa
    rcases mem_takeWhile_or _ hxwalk hawalk hne with hmeets | hmeets
    · exact hmeets
    · obtain ⟨n, hn, hout⟩ := h.exists_nearer hx hxa
      exact absurd (MeetsBefore.nearer hmeets hxwalk hn) hout

end IsChain

/-! ## The result -/

/-- What the director of a class overrides. -/
structure OverridesVirtuals (lib : Library) (k : DeclId) : Prop where
  /-- Of the class's own methods: the virtual ones that are not ignored and have a Ruby name, in the
  order in which they are declared. -/
  own : ((lib.virtuals k).filter fun v => !v.isInherited).map Virtual.method =
    (lib.methods k).filter fun m => (lib.tree.get m).kind.isVirtual && !lib.isIgnored m &&
      (lib.memberName? m).isSome
  /-- All under the names they ask for. -/
  named : ∀ v ∈ lib.virtuals k, lib.memberName? v.method = some v.ruby
  /-- What is inherited is a method of an ancestor. -/
  exists_ancestor : ∀ m, lib.OverridesInherited k m →
    ∃ a, a ≠ k ∧ lib.HasAncestor k a ∧ m ∈ lib.methods a
  /-- Of an ancestor's methods: the pure virtual ones that have a Ruby name, ignored or not, where
  no class that is met before the ancestor declares a method of the name. -/
  inherited_iff : ∀ a, a ≠ k → lib.HasAncestor k a → ∀ m ∈ lib.methods a,
    (lib.OverridesInherited k m ↔
      (lib.tree.get m).kind.isPureVirtual ∧ (lib.memberName? m).isSome ∧
        ∀ x, lib.MeetsBefore k x a → ¬ lib.Declares x (lib.tree.get m).name)
  /-- Where the walk follows inheritance: those that no class below the ancestor implements. -/
  inherited_iff_of_follows : ∀ a, a ≠ k → lib.HasAncestor k a → ∀ m ∈ lib.methods a,
    lib.isIgnored m = false → lib.FollowsInheritance k a (lib.tree.get m).name →
    (lib.OverridesInherited k m ↔
      (lib.tree.get m).kind.isPureVirtual ∧ lib.isIgnored m = false ∧
        (lib.memberName? m).isSome ∧ lib.IsOpenBelow k a (lib.tree.get m).name)

/-- Where the walk follows inheritance, nothing that is met before declares a name exactly if
nothing below does. -/
theorem FollowsInheritance.isOpenBelow_iff {name : String}
    (h : lib.FollowsInheritance k a name) :
    (∀ x, lib.MeetsBefore k x a → ¬ lib.Declares x name) ↔ lib.IsOpenBelow k a name := by
  constructor
  · intro hbefore x hx hne hxa hdeclares
    exact hbefore x ((h x hx hne hdeclares).mpr hxa) hdeclares
  · intro hopen x hmeets hdeclares
    obtain ⟨hx, hne⟩ := hmeets.isOrHasAncestor
    exact hopen x hx hne ((h x hx hne hdeclares).mp hmeets) hdeclares

/-- **What a director overrides**, for every class of a well-formed tree, whatever was said about
the library and however classes inherit from each other. In a chain, a director overrides of what it
inherits, and what is not ignored, exactly what nothing below implements. -/
theorem overridesVirtuals (hw : lib.tree.WellFormed) (k : DeclId) :
    lib.OverridesVirtuals k ∧ (lib.IsChain k → ∀ a, lib.IsOrHasAncestor k a →
      ∀ name, lib.FollowsInheritance k a name) := by
  have hinherited : ∀ a, a ≠ k → lib.HasAncestor k a → ∀ m ∈ lib.methods a,
      (lib.OverridesInherited k m ↔
        (lib.tree.get m).kind.isPureVirtual ∧ (lib.memberName? m).isSome ∧
          ∀ x, lib.MeetsBefore k x a → ¬ lib.Declares x (lib.tree.get m).name) := by
    intro a hne ha m hm
    rw [overridesInherited_iff]
    constructor
    · rintro ⟨b, -, hmb, hrest⟩
      rwa [eq_of_mem_methods hw hmb hm] at hrest
    · exact fun hrest => ⟨a, mem_ancestors_iff.mpr ⟨hne, ha⟩, hm, hrest⟩
  refine ⟨⟨lib.map_method_own k, ?_, ?_, hinherited, ?_⟩, fun h a ha => h.followsInheritance ha⟩
  · exact fun v hv => (isMethod_of_mem_virtuals hv).2
  · intro m hm
    obtain ⟨a, ha, hma, -⟩ := overridesInherited_iff.mp hm
    obtain ⟨hne, habove⟩ := mem_ancestors_iff.mp ha
    exact ⟨a, hne, habove, hma⟩
  · intro a hne ha m hm hign hfollows
    rw [hinherited a hne ha m hm, hfollows.isOpenBelow_iff]
    simp [hign]

/-- A shape with a pure virtual method, and a square, which is a shape. -/
def squareTree : DeclTree :=
  let t := (DeclTree.empty.add DeclTree.root "Shape" (.record false [])).2
  let t := (t.add 1 "area" (.method .float [] { isVirtual := true, isPure := true })).2
  (t.add DeclTree.root "Square" (.record false [⟨"Shape", .pub, false⟩])).2

theorem squareTree_built : squareTree.Built := by
  refine .add (.add (.add .empty ?_ _ _) ?_ _ _) ?_ _ _ <;> decide

section Square

variable (h : lib.tree = squareTree)

include h

theorem inherits_square {b : DeclId} (hc : c = 3 ∨ c = 1) (hb : lib.Inherits c b) :
    c = 3 ∧ b = 1 := by
  have hsquare : squareTree.superclasses 3 = [1] := by cbv
  have hshape : squareTree.superclasses 1 = [] := by cbv
  rw [Inherits, h] at hb
  rcases hc with rfl | rfl
  · rw [hsquare] at hb
    exact ⟨rfl, List.mem_singleton.mp hb⟩
  · rw [hshape] at hb
    cases hb

theorem hasAncestor_square : lib.HasAncestor 3 1 := by
  have hsquare : squareTree.superclasses 3 = [1] := by cbv
  refine .single ?_
  rw [Inherits, h, hsquare]
  exact List.mem_singleton_self 1

theorem isOrHasAncestor_square (hx : lib.IsOrHasAncestor 3 x) : x = 3 ∨ x = 1 := by
  induction hx with
  | refl => exact .inl rfl
  | tail _ hb ih => exact .inr (inherits_square h ih hb).2

theorem isChain_square : lib.IsChain 3 := by
  refine ⟨?_, ?_⟩
  · intro c hc b b' hb hb'
    have hc' := isOrHasAncestor_square h hc
    rw [(inherits_square h hc' hb).2, (inherits_square h hc' hb').2]
  · intro c hc hcycle
    obtain ⟨b, hcb, hbc⟩ := TransGen.head'_iff.mp hcycle
    obtain ⟨rfl, rfl⟩ := inherits_square h (isOrHasAncestor_square h hc) hcb
    rcases hbc.cases_head with heq | ⟨d, hd, -⟩
    · cases heq
    · exact absurd (inherits_square h (.inr rfl) hd).1 (by decide)

theorem mem_methods_square : 2 ∈ lib.methods 1 := by
  have hmethods : squareTree.membersOf 1 Kind.isMethod = [2] := by cbv
  rw [methods, h, hmethods]
  exact List.mem_singleton_self 2

/-- The square declares nothing. -/
theorem not_declares_square (hx : lib.IsOrHasAncestor 3 x) (hne : x ≠ 1) :
    ¬ lib.Declares x name := by
  obtain rfl : x = 3 := (isOrHasAncestor_square h hx).resolve_right hne
  have hmethods : squareTree.membersOf 3 Kind.isMethod = [] := by cbv
  rintro ⟨m, hm, -⟩
  rw [methods, h, hmethods] at hm
  cases hm

end Square

/-- The director of the square overrides what the shape leaves open. -/
theorem overridesVirtuals_square :
    (ofTree squareTree).OverridesVirtuals 3 ∧ (ofTree squareTree).OverridesInherited 3 2 := by
  have hw : (ofTree squareTree).tree.WellFormed := squareTree_built.wellFormed
  obtain ⟨hspec, hchain⟩ := overridesVirtuals hw 3
  have habove : (ofTree squareTree).HasAncestor 3 1 := hasAncestor_square rfl
  have hfollows := hchain (isChain_square rfl) 1 habove.to_reflTransGen "area"
  refine ⟨hspec, ?_⟩
  rw [hspec.inherited_iff_of_follows 1 (by decide) habove 2 (mem_methods_square rfl) rfl hfollows]
  exact ⟨rfl, rfl, rfl, fun x hx hne _ => not_declares_square rfl hx hne⟩

/-- The library in which the shape's method is ignored. -/
def ignoringLibrary : Library := (ofTree squareTree).ignore 2

/-- The square overrides the shape's method even if the method is ignored. -/
theorem not_inherited_iff_ignoring :
    ¬ (ignoringLibrary.OverridesInherited 3 2 ↔
      (ignoringLibrary.tree.get 2).kind.isPureVirtual ∧ ignoringLibrary.isIgnored 2 = false ∧
        (ignoringLibrary.memberName? 2).isSome ∧
        ignoringLibrary.IsOpenBelow 3 1 (ignoringLibrary.tree.get 2).name) := by
  intro h
  have htree : ignoringLibrary.tree = squareTree := rfl
  have hlisted : ignoringLibrary.OverridesInherited 3 2 := by
    refine overridesInherited_iff.mpr ⟨1, mem_ancestors_iff.mpr ⟨by decide, ?_⟩,
      mem_methods_square htree, rfl, rfl, ?_⟩
    · exact hasAncestor_square htree
    · intro x hmeets
      obtain ⟨hx, hne⟩ := hmeets.isOrHasAncestor
      exact not_declares_square htree hx hne
  have hignored : ignoringLibrary.isIgnored 2 = true := rfl
  rw [(h.mp hlisted).2.1] at hignored
  cases hignored

end RubyBinding.Library
