import RubyBinding.Proofs.Dispatch

/-!
# Breadth-first order

The virtual methods of a class are found by a search through its ancestors, which takes up one
class in each turn. The search ends for whatever tree (`turn_wellFounded`), and comes to what
`virtuals` lists (`search_virtuals`). It takes up the class and its ancestors in breadth-first order
(`walk_eq_breadthFirst`): all ways over bases are put in order, the shorter ones first, and every
class stands where the first of its ways leads to it.
-/

namespace RubyBinding.Library

open Relation (ReflTransGen)

variable {lib : Library} {k a c m x : DeclId} {name : String}

/-- What is reached over `n` bases, once for each way. -/
def reachedOver (lib : Library) (k : DeclId) : Nat → List DeclId
  | 0 => [k]
  | n + 1 => (lib.reachedOver k n).flatMap lib.tree.superclasses

/-- What is reached over fewer than `n` bases, shorter ways first. -/
def reachedWithin (lib : Library) (k : DeclId) (n : Nat) : List DeclId :=
  (List.range n).flatMap (lib.reachedOver k)

/-- A class and its ancestors in breadth-first order, each where it is reached first. No way to a
class needs to pass more bases than there are declarations. -/
def breadthFirst (lib : Library) (k : DeclId) : List DeclId :=
  (lib.reachedWithin k (lib.tree.size + 1)).eraseDups

/-! ## First occurrences -/

/-- What contributes nothing may be left out. -/
theorem flatMap_filter_of_nil {α β : Type} {f : α → List β} {p : α → Bool} {l : List α}
    (h : ∀ a ∈ l, p a = false → f a = []) : (l.filter p).flatMap f = l.flatMap f := by
  induction l with
  | nil => rfl
  | cons a l ih =>
    obtain ⟨ha, hl⟩ := List.forall_mem_cons.mp h
    rw [List.flatMap_cons, ← ih hl]
    cases hp : p a with
    | true => rw [List.filter_cons_of_pos hp, List.flatMap_cons]
    | false => rw [List.filter_cons_of_neg (by simp [hp]), ha hp, List.nil_append]

theorem removeAll_flatMap (f : DeclId → List DeclId) (l out : List DeclId) :
    (l.flatMap f).removeAll out = l.flatMap fun a => (f a).removeAll out := by
  simp only [List.removeAll, List.filter_flatMap]

theorem mem_removeAll {l out : List DeclId} : a ∈ l.removeAll out ↔ a ∈ l ∧ a ∉ out := by
  simp [List.removeAll]

theorem removeAll_eq_nil {l out : List DeclId} (h : l ⊆ out) : l.removeAll out = [] :=
  List.eq_nil_iff_forall_not_mem.mpr fun _ ha => (mem_removeAll.mp ha).2 (h (mem_removeAll.mp ha).1)

/-- What is taken off a list depends on membership only. -/
theorem removeAll_congr {l out out' : List DeclId} (h : ∀ a, a ∈ out ↔ a ∈ out') :
    l.removeAll out = l.removeAll out' := by
  refine List.filter_congr fun a _ => ?_
  rw [Bool.not_inj_iff, Bool.eq_iff_iff, List.elem_iff, List.elem_iff, h]

/-- The first occurrences depend on first occurrences only. -/
theorem eraseDups_flatMap_eraseDups (f : DeclId → List DeclId) (l : List DeclId) :
    (l.eraseDups.flatMap f).eraseDups = (l.flatMap f).eraseDups := by
  induction hn : l.length using Nat.strongRecOn generalizing l f with
  | _ n ih =>
    cases l with
    | nil => rw [List.eraseDups_nil]
    | cons a l =>
      have hlength : (l.filter fun b => !b == a).length < n := by
        have := List.length_filter_le (fun b => !b == a) l
        rw [List.length_cons] at hn
        omega
      have hrest := ih _ hlength (fun b => (f b).removeAll (f a)) _ rfl
      have hself : ∀ b ∈ l, (!b == a) = false → (f b).removeAll (f a) = [] := by
        intro b _ hb
        obtain rfl : b = a := by simpa using hb
        exact removeAll_eq_nil (List.Subset.refl _)
      rw [List.eraseDups_cons, List.flatMap_cons, List.eraseDups_append, removeAll_flatMap, hrest,
        flatMap_filter_of_nil hself, List.flatMap_cons, List.eraseDups_append, removeAll_flatMap]

/-! ## The walk in levels -/

theorem superclasses_subset_ids (lib : Library) (c : DeclId) :
    lib.tree.superclasses c ⊆ lib.tree.ids :=
  fun _ hb => Inherits.mem_ids hb

theorem filter_removeAll (l seen : List DeclId) (c : DeclId) :
    (l.removeAll seen).filter (fun b => !b == c) = l.removeAll (seen ++ [c]) := by
  rw [List.removeAll, List.removeAll, List.filter_filter]
  refine List.filter_congr fun a _ => ?_
  rw [List.elem_eq_contains, List.elem_eq_contains, List.contains_append, List.contains_cons,
    List.contains_nil, Bool.or_false, Bool.not_or, Bool.and_comm]

/-- A class that is met was unseen until then. -/
theorem erase_removeAll (lib : Library) (seen : List DeclId) (c : DeclId) :
    (lib.tree.ids.removeAll seen).erase c = lib.tree.ids.removeAll (seen ++ [c]) := by
  have hnodup : (lib.tree.ids.removeAll seen).Nodup := List.nodup_range.filter _
  rw [hnodup.erase_eq_filter]
  exact filter_removeAll _ seen c

/-- A walk that has seen some classes works through a level: it meets what it has not seen, each
class once, and goes on with the bases of what it met. -/
theorem ancestorsAmong_level (lib : Library) (seen next : List DeclId) {level : List DeclId}
    (hlevel : level ⊆ lib.tree.ids) :
    lib.ancestorsAmong (lib.tree.ids.removeAll seen) (level ++ next) =
      (level.removeAll seen).eraseDups ++
        lib.ancestorsAmong (lib.tree.ids.removeAll (seen ++ level))
          (next ++ (level.removeAll seen).eraseDups.flatMap lib.tree.superclasses) := by
  induction level generalizing seen next with
  | nil => simp
  | cons c level ih =>
    obtain ⟨hc, hlevel⟩ := List.cons_subset.mp hlevel
    rw [List.cons_append, ancestorsAmong, List.cons_removeAll]
    by_cases hseen : c ∈ seen
    · have hsame : lib.tree.ids.removeAll (seen ++ c :: level) =
          lib.tree.ids.removeAll (seen ++ level) := by
        refine removeAll_congr fun b => ?_
        simp only [List.mem_append, List.mem_cons]
        constructor
        · rintro (hb | rfl | hb)
          exacts [.inl hb, .inl hseen, .inr hb]
        · exact Or.imp_right .inr
      have hout : c ∉ lib.tree.ids.removeAll seen := fun h => (mem_removeAll.mp h).2 hseen
      rw [dif_neg hout, ih seen next hlevel, hsame]
      simp [hseen]
    · have hin : c ∈ lib.tree.ids.removeAll seen := mem_removeAll.mpr ⟨hc, hseen⟩
      rw [dif_pos hin, erase_removeAll, List.append_assoc, ih _ _ hlevel]
      simp [hseen, List.eraseDups_cons, filter_removeAll]

theorem reachedWithin_succ (lib : Library) (k : DeclId) (n : Nat) :
    lib.reachedWithin k (n + 1) = lib.reachedWithin k n ++ lib.reachedOver k n := by
  simp [reachedWithin, List.range_succ]

/-- What is reached over `n` bases and not over fewer. -/
def newAt (lib : Library) (k : DeclId) (n : Nat) : List DeclId :=
  ((lib.reachedOver k n).removeAll (lib.reachedWithin k n)).eraseDups

/-- What the walk has still to meet when it has met all that is reached over `n` bases. -/
def metBeyond (lib : Library) (k : DeclId) (n : Nat) : List DeclId :=
  lib.ancestorsAmong (lib.tree.ids.removeAll (lib.reachedWithin k (n + 1)))
    ((lib.newAt k n).flatMap lib.tree.superclasses)

/-- The bases of what was reached by a shorter way were reached before. -/
theorem eraseDups_removeAll_newAt (lib : Library) (k : DeclId) (n : Nat) :
    (((lib.newAt k n).flatMap lib.tree.superclasses).removeAll
      (lib.reachedWithin k (n + 1))).eraseDups = lib.newAt k (n + 1) := by
  have hold : ∀ c ∈ lib.reachedOver k n, (!(lib.reachedWithin k n).elem c) = false →
      (lib.tree.superclasses c).removeAll (lib.reachedWithin k (n + 1)) = [] := by
    intro c _ hseen
    have hc : c ∈ lib.reachedWithin k n := by simpa using hseen
    refine removeAll_eq_nil fun b hb => ?_
    obtain ⟨i, hi, hci⟩ := List.mem_flatMap.mp hc
    refine List.mem_flatMap.mpr ⟨i + 1, ?_, List.mem_flatMap.mpr ⟨c, hci, hb⟩⟩
    rw [List.mem_range] at hi ⊢
    omega
  rw [newAt, newAt, removeAll_flatMap, eraseDups_flatMap_eraseDups, List.removeAll,
    flatMap_filter_of_nil hold, ← removeAll_flatMap, reachedOver]

theorem metBeyond_eq (lib : Library) (k : DeclId) (n : Nat) :
    lib.metBeyond k n = lib.newAt k (n + 1) ++ lib.metBeyond k (n + 1) := by
  have hbases : (lib.newAt k n).flatMap lib.tree.superclasses ⊆ lib.tree.ids := by
    intro b hb
    obtain ⟨c, -, hb⟩ := List.mem_flatMap.mp hb
    exact lib.superclasses_subset_ids c hb
  have hlevel := lib.ancestorsAmong_level (lib.reachedWithin k (n + 1)) [] hbases
  rw [List.append_nil, List.nil_append, eraseDups_removeAll_newAt] at hlevel
  have hseen : lib.tree.ids.removeAll (lib.reachedWithin k (n + 1) ++
        (lib.newAt k n).flatMap lib.tree.superclasses) =
      lib.tree.ids.removeAll (lib.reachedWithin k (n + 1 + 1)) := by
    refine removeAll_congr fun b => ?_
    have hnew := congrArg (b ∈ ·) (lib.eraseDups_removeAll_newAt k n)
    simp only [newAt, List.mem_eraseDups, mem_removeAll, eq_iff_iff] at hnew
    rw [lib.reachedWithin_succ k (n + 1), List.mem_append, List.mem_append]
    by_cases hb : b ∈ lib.reachedWithin k (n + 1)
    · simp only [hb, true_or]
    · simpa [hb, newAt, List.mem_flatMap] using hnew
  rw [metBeyond, hlevel, hseen, metBeyond]

/-- The walk meets what is reached over up to `n` bases in breadth-first order. -/
theorem walk_eq_append (lib : Library) (k : DeclId) (n : Nat) :
    k :: lib.ancestors k = (lib.reachedWithin k (n + 1)).eraseDups ++ lib.metBeyond k n := by
  induction n with
  | zero =>
    have hstart := lib.erase_removeAll [] k
    rw [List.removeAll_nil, List.nil_append] at hstart
    rw [ancestors, hstart]
    simp [reachedWithin, reachedOver, metBeyond, newAt, List.eraseDups_cons]
  | succ n ih =>
    rw [ih, metBeyond_eq, lib.reachedWithin_succ k (n + 1), List.eraseDups_append,
      List.append_assoc, newAt]

/-- As long as something is left to meet, each level has added a class. -/
theorem lt_length_of_metBeyond_ne_nil {n : Nat} (h : lib.metBeyond k n ≠ []) :
    n < (lib.reachedWithin k (n + 1)).eraseDups.length := by
  induction n with
  | zero => simp [reachedWithin, reachedOver, List.eraseDups_cons]
  | succ n ih =>
    have hnew : lib.newAt k (n + 1) ≠ [] := by
      intro hnone
      rw [metBeyond, hnone, List.flatMap_nil, ancestorsAmong] at h
      exact h rfl
    have hbefore := ih (by rw [metBeyond_eq]; exact List.append_ne_nil_of_left_ne_nil hnew _)
    have hpos := List.length_pos_of_ne_nil hnew
    rw [lib.reachedWithin_succ k (n + 1), List.eraseDups_append, List.length_append]
    rw [newAt] at hpos
    omega

/-- **The walk through the ancestors of a class is in breadth-first order.** -/
theorem walk_eq_breadthFirst (lib : Library) (k : DeclId) :
    k :: lib.ancestors k = lib.breadthFirst k := by
  have hsplit := lib.walk_eq_append k lib.tree.size
  suffices hnone : lib.metBeyond k lib.tree.size = [] by
    rw [hsplit, hnone, List.append_nil, breadthFirst]
  by_contra hmore
  -- The walk would be longer than there are classes to meet.
  have hlength := congrArg List.length hsplit
  rw [List.length_append, List.length_cons] at hlength
  have hbound : (lib.ancestors k).length ≤ lib.tree.size := by
    have hsub : lib.ancestors k ⊆ lib.tree.ids :=
      List.Subset.trans (ancestorsAmong_subset _ _) List.erase_subset
    have hle := (List.Nodup.subperm (lib.ancestors_nodup k) hsub).length_le
    rwa [DeclTree.ids, List.length_range] at hle
  have hmet := lt_length_of_metBeyond_ne_nil hmore
  have hpos := List.length_pos_of_ne_nil hmore
  omega

/-! ## The search -/

/-- Where a search for the virtual methods of a class stands. -/
structure Search where
  visited : List DeclId
  /-- The classes that are to be taken up, some of them again. -/
  pending : List DeclId
  /-- The names of the methods that the visited classes declare. -/
  implemented : List String
  /-- The methods that were found, with their Ruby names. -/
  found : List Named

/-- The names of the methods that a class declares. -/
def declaredNames (lib : Library) (c : DeclId) : List String :=
  (lib.methods c).map fun m => (lib.tree.get m).name

/-- The pure virtual methods of a class whose names are not implemented. -/
def openMethods (lib : Library) (implemented : List String) (c : DeclId) : List Named :=
  lib.withNames ((lib.methods c).filter fun m =>
    (lib.tree.get m).kind.isPureVirtual && !implemented.contains (lib.tree.get m).name)

/-- A search starts with what the class itself declares. -/
def startSearch (lib : Library) (k : DeclId) : Search :=
  ⟨[k], lib.tree.superclasses k, lib.declaredNames k, lib.ownVirtuals k⟩

/-- One turn of a search: the class that has been pending longest is taken up, unless it was visited
before. -/
def turn (lib : Library) (s : Search) : Option Search :=
  match s.pending with
  | [] => none
  | c :: rest =>
    if c ∈ s.visited then some { s with pending := rest }
    else some ⟨s.visited ++ [c], rest ++ lib.tree.superclasses c,
      s.implemented ++ lib.declaredNames c, s.found ++ lib.openMethods s.implemented c⟩

theorem superclasses_of_not_mem_ids (hc : c ∉ lib.tree.ids) : lib.tree.superclasses c = [] := by
  have hsize : lib.tree.size ≤ c := Nat.le_of_not_lt fun hlt => hc (List.mem_range.mpr hlt)
  rw [DeclTree.superclasses, DeclTree.get_of_size_le hsize]
  rfl

/-- What a search has before it: the classes that it did not visit, and those that are pending. -/
def Search.measure (lib : Library) (s : Search) : Nat × Nat :=
  ((lib.tree.ids.removeAll s.visited).length, s.pending.length)

theorem measure_of_turn {s s' : Search} (h : lib.turn s = some s') :
    Prod.Lex (· < ·) (· < ·) (s'.measure lib) (s.measure lib) := by
  obtain ⟨visited, pending, implemented, found⟩ := s
  cases pending with
  | nil => cases h
  | cons c rest =>
    simp only [turn] at h
    split at h
    next hseen =>
      cases h
      exact .right _ (Nat.lt_succ_self _)
    next hseen =>
      cases h
      simp only [Search.measure, ← lib.erase_removeAll visited c]
      by_cases hc : c ∈ lib.tree.ids
      · have hin : c ∈ lib.tree.ids.removeAll visited := mem_removeAll.mpr ⟨hc, hseen⟩
        have hpos := List.length_pos_of_mem hin
        rw [List.length_erase_of_mem hin]
        exact .left _ _ (by omega)
      · -- What is not in the tree has no bases.
        have hout : c ∉ lib.tree.ids.removeAll visited := fun hin => hc (mem_removeAll.mp hin).1
        rw [List.erase_of_not_mem hout, superclasses_of_not_mem_ids hc, List.append_nil]
        exact .right _ (Nat.lt_succ_self _)

/-- **Every search ends.** -/
theorem turn_wellFounded (lib : Library) : WellFounded fun s' s => lib.turn s = some s' :=
  Subrelation.wf measure_of_turn
    (InvImage.wf (Search.measure lib) (WellFounded.prod_lex Nat.lt_wfRel.wf Nat.lt_wfRel.wf))

theorem pureVirtuals_cons (lib : Library) (implemented : List String) (c : DeclId)
    (cs : List DeclId) :
    lib.pureVirtuals implemented (c :: cs) =
      lib.openMethods implemented c ++
        lib.pureVirtuals (implemented ++ lib.declaredNames c) cs := by
  rw [pureVirtuals, filterMap_named]
  rfl

/-- A search visits what the walk through the ancestors meets, and finds the pure virtual methods
that are open then. -/
theorem search_ancestorsAmong (lib : Library) (visited : List DeclId) {pending : List DeclId}
    (hpending : pending ⊆ lib.tree.ids) (implemented : List String) (found : List Named) :
    let met := lib.ancestorsAmong (lib.tree.ids.removeAll visited) pending
    ReflTransGen (fun s s' => lib.turn s = some s') ⟨visited, pending, implemented, found⟩
      ⟨visited ++ met, [], implemented ++ met.flatMap lib.declaredNames,
        found ++ lib.pureVirtuals implemented met⟩ := by
  generalize hunseen : lib.tree.ids.removeAll visited = unseen
  fun_induction lib.ancestorsAmong unseen pending generalizing visited implemented found with
  | case1 unseen => simpa [pureVirtuals] using ReflTransGen.refl
  | case2 unseen c rest hc ih =>
    have hout : c ∉ visited := (mem_removeAll.mp (hunseen ▸ hc)).2
    have hrest := List.append_subset.mpr
      ⟨(List.cons_subset.mp hpending).2, lib.superclasses_subset_ids c⟩
    have hlater := ih (visited ++ [c]) hrest (implemented ++ lib.declaredNames c)
      (found ++ lib.openMethods implemented c) (by rw [← hunseen, erase_removeAll])
    refine ReflTransGen.head (if_neg hout) ?_
    simpa [pureVirtuals_cons] using hlater
  | case3 unseen c rest hc ih =>
    have hin : c ∈ visited := by
      by_contra hout
      exact hc (hunseen ▸ mem_removeAll.mpr ⟨hpending List.mem_cons_self, hout⟩)
    refine ReflTransGen.head (if_pos hin) ?_
    exact ih visited (List.cons_subset.mp hpending).2 implemented found hunseen

/-! ## The result -/

instance (lib : Library) (c : DeclId) (name : String) : Decidable (lib.Declares c name) :=
  inferInstanceAs (Decidable (∃ m ∈ lib.methods c, (lib.tree.get m).name = name))

/-- The first class in breadth-first order that declares a method of a name. -/
def firstDeclaring? (lib : Library) (k : DeclId) (name : String) : Option DeclId :=
  (lib.breadthFirst k).find? fun c => lib.Declares c name

/-- What is found of a class and its ancestors, and how. -/
structure FindsVirtuals (lib : Library) (k : DeclId) : Prop where
  /-- Every search ends, whatever it starts with. -/
  ends : WellFounded fun s' s => lib.turn s = some s'
  /-- The search for the virtual methods of the class takes up the class and its ancestors in
  breadth-first order, and ends with the methods that are listed. -/
  reaches : ∃ s, ReflTransGen (fun s s' => lib.turn s = some s') (lib.startSearch k) s ∧
    lib.turn s = none ∧ s.visited = lib.breadthFirst k ∧
    s.found = (lib.virtuals k).map fun v => (v.method, v.ruby)
  methods_nodup : ((lib.virtuals k).map Virtual.method).Nodup
  fallbacks_nodup : ((lib.virtuals k).map Virtual.fallback).Nodup
  own_first : ∃ own inherited, lib.virtuals k = own ++ inherited ∧
    (∀ v ∈ own, v.isInherited = false ∧ v.method ∈ lib.methods k) ∧
    ∀ v ∈ inherited, v.isInherited = true
  /-- What is inherited comes from the first ancestor that declares a method of its name, and the
  class itself does not. -/
  inherited : ∀ v ∈ lib.virtuals k, v.isInherited →
    (lib.tree.get v.method).kind.isPureVirtual ∧
      ¬ lib.Declares k (lib.tree.get v.method).name ∧
      ∃ a, lib.HasAncestor k a ∧ v.method ∈ lib.methods a ∧
        lib.firstDeclaring? k (lib.tree.get v.method).name = some a

theorem search_virtuals (lib : Library) (k : DeclId) :
    ∃ s, ReflTransGen (fun s s' => lib.turn s = some s') (lib.startSearch k) s ∧
      lib.turn s = none ∧ s.visited = lib.breadthFirst k ∧
      s.found = (lib.virtuals k).map fun v => (v.method, v.ruby) := by
  have hrun := lib.search_ancestorsAmong [k] (lib.superclasses_subset_ids k) (lib.declaredNames k)
    (lib.ownVirtuals k)
  have hstart := lib.erase_removeAll [] k
  rw [List.removeAll_nil, List.nil_append] at hstart
  rw [← hstart] at hrun
  refine ⟨_, hrun, rfl, lib.walk_eq_breadthFirst k, ?_⟩
  have hlisted := congrArg (List.map Prod.fst) (lib.map_virtuals k)
  simp only [List.map_map, List.map_append, Function.comp_def, List.map_id'] at hlisted
  exact hlisted.symm

theorem virtuals_own_first (lib : Library) (k : DeclId) :
    ∃ own inherited, lib.virtuals k = own ++ inherited ∧
      (∀ v ∈ own, v.isInherited = false ∧ v.method ∈ lib.methods k) ∧
      ∀ v ∈ inherited, v.isInherited = true := by
  obtain ⟨own, inherited, hsplit, hown, hinherited⟩ :=
    List.map_eq_append_iff.mp (lib.map_virtuals k)
  refine ⟨own, inherited, hsplit, fun v hv => ?_, fun v hv => ?_⟩
  · have hmem : ((v.method, v.ruby), v.isInherited) ∈ (lib.ownVirtuals k).map (·, false) :=
      hown ▸ List.mem_map_of_mem hv
    obtain ⟨e, he, heq⟩ := List.mem_map.mp hmem
    obtain ⟨rfl, hfalse⟩ := Prod.mk.inj heq
    exact ⟨hfalse.symm, mem_methods_of_mem_ownVirtuals he⟩
  · have hmem : ((v.method, v.ruby), v.isInherited) ∈ (lib.pureVirtuals
        (lib.declaredNames k) (lib.ancestors k)).map (·, true) :=
      hinherited ▸ List.mem_map_of_mem hv
    obtain ⟨e, -, heq⟩ := List.mem_map.mp hmem
    exact (Prod.mk.inj heq).2.symm

/-- **What virtual methods are found**, for every class of a well-formed tree, however classes
inherit from each other and whatever was said about the library. -/
theorem findsVirtuals (hw : lib.tree.WellFormed) (k : DeclId) : lib.FindsVirtuals k where
  ends := lib.turn_wellFounded
  reaches := lib.search_virtuals k
  methods_nodup := lib.overridden_nodup hw k
  fallbacks_nodup := lib.fallbacks_nodup k
  own_first := lib.virtuals_own_first k
  inherited := by
    intro v hv hinherited
    obtain ⟨a, ha, hm, hpure, -, hbefore⟩ := overridesInherited_iff.mp ⟨v, hv, rfl, hinherited⟩
    obtain ⟨before, after, hsplit, hk, hfirst⟩ := (forall_before_iff ha).mpr hbefore
    refine ⟨hpure, hk, a, (mem_ancestors_iff.mp ha).2, hm, ?_⟩
    rw [firstDeclaring?, ← walk_eq_breadthFirst, List.find?_eq_some_iff_append]
    refine ⟨decide_eq_true ⟨v.method, hm, rfl⟩, k :: before, after, ?_, ?_⟩
    · rw [hsplit, List.cons_append]
    · intro x hx
      have hnot : ¬ lib.Declares x (lib.tree.get v.method).name := by
        rcases List.mem_cons.mp hx with rfl | hx
        exacts [hk, hfirst x hx]
      simpa using hnot

/-- A port, which can be read from and written to: both come from a stream, and a stream is a port
again. -/
def portTree : DeclTree :=
  let pureVirtual : MethodFlags := { isVirtual := true, isPure := true }
  let base := fun name : String => (⟨name, .pub, false⟩ : Base)
  let t := (DeclTree.empty.add DeclTree.root "Stream" (.record false [base "Port"])).2
  let t := (t.add 1 "close" (.method .void [] pureVirtual)).2
  let t := (t.add 1 "flush" (.method .void [] pureVirtual)).2
  let t := (t.add DeclTree.root "Reader" (.record false [base "Stream"])).2
  let t := (t.add 4 "read" (.method .void [] pureVirtual)).2
  let t := (t.add DeclTree.root "Writer" (.record false [base "Stream"])).2
  let t := (t.add 6 "flush" (.method .void [] pureVirtual)).2
  let t := (t.add 6 "flush" (.method .bool [⟨none, .bool⟩] pureVirtual)).2
  let t := (t.add DeclTree.root "Port" (.record false [base "Reader", base "Writer"])).2
  (t.add 9 "open" (.method .void [] { isVirtual := true })).2

theorem portTree_built : portTree.Built := by
  refine .add (.add (.add (.add (.add (.add (.add (.add (.add (.add .empty ?_ _ _) ?_ _ _) ?_ _ _)
    ?_ _ _) ?_ _ _) ?_ _ _) ?_ _ _) ?_ _ _) ?_ _ _) ?_ _ _ <;> decide

/-- The methods keep their names in Ruby. -/
def portLibrary : Library :=
  (ofTree portTree).edits ([2, 3, 5, 7, 8, 10].map fun m => .rename m (portTree.get m).name)

/-- The writer comes before the stream, so both of its methods are found and the stream's method of
that name is not. -/
theorem findsVirtuals_port :
    portLibrary.tree.WellFormed ∧ portLibrary.FindsVirtuals 9 ∧
      portLibrary.breadthFirst 9 = [9, 4, 6, 1] ∧
      (portLibrary.virtuals 9).map (fun v => (v.method, v.fallback)) =
        [(10, "default_open"), (5, "default_read"), (7, "default_flush"), (8, "default_flush_1"),
          (2, "default_close")] := by
  have hw : portLibrary.tree.WellFormed := by
    rw [portLibrary, edits_tree]
    exact portTree_built.wellFormed
  refine ⟨hw, findsVirtuals hw 9, ?_, ?_⟩
  · rw [← walk_eq_breadthFirst]
    cbv
  · cbv

end RubyBinding.Library
