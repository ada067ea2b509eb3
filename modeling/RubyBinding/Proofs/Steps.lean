import RubyBinding.Proofs.Emission
import RubyBinding.Proofs.Names
import RubyBinding.Proofs.Plans
import RubyBinding.Proofs.Runs

/-!
# What the steps of the planner yield

For each step of the planner that is not the walk itself: what it adds to a draft. A member of a
class is wrapped, and nothing else is (`bindMethod_yields`, `bindField_yields`); what is nested
contributes its plan, or at most its wrapper (`Contributes`); a class or a namespace becomes a
region with the plans for what it holds (`classPlan_yields`, `namespacePlan_yields`). The planning
of what is nested is a parameter, `nested`, so that none of this depends on how the walk ends.
-/

namespace RubyBinding

open Code (Statement Definition Place)

/-- Whether a run was stopped because it would not have ended. -/
def GenError.isLoop : GenError → Bool
  | ownershipCycle _ => true
  | _ => false

/-- Sessions in which certain namespaces, and no others, have modules of their own. -/
def Claims (claimed : List DeclId) (s : Session) : Prop := ∀ ns, ns ∈ s.claimed ↔ ns ∈ claimed

/-! ## What single steps contribute -/

theorem freshName_yields (claimed : List DeclId) (base : String) :
    Run.Yields (Claims claimed) (freshName base) fun _ => True := by
  intro s hs
  exact ⟨trivial, hs⟩

namespace Setting

variable {g : Setting} {claimed : List DeclId} {E : GenError → Prop}

theorem claims_need {s : Session} (h : Claims claimed s) (c : Option Converter) :
    Claims claimed (s.need c) := by
  cases c with
  | none => exact h
  | some c => exact h

theorem resolveParam_yields (scope : DeclId) (t : Ty) :
    Run.Yields (Claims claimed) (g.resolveParam scope t) fun _ => True := by
  intro s hs
  exact ⟨trivial, claims_need hs _⟩

theorem resolveResult_yields (scope : DeclId) (t : Ty) :
    Run.Yields (Claims claimed) (g.resolveResult scope t) fun _ => True := by
  intro s hs
  exact ⟨trivial, claims_need hs _⟩

theorem slots_yields (scope : DeclId) (params : List (Param × Nat)) :
    Run.Yields (Claims claimed) (g.slots scope params) fun _ => True := by
  refine .mono (.mapM_all (R := fun _ => True) params ?_) fun _ _ => trivial
  rintro ⟨p, k⟩ -
  exact .bind (resolveParam_yields scope p.ty) fun _ _ => .pure trivial

theorem result_yields (scope : DeclId) (t : Option Ty) :
    Run.Yields (Claims claimed) (g.result scope t) fun _ => True := by
  cases t with
  | none => exact .pure trivial
  | some t => exact resolveResult_yields scope t

theorem forwardPlain_yields (i : DeclId) (receiver : Receiver) :
    Run.Yields (Claims claimed) (g.forwardPlain i receiver)
      fun f => f.definitions.filterMap Definition.wraps? = [i] := by
  refine .bind (result_yields _ _) fun _ _ => ?_
  refine .bind (freshName_yields _ _) fun _ _ => ?_
  refine .bind (slots_yields _ _) fun _ _ => ?_
  exact .pure rfl

theorem forwardCallback_yields (i : DeclId) (receiver : Receiver) (signature : Ty × List Ty) :
    Run.Yields (Claims claimed) (g.forwardCallback i receiver signature)
      fun f => f.definitions.filterMap Definition.wraps? = [i] := by
  refine .bind (freshName_yields _ _) fun _ _ => ?_
  -- The function that calls the block wraps nothing; the one that takes it wraps `i`.
  cases receiver with
  | ignored => exact .pure rfl
  | object cpp => exact .pure rfl
  | argument cpp => exact .pure rfl

/-- A function is forwarded to once. -/
theorem forward_yields (hE : ∀ e, e.isLoop = false → E e) (i : DeclId) (receiver : Receiver) :
    Gen.Yields (Claims claimed) (g.forward i receiver)
      (fun f => f.definitions.filterMap Definition.wraps? = [i]) E := by
  rw [forward_eq]
  unfold forwarder
  dsimp only
  split
  · exact .throw (hE _ rfl)
  · exact .lift (forwardPlain_yields i receiver)
  · split
    · exact .throw (hE _ rfl)
    · exact .lift (forwardCallback_yields i receiver _)

theorem bindForward_yields (hE : ∀ e, e.isLoop = false → E e) (i : DeclId) (receiver : Receiver)
    (place : Place) (ruby : String) :
    Gen.Yields (Claims claimed) (g.bindForward i receiver place ruby)
      (fun d => d.parts = [] ∧ d.wrapped = [i]) E :=
  .bind (forward_yields hE i receiver) fun _ hf => .pure ⟨rfl, hf⟩

/-! ## Members of a class -/

/-- A draft that makes available some members of a class that are no functions, and nothing else. -/
def BindsMembers (g : Setting) (members : List DeclId) (d : Draft) : Prop :=
  d.parts = [] ∧
    ∀ f ∈ d.wrapped, f ∈ members ∧ (g.library.tree.get f).kind.isFunction = false

theorem BindsMembers.empty (members : List DeclId) : BindsMembers g members {} :=
  ⟨rfl, fun _ h => nomatch h⟩

theorem bindMethod_yields (hE : ∀ e, e.isLoop = false → E e) (c : Target)
    (director : Option (String × List Virtual)) (m : Named) {members : List DeclId}
    (hm : m.1 ∈ members) :
    Gen.Yields (Claims claimed) (g.bindMethod c director m) (BindsMembers g members) E := by
  have bound : ∀ receiver place, (g.library.tree.get m.1).kind.isFunction = false →
      Gen.Yields (Claims claimed) (g.bindForward m.1 receiver place m.2)
        (BindsMembers g members) E := by
    intro receiver place hkind
    refine .mono (bindForward_yields hE m.1 receiver place m.2) ?_ fun _ h => h
    rintro d ⟨hparts, hwrapped⟩
    refine ⟨hparts, ?_⟩
    intro f hf
    rw [hwrapped] at hf
    rw [List.mem_singleton.mp hf]
    exact ⟨hm, hkind⟩
  unfold bindMethod
  split
  · next hkind =>
    have hkind' : (g.library.tree.get m.1).kind.isFunction = false := by rw [hkind]; rfl
    split
    · split
      · exact .pure ⟨rfl, fun _ h => nomatch h⟩
      · exact .pure (.empty members)
    · split
      · exact bound _ _ hkind'
      · exact bound _ _ hkind'
  · exact .pure (.empty members)

theorem access_yields (i : DeclId) (cpp : String) (ty : Ty) (isStatic isConst : Bool) :
    Run.Yields (Claims claimed) (g.access i cpp ty isStatic isConst)
      fun a => ∀ f ∈ a.definitions.filterMap Definition.wraps?, f = i := by
  refine .bind (resolveResult_yields _ _) fun ty' _ => ?_
  refine .bind (freshName_yields _ _) fun getter _ => ?_
  dsimp only
  split
  · refine .pure ?_
    intro f hf
    exact List.mem_singleton.mp hf
  · refine .bind (freshName_yields _ _) fun setter _ => .pure ?_
    intro f hf
    have hf' : f ∈ [i, i] := hf
    simpa using hf'

theorem bindField_yields (c : Target) (f : Named) {members : List DeclId} (hf : f.1 ∈ members) :
    Run.Yields (Claims claimed) (g.bindField c f) (BindsMembers g members) := by
  unfold bindField accessors
  refine .bind (Q := fun a => ∀ x, a = some x →
    ∀ j ∈ x.definitions.filterMap Definition.wraps?,
      j = f.1 ∧ (g.library.tree.get j).kind.isFunction = false) ?_ ?_
  · split
    · next hkind =>
      split
      · exact .pure fun _ h => nomatch h
      · refine .bind (access_yields _ _ _ _ _) fun a ha => .pure ?_
        intro x hx j hj
        cases hx
        have hjf := ha j hj
        refine ⟨hjf, ?_⟩
        rw [hjf, hkind]
        rfl
    · exact .pure fun _ h => nomatch h
  · intro a ha
    cases a with
    | none => exact .pure (.empty members)
    | some x =>
      refine .pure ⟨rfl, ?_⟩
      intro j hj
      obtain ⟨hjf, hkind⟩ := ha x rfl j hj
      exact ⟨hjf ▸ hf, hkind⟩

theorem bindCtor_yields (c : Target) (ctor : Option (List Param)) :
    Run.Yields (Claims claimed) (g.bindCtor c ctor) fun d => d.parts = [] ∧ d.wrapped = [] := by
  cases ctor with
  | none => exact .pure ⟨rfl, rfl⟩
  | some params =>
    refine .bind (.mapM_all (R := fun _ => True) params ?_) fun _ _ => .pure ⟨rfl, rfl⟩
    exact fun p _ => resolveParam_yields _ _

theorem directorPlan_yields (name : String) (i : DeclId) (cpp handle : String)
    (ctor : Option (List Param)) (virtuals : List Virtual) :
    Run.Yields (Claims claimed) (g.directorPlan name i cpp handle ctor virtuals) g.IsDirector := by
  have registered : ∀ (director : Code.Director) (construct : List Statement),
      g.IsDirector (Draft.toPlan {
        includes := ["#include <rice/Director.hpp>"]
        definitions := [.director director]
        body := .defineDirector handle name :: construct } name none "") := by
    intro director construct
    refine ⟨_, rfl, rfl, ?_, rfl⟩
    intro handle' cpp' superclass parent ruby hhead
    cases hhead
  unfold directorPlan
  dsimp only
  split
  · exact .bind (Q := fun _ => True) (.pure trivial) fun _ _ => .pure (registered _ _)
  · next params =>
    refine .bind (.mapM_all (R := fun _ => True) params ?_) fun _ _ => ?_
    · exact fun p _ => resolveParam_yields _ _
    · exact .bind (Q := fun _ => True) (.pure trivial) fun _ _ => .pure (registered _ _)

/-! ## What is nested -/

/-- What planning a declaration on its own gives: a plan of a certain kind if the declaration can
have one, else nothing. -/
def PlansAs (g : Setting) (R : DeclId → Plan → Prop) (c : DeclId) (p : Option Plan) : Prop :=
  p.isSome = g.library.isPlannable c ∧ ∀ q, p = some q → R c q

/-- What a held declaration contributes: its plan if it is a part, and its wrapper if it is
offered. -/
structure Contributes (R : DeclId → Plan → Prop) (isPart offers : DeclId → Bool) (c : DeclId)
    (d : Draft) : Prop where
  wrapped : d.wrapped = if offers c then [c] else []
  part : isPart c = true → ∃ p, d.parts = [p] ∧ R c p
  no_parts : isPart c = false → d.parts = []

section Contributions

variable {R : DeclId → Plan → Prop} {isPart offers : DeclId → Bool} {cs : List DeclId}
  {ds : List Draft} {c : DeclId}

/-- Together, the held declarations contribute the plans of those that are parts, in order. -/
theorem forall₂_parts (h : List.Forall₂ (Contributes R isPart offers) cs ds) :
    List.Forall₂ R (cs.filter isPart) (ds.flatMap Draft.parts) := by
  induction h with
  | nil => exact .nil
  | @cons c d cs ds hcd _ ih =>
    rw [List.flatMap_cons]
    cases hpart : isPart c with
    | true =>
      obtain ⟨p, hparts, hR⟩ := hcd.part hpart
      rw [List.filter_cons_of_pos hpart, hparts]
      exact .cons hR ih
    | false =>
      rw [List.filter_cons_of_neg (by simp [hpart]), hcd.no_parts hpart]
      exact ih

/-- Together, the held declarations that are offered are wrapped, each once and in order. -/
theorem flatMap_wrapped (h : List.Forall₂ (Contributes R isPart offers) cs ds) :
    ds.flatMap Draft.wrapped = cs.filter offers := by
  induction h with
  | nil => rfl
  | @cons c d cs ds hcd _ ih =>
    rw [List.flatMap_cons, hcd.wrapped, ih]
    cases hoffers : offers c with
    | true => rw [List.filter_cons_of_pos hoffers]; rfl
    | false => rw [List.filter_cons_of_neg (by simp [hoffers])]; rfl

theorem Contributes.empty (hpart : isPart c = false) (hoffers : offers c = false) :
    Contributes R isPart offers c {} where
  wrapped := by
    rw [hoffers]
    rfl
  part := by
    intro h
    rw [hpart] at h
    cases h
  no_parts := fun _ => rfl

theorem Contributes.wrapper {d : Draft} (hpart : isPart c = false) (hoffers : offers c = true)
    (hparts : d.parts = []) (hwrapped : d.wrapped = [c]) : Contributes R isPart offers c d where
  wrapped := by
    rw [hoffers, hwrapped]
    rfl
  part := by
    intro h
    rw [hpart] at h
    cases h
  no_parts := fun _ => hparts

/-- What has a plan exactly if it is a part contributes that plan. -/
theorem Contributes.ofPlan {p : Option Plan} (h : PlansAs g R c p)
    (hpart : isPart c = g.library.isPlannable c) (hoffers : offers c = false) :
    Contributes R isPart offers c { parts := p.toList } := by
  obtain ⟨hsome, hR⟩ := h
  rw [← hpart] at hsome
  refine ⟨?_, ?_, ?_⟩
  · rw [hoffers]
    rfl
  · intro hpart
    rw [hpart] at hsome
    obtain ⟨q, rfl⟩ := Option.isSome_iff_exists.mp hsome
    exact ⟨q, rfl, hR q rfl⟩
  · intro hpart
    rw [hpart] at hsome
    rw [Option.isSome_eq_false_iff, Option.isNone_iff_eq_none] at hsome
    rw [hsome]
    rfl

end Contributions

/-! ## Names of members -/

theorem map_fst_withNames (is : List DeclId) :
    (g.library.withNames is).map Prod.fst =
      is.filter fun i => (g.library.memberName? i).isSome := by
  induction is with
  | nil => rfl
  | cons i is ih =>
    rw [Library.withNames, List.filterMap_cons, List.filter_cons]
    cases hname : g.library.memberName? i with
    | none => exact ih
    | some ruby => exact congrArg (i :: ·) ih

/-- Whatever names they get, it is those with a Ruby name that are bound. -/
theorem map_fst_distinct (fresh : Fresh) (is : List DeclId) :
    (Library.distinct fresh (g.library.withNames is)).1.map Prod.fst =
      is.filter fun i => (g.library.memberName? i).isSome := by
  rw [← map_fst_withNames, Library.distinct]
  refine List.map_fst_zip (Nat.le_of_eq ?_)
  rw [Fresh.length_pickAll, List.length_map, List.length_map]

/-- The names are drawn one after the other. -/
theorem map_snd_distinct (fresh : Fresh) (wanted : List Named) :
    (Library.distinct fresh wanted).1.map Prod.snd = (fresh.pickAll (wanted.map Prod.snd)).1 := by
  refine List.map_snd_zip (Nat.le_of_eq ?_)
  rw [Fresh.length_pickAll, List.length_map, List.length_map]

theorem mem_of_mem_distinct {fresh : Fresh} {is : List DeclId} {m : Named}
    (h : m ∈ (Library.distinct fresh (g.library.withNames is)).1) : m.1 ∈ is := by
  have hm := List.mem_map_of_mem (f := Prod.fst) h
  rw [map_fst_distinct] at hm
  exact (List.mem_filter.mp hm).1

theorem isSome_lookup_distinct (fresh : Fresh) {is : List DeclId} {i : DeclId} :
    ((Library.distinct fresh (g.library.withNames is)).1.lookup i).isSome =
      (is.contains i && (g.library.memberName? i).isSome) := by
  rw [Bool.eq_iff_iff, List.lookup_isSome_iff, Bool.and_eq_true, List.contains_iff_mem,
    ← List.mem_filter (p := fun i => (g.library.memberName? i).isSome),
    ← map_fst_distinct fresh is, List.mem_map]
  refine exists_congr fun p => and_congr_right fun _ => ?_
  rw [beq_iff_eq]
  exact eq_comm

/-! ## Classes -/

section Held

variable {R : DeclId → Plan → Prop} {nested : Nested} {i : DeclId}

theorem bindAdopted_yields (hE : ∀ e, e.isLoop = false → E e) (c : Target) (m : Named) :
    Gen.Yields (Claims claimed) (g.bindAdopted c m) (fun d => d.parts = [] ∧ d.wrapped = [m.1])
      E := by
  unfold bindAdopted
  dsimp only
  exact .bind (bindForward_yields hE _ _ _ _) fun _ hd => .pure hd

/-- Whether something that is bound in a class is wrapped there: it has no plan, and a name among
what the class adopts. -/
def adopts (g : Setting) (adopted : List Named) (m : DeclId) : Bool :=
  let d := g.library.tree.get m
  !(d.isRecord || d.kind.isEnumeration) && (adopted.lookup m).isSome

theorem bindInside_yields (hE : ∀ e, e.isLoop = false → E e) (c : Target) (adopted : List Named)
    {m : DeclId}
    (hn : ∀ parent, Gen.Yields (Claims claimed) (nested parent m) (PlansAs g R m) E) :
    Gen.Yields (Claims claimed) (g.bindInside nested c adopted m)
      (Contributes R (g.isPart claimed false) (g.adopts adopted) m) E := by
  unfold bindInside
  dsimp only
  split
  · next hkind =>
    have hkind' : ((g.library.tree.get m).isRecord || (g.library.tree.get m).kind.isEnumeration) =
        true := hkind
    refine .bind (hn _) fun p hp => .pure (.ofPlan hp ?_ ?_)
    · simp only [isPart, Library.isPlannable, hkind', Bool.true_or]
    · simp only [adopts, hkind', Bool.not_true, Bool.false_and]
  · next hkind =>
    have hkind' : ((g.library.tree.get m).isRecord || (g.library.tree.get m).kind.isEnumeration) =
        false := Bool.eq_false_iff.mpr hkind
    have hpart : g.isPart claimed false m = false := by
      simp only [isPart, hkind', Bool.and_false, Bool.false_and, Bool.or_self]
    split
    · next ruby hname =>
      have hoffers : g.adopts adopted m = true := by
        simp only [adopts, hkind', hname, Option.isSome_some, Bool.not_false, Bool.and_self]
      exact .mono (bindAdopted_yields hE c _) (fun d hd => .wrapper hpart hoffers hd.1 hd.2)
        fun _ h => h
    · next hname =>
      refine .pure (.empty hpart ?_)
      simp only [adopts, hname, Option.isSome_none, Bool.and_false]

/-- The region of a declaration with the plans for what it holds, of a kind that `R` says, and with
directors in front of them. -/
def HolderPlan (g : Setting) (claimed : List DeclId) (R : DeclId → Plan → Prop) (i : DeclId)
    (p : Plan) : Prop :=
  ∃ r directors parts, p = .region r (directors ++ parts) ∧ g.RegionFor i r ∧
    (∀ d ∈ directors, g.IsDirector d) ∧ List.Forall₂ R (g.planned claimed i) parts

theorem mem_exposed_of_mem_methods {m : Named} (h : m ∈ (g.library.members i).methods) :
    m.1 ∈ g.library.exposed i :=
  (List.mem_filter.mp (mem_of_mem_distinct h)).1

theorem mem_of_mem_methods {m : Named} (h : m ∈ (g.library.members i).methods) :
    m.1 ∈ g.library.bound i :=
  List.mem_append_left _ (mem_exposed_of_mem_methods h)

theorem mem_of_mem_fields {m : Named} (h : m ∈ (g.library.members i).fields) :
    m.1 ∈ g.library.bound i := by
  have hm := (List.mem_filter.mp (mem_of_mem_distinct h)).1
  exact List.mem_append_left _ hm

/-- What is said about the drafts that a class is put together from: its constructor's, its
methods', its fields' and those of what is nested in it. -/
structure ClassDrafts (g : Setting) (claimed : List DeclId) (R : DeclId → Plan → Prop) (i : DeclId)
    (construct : Draft) (methods fields inside : List Draft) : Prop where
  construct_wrapped : construct.wrapped = []
  construct_parts : ∀ d ∈ construct.parts, g.IsDirector d
  methods : ∀ d ∈ methods, BindsMembers g (g.library.bound i) d
  fields : ∀ d ∈ fields, BindsMembers g (g.library.bound i) d
  inside : List.Forall₂
    (Contributes R (g.isPart claimed false) (g.adopts (g.library.members i).adopted))
    (g.library.bound i) inside

namespace BindsMembers

variable {members : List DeclId} {ds : List Draft}

theorem flatMap_parts (h : ∀ d ∈ ds, BindsMembers g members d) : ds.flatMap Draft.parts = [] := by
  rw [List.flatMap_eq_nil_iff]
  intro d hd
  exact (h d hd).1

theorem mem_flatMap_wrapped (h : ∀ d ∈ ds, BindsMembers g members d) {f : DeclId}
    (hf : f ∈ ds.flatMap Draft.wrapped) :
    f ∈ members ∧ (g.library.tree.get f).kind.isFunction = false := by
  obtain ⟨d, hd, hfd⟩ := List.mem_flatMap.mp hf
  exact (h d hd).2 f hfd

theorem filter_wrapped (h : ∀ d ∈ ds, BindsMembers g members d) :
    (ds.flatMap Draft.wrapped).filter (fun f => (g.library.tree.get f).kind.isFunction) = [] := by
  rw [List.filter_eq_nil_iff]
  intro f hf
  rw [(mem_flatMap_wrapped h hf).2]
  exact Bool.false_ne_true

end BindsMembers

/-- The functions that a class wraps are those that were moved into it and have a Ruby name. -/
theorem filter_adopts (hi : (g.library.tree.get i).isRecord) :
    ((g.library.bound i).filter (g.adopts (g.library.members i).adopted)).filter
      (fun f => (g.library.tree.get f).kind.isFunction) = g.freeFunctions i := by
  have hlookup : ∀ m, ((g.library.members i).adopted.lookup m).isSome =
      (((g.library.adopted i).filter fun m => (g.library.tree.get m).kind.isFunction ||
        (g.library.tree.get m).kind.isMethod).contains m &&
          (g.library.memberName? m).isSome) := fun m => isSome_lookup_distinct _
  rw [freeFunctions_of_isRecord hi, Library.bound, List.filter_filter, List.filter_append]
  have hexposed : (g.library.exposed i).filter (fun m => (g.library.tree.get m).kind.isFunction &&
      g.adopts (g.library.members i).adopted m) = [] := by
    rw [List.filter_eq_nil_iff]
    intro m hm hadopts
    rw [adopts, hlookup, Bool.and_eq_true, Bool.and_eq_true, Bool.and_eq_true,
      List.contains_iff_mem] at hadopts
    -- What was moved is not exposed.
    have hadopted := (List.mem_filter.mp hadopts.2.2.1).1
    exact Library.not_mem_exposed_of_mem_adopted hadopted hm
  rw [hexposed, List.nil_append]
  refine List.filter_congr fun m hm => ?_
  cases hkind : (g.library.tree.get m).kind with
  | function result params =>
    have hmem : ((g.library.adopted i).filter fun m => (g.library.tree.get m).kind.isFunction ||
        (g.library.tree.get m).kind.isMethod).contains m = true := by
      rw [List.contains_iff_mem, List.mem_filter, hkind]
      exact ⟨hm, rfl⟩
    rw [adopts, hlookup, hmem, Decl.isRecord, hkind]
    rfl
  | _ => rfl

/-- Drafts for a class, with a head that defines it, make a plan of the right kind. -/
theorem ClassDrafts.holderPlan {construct head custom : Draft} {methods fields inside : List Draft}
    (h : ClassDrafts g claimed R i construct methods fields inside)
    (hi : (g.library.tree.get i).isRecord) {superclass : Option DeclId}
    (hs : g.library.superclass? i = .ok superclass) (hparts : head.parts = [])
    (hwrapped : head.wrapped = []) {handle : String} {parent : Option String}
    (hbody : head.body = [.defineClass handle (g.library.classType i)
      (superclass.map g.library.classType) parent (g.library.className i)])
    (hcustomParts : custom.parts = []) (hcustomWrapped : custom.wrapped = []) (name : String) :
    HolderPlan g claimed R i
      ((Draft.join ([head, construct] ++ methods ++ fields ++ inside ++ [custom])).toPlan name
        (some i) handle) := by
  -- Only the constructor's draft and what is nested have parts, and only members wrap something.
  have hcontents := contents_of_isRecord hi
  have hfns := forall₂_parts h.inside
  have hinside := flatMap_wrapped h.inside
  generalize hdraft : Draft.join ([head, construct] ++ methods ++ fields ++ inside ++ [custom]) =
    draft
  have hpartsAll : draft.parts = construct.parts ++ inside.flatMap Draft.parts := by
    rw [← hdraft, Draft.parts_join]
    simp [hparts, hcustomParts, BindsMembers.flatMap_parts h.methods,
      BindsMembers.flatMap_parts h.fields]
  have hwrappedAll : draft.wrapped = methods.flatMap Draft.wrapped ++
      (fields.flatMap Draft.wrapped ++ inside.flatMap Draft.wrapped) := by
    rw [← hdraft, Draft.wrapped_join]
    simp [hwrapped, hcustomWrapped, h.construct_wrapped]
  have hhead : draft.body.head? = some (.defineClass handle (g.library.classType i)
      (superclass.map g.library.classType) parent (g.library.className i)) := by
    rw [← hdraft, List.cons_append, List.cons_append, List.cons_append, List.cons_append,
      Draft.join_cons, Draft.body_append, hbody]
    rfl
  refine ⟨⟨name, some i, handle, draft.includes, draft.definitions, draft.body⟩, construct.parts,
    inside.flatMap Draft.parts, ?_, ?_, h.construct_parts, ?_⟩
  · rw [Draft.toPlan, hpartsAll]
  · refine ⟨rfl, ?_, fun _ => ⟨handle, superclass, parent, hs, hhead⟩, ?_, ?_⟩
    · intro handle' cpp' superclass' parent' ruby' hhead'
      rw [hhead] at hhead'
      cases hhead'
      exact ⟨i, superclass, rfl, hi, hs, rfl, rfl⟩
    · intro f hf
      change f ∈ draft.wrapped at hf
      rw [hcontents]
      rw [hwrappedAll, List.mem_append, List.mem_append] at hf
      rcases hf with hf | hf | hf
      · exact (BindsMembers.mem_flatMap_wrapped h.methods hf).1
      · exact (BindsMembers.mem_flatMap_wrapped h.fields hf).1
      · rw [hinside] at hf
        exact (List.mem_filter.mp hf).1
    · show draft.wrapped.filter _ = _
      rw [hwrappedAll, List.filter_append, List.filter_append,
        BindsMembers.filter_wrapped h.methods, BindsMembers.filter_wrapped h.fields, hinside]
      exact filter_adopts hi
  · rw [planned, hcontents, isNamespace_of_isRecord hi]
    exact hfns

/-- Binding what a class holds, and putting everything together. -/
theorem classMembers_yields (hE : ∀ e, e.isLoop = false → E e)
    (hi : (g.library.tree.get i).isRecord)
    (hn : ∀ c ∈ g.contents i, ∀ parent,
      Gen.Yields (Claims claimed) (nested parent c) (PlansAs g R c) E)
    (c : Target) (director : Option (String × List Virtual)) {construct : Draft}
    (hwrapped : construct.wrapped = []) (hparts : ∀ d ∈ construct.parts, g.IsDirector d)
    {finish : List Draft → List Draft → List Draft → Plan}
    (hfinish : ∀ methods fields inside,
      ClassDrafts g claimed R i construct methods fields inside →
        HolderPlan g claimed R i (finish methods fields inside)) :
    Gen.Yields (Claims claimed)
      (do
        let methods ← (g.library.members i).methods.mapM (g.bindMethod c director)
        let fields ← (g.library.members i).fields.mapM fun f =>
          (liftM (g.bindField c f) : Gen Draft)
        let inside ← (g.library.exposed i ++ g.library.adopted i).mapM
          (g.bindInside nested c (g.library.members i).adopted)
        return finish methods fields inside)
      (HolderPlan g claimed R i) E := by
  refine .bind (.mapM_all (R := BindsMembers g (g.library.bound i)) _ ?_) fun ms hms => ?_
  · intro m hm
    exact bindMethod_yields hE c director m (mem_of_mem_methods hm)
  refine .bind (.mapM_all (R := BindsMembers g (g.library.bound i)) _ ?_) fun fs hfs => ?_
  · intro f hf
    exact .lift (bindField_yields c f (mem_of_mem_fields hf))
  refine .bind (.mapM (R := Contributes R (g.isPart claimed false)
    (g.adopts (g.library.members i).adopted)) _ ?_) fun is his => ?_
  · intro m hm
    refine bindInside_yields hE c _ (hn m ?_)
    rw [contents_of_isRecord hi]
    exact hm
  exact .pure (hfinish ms fs is ⟨hwrapped, hparts, hms, hfs, his⟩)

theorem isLoop_of_superclass? {e : GenError} (h : g.library.superclass? i = .error e) :
    e.isLoop = false := by
  unfold Library.superclass? at h
  split at h
  · cases h
  · cases h
  · cases h
    rfl

theorem filterMap_custom (lines : List String) :
    (lines.map Definition.custom).filterMap Definition.wraps? = [] := by
  induction lines with
  | nil => rfl
  | cons line lines ih => exact ih

theorem classPlan_yields (hE : ∀ e, e.isLoop = false → E e) (parent : Option String)
    (hi : (g.library.tree.get i).isRecord)
    (hn : ∀ c ∈ g.contents i, ∀ parent,
      Gen.Yields (Claims claimed) (nested parent c) (PlansAs g R c) E) :
    Gen.Yields (Claims claimed) (g.classPlan nested parent i) (HolderPlan g claimed R i) E := by
  unfold classPlan
  dsimp only
  refine .bind (.except (Q := fun s => g.library.superclass? i = .ok s) ?_ ?_) ?_
  · intro s hs
    exact hs
  · intro e he
    exact hE e (isLoop_of_superclass? he)
  intro superclass hs
  refine .bind (.lift (freshName_yields claimed _)) fun handle _ => ?_
  split
  · -- Without virtual methods, the class itself is constructed.
    refine .bind (.lift (bindCtor_yields _ _)) fun construct hc => ?_
    refine .bind (Q := fun x => x = (none, construct)) (.pure rfl) ?_
    rintro _ rfl
    refine classMembers_yields hE hi hn _ _ hc.2 ?_ ?_
    · rw [hc.1]
      exact fun _ h => nomatch h
    · intro methods fields inside h
      refine h.holderPlan hi hs rfl rfl rfl rfl ?_ _
      exact filterMap_custom _
  · -- With virtual methods, the class has a director, which is constructed in its place.
    refine .bind (.lift (freshName_yields claimed _)) fun name _ => ?_
    refine .bind (.lift (directorPlan_yields _ _ _ _ _ _)) fun plan hplan => ?_
    refine .bind (Q := fun x => x = (some (name, _), ({ parts := [plan] } : Draft))) (.pure rfl) ?_
    rintro _ rfl
    have hwrapped : ({ parts := [plan] } : Draft).wrapped = [] := rfl
    refine classMembers_yields hE hi hn _ _ hwrapped ?_ ?_
    · intro d hd
      rw [List.mem_singleton.mp hd]
      exact hplan
    · intro methods fields inside h
      refine h.holderPlan hi hs rfl rfl rfl rfl ?_ _
      exact filterMap_custom _

/-! ## Enumerations and namespaces -/

theorem enumPlan_yields (parent : Option String)
    (hi : (g.library.tree.get i).kind.isEnumeration) :
    Run.Yields (Claims claimed) (g.enumPlan parent i)
      fun p => ∃ r, p = .region r [] ∧ g.RegionFor i r := by
  unfold enumPlan
  dsimp only
  split
  · next isScoped values hk =>
    refine .bind (freshName_yields _ _) fun handle _ => .pure ⟨_, rfl, rfl, ?_, ?_, ?_, ?_⟩
    · intro handle' cpp superclass parent' ruby hhead
      cases hhead
    · intro hrecord
      rw [Decl.isRecord, hk] at hrecord
      cases hrecord
    · exact fun _ h => nomatch h
    · rw [freeFunctions]
      simp only [Decl.isNamespace, Decl.isRecord, hk]
      rfl
  · next hkind =>
    cases hk : (g.library.tree.get i).kind with
    | enumeration isScoped values => exact absurd hk (hkind isScoped values)
    | _ => rw [hk] at hi; cases hi

theorem bindHeld_yields (hE : ∀ e, e.isLoop = false → E e) (holder : Holder) (f : Named) :
    Gen.Yields (Claims claimed) (g.bindHeld holder f) (fun d => d.parts = [] ∧ d.wrapped = [f.1])
      E :=
  .bind (bindForward_yields hE _ _ _ _) fun _ hd => .pure hd

/-- Whether something that a namespace binds is wrapped there: it is a function or a method, and has
a name among those of the namespace. -/
def holds (g : Setting) (functions : List Named) (m : DeclId) : Bool :=
  let kind := (g.library.tree.get m).kind
  (kind.isFunction || kind.isMethod) && (functions.lookup m).isSome

theorem isPart_of_isFunction (hm : (g.library.tree.get m).kind.isFunction = true ∨
    (g.library.tree.get m).kind.isMethod = true) : g.isPart claimed true m = false := by
  unfold isPart Decl.isRecord Decl.isNamespace
  cases hk : (g.library.tree.get m).kind <;> simp_all [Kind.isFunction, Kind.isMethod,
    Kind.isRecord, Kind.isEnumeration, Kind.isNamespace]

theorem holds_of_not_isFunction (hfunction : (g.library.tree.get m).kind.isFunction = false)
    (hmethod : (g.library.tree.get m).kind.isMethod = false) (functions : List Named) :
    g.holds functions m = false := by
  simp only [holds, hfunction, hmethod, Bool.or_self, Bool.false_and]

theorem holds_of_unnamed {functions : List Named} (hname : functions.lookup m = none) :
    g.holds functions m = false := by
  simp only [holds, hname, Option.isSome_none, Bool.and_false]

theorem bindItem_yields (hE : ∀ e, e.isLoop = false → E e) (holder : Holder)
    (functions : List Named) {m : DeclId}
    (hn : ∀ parent, Gen.Yields (Claims claimed) (nested parent m) (PlansAs g R m) E) :
    Gen.Yields (Claims claimed) (g.bindItem nested holder functions m)
      (Contributes R (g.isPart claimed true) (g.holds functions) m) E := by
  have named : ∀ ruby, functions.lookup m = some ruby →
      (g.library.tree.get m).kind.isFunction = true ∨
        (g.library.tree.get m).kind.isMethod = true →
      Gen.Yields (Claims claimed) (g.bindHeld holder (m, ruby))
        (Contributes R (g.isPart claimed true) (g.holds functions) m) E := by
    intro ruby hname hkind
    have hoffers : g.holds functions m = true := by
      simp only [holds, Bool.or_eq_true_iff.mpr hkind, hname, Option.isSome_some, Bool.and_self]
    exact .mono (bindHeld_yields hE holder _)
      (fun d hd => .wrapper (isPart_of_isFunction hkind) hoffers hd.1 hd.2) fun _ h => h
  unfold bindItem
  split
  · next hkind =>
    have hfunction : (g.library.tree.get m).kind.isFunction = true := by rw [hkind]; rfl
    split
    · next ruby hname => exact named ruby hname (.inl hfunction)
    · next hname => exact .pure (.empty (isPart_of_isFunction (.inl hfunction)) (holds_of_unnamed hname))
  · next hkind =>
    have hmethod : (g.library.tree.get m).kind.isMethod = true := by rw [hkind]; rfl
    split
    · next ruby hname => exact named ruby hname (.inr hmethod)
    · next hname => exact .pure (.empty (isPart_of_isFunction (.inr hmethod)) (holds_of_unnamed hname))
  · next hkind =>
    refine .bind .getSession fun s hs => ?_
    have hclaimed : s.claimed.contains m = claimed.contains m := by
      rw [Bool.eq_iff_iff, List.contains_iff_mem, List.contains_iff_mem]
      exact hs m
    have hoffers : g.holds functions m = false :=
      holds_of_not_isFunction (by rw [hkind]; rfl) (by rw [hkind]; rfl) _
    rw [hclaimed]
    split
    · next hm =>
      refine .pure (.empty ?_ hoffers)
      simp only [isPart, Decl.isRecord, Decl.isNamespace, hkind, Kind.isRecord,
        Kind.isEnumeration, hm, Bool.not_true, Bool.and_false, Bool.or_self]
    · next hm =>
      refine .bind (hn _) fun p hp => .pure (.ofPlan hp ?_ hoffers)
      have hm' : claimed.contains m = false := Bool.eq_false_iff.mpr hm
      simp only [isPart, Library.isPlannable, hm', Bool.not_false, Bool.and_true]
  · next hfunction hmethod hns =>
    -- What is neither a function nor a namespace is a part exactly if it can have a plan.
    have hns' : (g.library.tree.get m).isNamespace = false := by
      unfold Decl.isNamespace
      cases hk : (g.library.tree.get m).kind with
      | nspace => exact absurd hk hns
      | _ => rfl
    have hoffers : g.holds functions m = false := by
      cases hk : (g.library.tree.get m).kind with
      | function result params => exact absurd hk (hfunction _ _)
      | method result params flags => exact absurd hk (hmethod _ _ _)
      | _ => exact holds_of_not_isFunction (by rw [hk]; rfl) (by rw [hk]; rfl) _
    refine .bind (hn _) fun p hp => .pure (.ofPlan hp ?_ hoffers)
    simp [isPart, Library.isPlannable, hns']

/-- The draft for what a namespace holds: the plans for what is planned there, and the wrappers of
its functions, each once at most. -/
structure NamespaceDraft (g : Setting) (claimed : List DeclId) (R : DeclId → Plan → Prop)
    (i : DeclId) (d : Draft) : Prop where
  parts : List.Forall₂ R ((g.namespaceItems i).filter (g.isPart claimed true)) d.parts
  wrapped : d.wrapped.Sublist (g.namespaceItems i)
  functions : (d.wrapped.filter fun f => (g.library.tree.get f).kind.isFunction) =
    (g.namespaceItems i).filter fun f =>
      (g.library.tree.get f).kind.isFunction && (g.library.memberName? f).isSome

/-- The functions that a namespace wraps are those that it holds and that have a Ruby name. -/
theorem filter_holds (i : DeclId) :
    ((g.namespaceItems i).filter (g.holds (g.heldFunctions i))).filter
        (fun f => (g.library.tree.get f).kind.isFunction) =
      (g.namespaceItems i).filter fun f =>
        (g.library.tree.get f).kind.isFunction && (g.library.memberName? f).isSome := by
  have hlookup : ∀ m, ((g.heldFunctions i).lookup m).isSome =
      (((g.namespaceItems i).filter fun m =>
        (g.library.tree.get m).kind.isHeldFunction).contains m &&
          (g.library.memberName? m).isSome) := fun m => isSome_lookup_distinct _
  rw [List.filter_filter]
  refine List.filter_congr fun m hm => ?_
  cases hkind : (g.library.tree.get m).kind with
  | function result params =>
    have hmem : ((g.namespaceItems i).filter fun m =>
        (g.library.tree.get m).kind.isHeldFunction).contains m = true := by
      rw [List.contains_iff_mem, List.mem_filter, hkind]
      exact ⟨hm, rfl⟩
    rw [holds, hlookup, hmem, hkind]
    rfl
  | _ => rfl

theorem bindNamespace_yields (hE : ∀ e, e.isLoop = false → E e) (holder : Holder)
    (hn : ∀ c ∈ g.namespaceItems i, ∀ parent,
      Gen.Yields (Claims claimed) (nested parent c) (PlansAs g R c) E) :
    Gen.Yields (Claims claimed) (g.bindNamespace nested holder i) (NamespaceDraft g claimed R i)
      E := by
  refine .bind (.mapM _ fun c hc => bindItem_yields hE holder _ (hn c hc)) fun ds hds => .pure ?_
  have hwrapped := flatMap_wrapped hds
  refine ⟨?_, ?_, ?_⟩
  · rw [Draft.parts_join]
    exact forall₂_parts hds
  · rw [Draft.wrapped_join, hwrapped]
    exact List.filter_sublist
  · rw [Draft.wrapped_join, hwrapped]
    exact filter_holds i

theorem openModule_yields (name ruby : String) (parent : Option String) :
    Run.Yields (Claims claimed) (openModule name ruby parent) fun opened =>
      opened.2 = {
        includes := ["#include <rice/Module.hpp>"]
        body := [.defineModule opened.1 ruby parent] } :=
  .bind (freshName_yields _ _) fun _ _ => .pure rfl

theorem namespacePlan_yields (hE : ∀ e, e.isLoop = false → E e) (parent : Option String)
    (hi : (g.library.tree.get i).isNamespace)
    (hn : ∀ c ∈ g.contents i, ∀ parent,
      Gen.Yields (Claims claimed) (nested parent c) (PlansAs g R c) E) :
    Gen.Yields (Claims claimed) (g.namespacePlan nested parent i) (HolderPlan g claimed R i) E := by
  have hcontents := contents_of_isNamespace hi
  rw [hcontents] at hn
  unfold namespacePlan
  dsimp only
  refine .bind (.lift (openModule_yields _ _ _)) fun opened hopened => ?_
  obtain ⟨handle, head⟩ := opened
  dsimp only at hopened
  subst hopened
  refine .bind (bindNamespace_yields hE _ hn) fun inside hinside => .pure ?_
  refine ⟨_, [], inside.parts, rfl, ?_, List.forall_mem_nil _, ?_⟩
  · refine ⟨rfl, opensSoundly_of_defineModule rfl, ?_, ?_, ?_⟩
    · intro hrecord
      rw [isNamespace_of_isRecord hrecord] at hi
      cases hi
    · intro f hf
      rw [hcontents]
      exact hinside.wrapped.subset hf
    · rw [freeFunctions_of_isNamespace hi]
      exact hinside.functions
  · rw [planned, hcontents, hi]
    exact hinside.parts

end Held

end Setting

end RubyBinding
