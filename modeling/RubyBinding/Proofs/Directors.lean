import RubyBinding.Proofs.CustomCode
import RubyBinding.Proofs.Dispatch
import RubyBinding.Proofs.Soundness

/-!
# Classes with directors

A class with virtual methods is planned together with a director (`classPlan_directs`): the first
part of its plan is the director's region, and what the region of the class binds are functions of
its own, whose names are words, or the director's members, whose names are not. So each of the
director's members is bound once, and none of the methods behind them has a function of its own in
the class as well.
-/

namespace RubyBinding

open Code (Statement Definition Director Override)
open Text (IsWord)

variable {α : Type} {m : Gen α} {Q P : α → Prop} {E F : GenError → Prop}

/-! ## Reasoning about every session -/

theorem Gen.Draws.yields {issued : α → List String} (h : Gen.Draws [] m issued Q) :
    Gen.Yields (fun _ => True) m Q fun _ => True := by
  intro s _
  rcases hrun : m.run.run s with ⟨e | a, s'⟩
  · exact ⟨trivial, trivial⟩
  · exact ⟨(h.of_run hrun).2, trivial⟩

/-- What holds whichever namespaces have modules of their own. -/
theorem Gen.Yields.of_claims
    (h : ∀ claimed, Gen.Yields (Claims claimed) m Q fun _ => True) :
    Gen.Yields (fun _ => True) m Q fun _ => True := by
  intro s _
  have hrun := h s.claimed s fun _ => Iff.rfl
  rcases hres : m.run.run s with ⟨e | a, s'⟩ <;> rw [hres] at hrun
  · exact ⟨trivial, trivial⟩
  · exact ⟨hrun.1, trivial⟩

theorem Gen.Yields.and (h : Gen.Yields (fun _ => True) m Q E)
    (h' : Gen.Yields (fun _ => True) m P E) :
    Gen.Yields (fun _ => True) m (fun a => Q a ∧ P a) E := by
  intro s hs
  have hrun := h s hs
  have hrun' := h' s hs
  rcases hres : m.run.run s with ⟨e | a, s'⟩ <;> rw [hres] at hrun hrun'
  · exact hrun
  · exact ⟨⟨hrun.1, hrun'.1⟩, trivial⟩

/-! ## What is bound to functions -/

theorem not_isWord_member (name member : String) : ¬ IsWord (name ++ "::" ++ member) := by
  intro h
  have hcolon : ':' ∈ (name ++ "::" ++ member).toList := by simp
  exact absurd (h ':' hcolon) (by decide)

/-- A draft binds functions that it defines, none of which is for certain methods. -/
structure Draft.BindsFunctions (methods : List DeclId) (d : Draft) : Prop where
  words : ∀ s ∈ d.body, ∀ target, s.target? = some target → IsWord target
  wrapped : ∀ f ∈ d.wrapped, f ∉ methods

namespace Draft.BindsFunctions

variable {methods : List DeclId} {d : Draft}

theorem of_unbound (hbody : ∀ s ∈ d.body, s.target? = none) (hwrapped : d.wrapped = []) :
    d.BindsFunctions methods where
  words := by
    intro s hs target ht
    rw [hbody s hs] at ht
    cases ht
  wrapped := by
    intro f hf
    rw [hwrapped] at hf
    cases hf

/-- No member of a director is among the functions. -/
theorem filter_eq_nil (h : d.BindsFunctions methods) (name member : String) :
    d.body.filter (fun s => s.target? == some (name ++ "::" ++ member)) = [] := by
  refine List.filter_eq_nil_iff.mpr fun s hs ht => ?_
  exact not_isWord_member name member (h.words s hs _ (eq_of_beq ht))

end Draft.BindsFunctions

/-- Nor where several drafts are put together. -/
theorem filter_flatMap_eq_nil {methods : List DeclId} {ds : List Draft}
    (h : ∀ d ∈ ds, d.BindsFunctions methods) (name member : String) :
    (ds.flatMap Draft.body).filter (fun s => s.target? == some (name ++ "::" ++ member)) = [] := by
  rw [List.filter_flatMap, List.flatMap_eq_nil_iff]
  exact fun d hd => (h d hd).filter_eq_nil name member

theorem Draft.body_join (ds : List Draft) : (join ds).body = ds.flatMap body := by
  induction ds with
  | nil => rfl
  | cons d ds ih => rw [join_cons, body_append, ih, List.flatMap_cons]

namespace Setting

variable {g : Setting} {c : Target} {methods : List DeclId}

theorem isWord_of_defines {names : List String} {ds : List Definition} (h : Defines names ds)
    {name : String} (hname : name ∈ names) : IsWord name := by
  rw [← h.drawn] at hname
  obtain ⟨word, rfl, hword⟩ := h.wellNamed.drawn name hname
  exact IsWord.append (by decide) hword

theorem bindForward_binds {i : DeclId} (hi : i ∉ methods) (receiver : Receiver)
    (place : Code.Place) (ruby : String) :
    Gen.Yields (fun _ => True) (g.bindForward i receiver place ruby)
      (Draft.BindsFunctions methods) fun _ => True := by
  have hforward : Gen.Yields (fun _ => True) (g.forward i receiver)
      (fun f => Defines [f.name] f.definitions ∧
        f.definitions.filterMap Definition.wraps? = [i]) fun _ => True :=
    (forward_draws i receiver).yields.and
      (.of_claims fun _ => forward_yields (fun _ _ => trivial) i receiver)
  refine .bind hforward fun f hf => .pure ⟨?_, ?_⟩
  · intro s hs target ht
    cases List.mem_singleton.mp hs
    cases ht
    exact isWord_of_defines hf.1 (List.mem_singleton_self _)
  · intro j hj
    have hj' : j ∈ f.definitions.filterMap Definition.wraps? := hj
    rw [hf.2] at hj'
    rw [List.mem_singleton.mp hj']
    exact hi

theorem bindField_binds {f : Named} (hf : f.1 ∉ methods) :
    Gen.Yields (fun _ => True) (liftM (g.bindField c f)) (Draft.BindsFunctions methods)
      fun _ => True := by
  have hwords : Run.Draws [] (g.bindField c f) (fun _ => [])
      fun d => ∀ s ∈ d.body, ∀ target, s.target? = some target → IsWord target := by
    unfold bindField
    dsimp only
    refine .bind (accessors_draws _ _) fun found hfound => ?_
    cases found with
    | none => exact .pure (List.forall_mem_nil _) fun _ => Nat.zero_le _
    | some a =>
      refine .pure ?_ fun _ => Nat.zero_le _
      refine List.forall_mem_cons.mpr ⟨?_, List.forall_mem_map.mpr fun setter hsetter => ?_⟩
      · rintro target ⟨⟩
        exact isWord_of_defines hfound List.mem_cons_self
      · rintro target ⟨⟩
        exact isWord_of_defines hfound (List.mem_cons_of_mem _ hsetter)
  have hwrapped : Gen.Yields (fun _ => True) (liftM (g.bindField c f)) (BindsMembers g [f.1])
      fun _ => True :=
    .of_claims fun _ => .lift (bindField_yields c f (List.mem_singleton_self _))
  refine .mono ((Gen.Draws.lift hwords).yields.and hwrapped) ?_ fun _ h => h
  rintro d ⟨hwords, -, hwrapped⟩
  refine ⟨hwords, fun j hj => ?_⟩
  rw [List.mem_singleton.mp (hwrapped j hj).1]
  exact hf

theorem bindInside_binds {nested : Nested} {adopted : List Named} {i : DeclId}
    (hadopted : ∀ e ∈ adopted, e.1 ∉ methods) :
    Gen.Yields (fun _ => True) (g.bindInside nested c adopted i)
      (Draft.BindsFunctions methods) fun _ => True := by
  unfold bindInside
  dsimp only
  split
  · exact .bind (yields_any _) fun p _ => .pure (.of_unbound (List.forall_mem_nil _) rfl)
  · split
    next ruby hlookup =>
      unfold bindAdopted
      dsimp only
      have hi := hadopted _ (Library.mem_of_lookup_eq_some hlookup)
      refine .bind (bindForward_binds hi _ _ _) fun d hd => .pure ?_
      exact ⟨hd.words, hd.wrapped⟩
    next => exact .pure (.of_unbound (List.forall_mem_nil _) rfl)

/-! ## Methods of a class with a director -/

/-- The draft of a method of a class with a director: a virtual method is bound to the director's
member, any other to a function. -/
def BindsMethod (g : Setting) (c : Target) (name : String) (virtuals : List Virtual)
    (methods : List DeclId) (m : Named) (d : Draft) : Prop :=
  if (g.library.tree.get m.1).kind.isVirtual then
    ∃ v ∈ virtuals, v.method = m.1 ∧
      d = .statement (.bind (.method c.handle) m.2 (name ++ "::" ++ v.fallback))
  else d.BindsFunctions methods

/-- If a director overrides a method, a search among its methods finds one. -/
theorem exists_find?_virtual {virtuals : List Virtual} {m : DeclId}
    (h : ∃ v ∈ virtuals, v.method = m) :
    ∃ v ∈ virtuals, v.method = m ∧ (virtuals.find? fun v => v.method == m) = some v := by
  obtain ⟨u, hu, hum⟩ := h
  have hfound : (virtuals.find? fun v => v.method == m).isSome := by
    rw [List.find?_isSome]
    exact ⟨u, hu, by simpa using hum⟩
  obtain ⟨v, hfind⟩ := Option.isSome_iff_exists.mp hfound
  exact ⟨v, List.mem_of_find?_eq_some hfind, by simpa using List.find?_some hfind, hfind⟩

theorem bindMethod_binds {name : String} {virtuals : List Virtual} {m : Named}
    (hmethod : (g.library.tree.get m.1).kind.isMethod)
    (hvirtual : (g.library.tree.get m.1).kind.isVirtual → ∃ v ∈ virtuals, v.method = m.1)
    (hplain : (g.library.tree.get m.1).kind.isVirtual = false → m.1 ∉ methods) :
    Gen.Yields (fun _ => True) (g.bindMethod c (some (name, virtuals)) m)
      (g.BindsMethod c name virtuals methods m) fun _ => True := by
  unfold bindMethod BindsMethod
  cases hkind : (g.library.tree.get m.1).kind with
  | method result params flags =>
    rw [hkind] at hvirtual hplain
    cases hflag : flags.isVirtual with
    | true =>
      obtain ⟨v, hv, hvm, hfind⟩ := exists_find?_virtual (hvirtual hflag)
      simp only [hflag, hfind, Kind.isVirtual, if_true]
      exact .pure ⟨v, hv, hvm, rfl⟩
    | false =>
      simp only [hflag, Kind.isVirtual, Bool.false_eq_true, if_false]
      have hm := hplain hflag
      split
      · exact bindForward_binds hm _ _ _
      · exact bindForward_binds hm _ _ _
  | _ =>
    rw [hkind] at hmethod
    cases hmethod

/-- Of the statements that bind methods, those that bind a member of the director. -/
theorem filter_body_eq_map {name : String} {virtuals : List Virtual} {ms : List Named}
    {ds : List Draft} (h : List.Forall₂ (g.BindsMethod c name virtuals methods) ms ds)
    (hmethods : (virtuals.map Virtual.method).Nodup)
    (hfallbacks : (virtuals.map Virtual.fallback).Nodup) {v : Virtual} (hv : v ∈ virtuals)
    (hvirtual : (g.library.tree.get v.method).kind.isVirtual) :
    (ds.flatMap Draft.body).filter (fun s => s.target? == some (name ++ "::" ++ v.fallback)) =
      (ms.filter fun m => m.1 == v.method).map fun m =>
        .bind (.method c.handle) m.2 (name ++ "::" ++ v.fallback) := by
  induction h with
  | nil => rfl
  | @cons m d ms ds hd _ ih =>
    rw [List.flatMap_cons, List.filter_append, ih, List.filter_cons]
    by_cases hm : m.1 = v.method
    · rw [BindsMethod, hm, if_pos hvirtual] at hd
      obtain ⟨u, hu, huv, rfl⟩ := hd
      rw [List.inj_on_of_nodup_map hmethods hu hv huv]
      simp [hm, Draft.statement, Statement.target?]
    · -- What is bound for another method is another member, or a function.
      have hnone :
          d.body.filter (fun s => s.target? == some (name ++ "::" ++ v.fallback)) = [] := by
        rw [BindsMethod] at hd
        split at hd
        · obtain ⟨u, hu, hum, rfl⟩ := hd
          refine List.filter_eq_nil_iff.mpr fun s hs ht => ?_
          cases List.mem_singleton.mp hs
          have htarget : name ++ "::" ++ u.fallback = name ++ "::" ++ v.fallback :=
            Option.some.inj (eq_of_beq ht)
          have huv := List.inj_on_of_nodup_map hfallbacks hu hv
            ((String.append_right_inj _).mp htarget)
          rw [← hum, huv] at hm
          exact hm rfl
        · exact hd.filter_eq_nil name v.fallback
      rw [hnone, if_neg (by simpa using hm), List.nil_append]

/-- One entry has a key, where no two have the same. -/
theorem filter_fst_eq_singleton {l : List Named} (hl : (l.map Prod.fst).Nodup) {e : Named}
    (he : e ∈ l) : l.filter (fun m => m.1 == e.1) = [e] := by
  obtain ⟨before, after, rfl⟩ := List.append_of_mem he
  rw [List.map_append, List.map_cons, List.nodup_append, List.nodup_cons] at hl
  obtain ⟨-, ⟨hafter, -⟩, hbefore⟩ := hl
  have hnone : ∀ es : List Named, e.1 ∉ es.map Prod.fst → es.filter (fun m => m.1 == e.1) = [] := by
    intro es hes
    refine List.filter_eq_nil_iff.mpr fun m hm heq => ?_
    rw [← eq_of_beq heq] at hes
    exact hes (List.mem_map_of_mem hm)
  have hout : e.1 ∉ before.map Prod.fst :=
    fun hmem => hbefore e.1 hmem e.1 List.mem_cons_self rfl
  rw [List.filter_append, List.filter_cons_of_pos (by simp), hnone before hout, hnone after hafter]
  rfl

/-! ## The director's plan -/

theorem directorPlan_directs (name : String) (i : DeclId) (cpp handle : String)
    (ctor : Option (List Param)) (virtuals : List Virtual) :
    Run.Yields (fun _ => True) (g.directorPlan name i cpp handle ctor virtuals) fun p =>
      ∃ own d, p = .region own [] ∧ own.definitions = [.director d] ∧
        (∀ s ∈ own.body, s.target? = none) ∧ d.name = name ∧ d.cpp = cpp ∧
        d.overrides = virtuals.filterMap g.library.override? := by
  unfold directorPlan
  dsimp only
  cases ctor with
  | none => exact .pure ⟨_, _, rfl, rfl, List.forall_mem_singleton.mpr rfl, rfl, rfl, rfl⟩
  | some params =>
    refine .bind (Q := fun _ => True) (fun _ _ => ⟨trivial, trivial⟩) fun types _ => ?_
    rw [pure_bind]
    refine .pure ⟨_, _, rfl, rfl, ?_, rfl, rfl, rfl⟩
    exact List.forall_mem_cons.mpr ⟨rfl, List.forall_mem_singleton.mpr rfl⟩

/-- A class is planned with a director. -/
structure Directed (g : Setting) (i : DeclId) (p : Plan) (r : Region) (d : Director) : Prop where
  /-- The first part of the plan is the director's region, which binds nothing. -/
  plan : ∃ own parts, p = .region r (.region own [] :: parts) ∧ own.definitions = [.director d] ∧
    ∀ s ∈ own.body, s.target? = none
  cpp : d.cpp = g.library.classType i
  overrides : d.overrides = (g.library.directed i).filterMap g.library.override?
  /-- Of the virtual methods that the class binds, each is bound once to the director's member. -/
  bound : ∀ v ∈ g.library.directed i, g.library.BindsVirtual i v.method →
    r.body.filter (fun s => s.target? == some (d.name ++ "::" ++ v.fallback)) =
      [.bind (.method r.handle) v.ruby (d.name ++ "::" ++ v.fallback)]
  /-- None of them has a function of its own. -/
  not_wrapped : ∀ m, g.library.BindsVirtual i m → m ∉ r.wrapped

/-- The virtual methods that a class exposes. -/
def exposedVirtuals (g : Setting) (i : DeclId) : List DeclId :=
  (g.library.exposed i).filter fun m => (g.library.tree.get m).kind.isVirtual

theorem mem_exposedVirtuals_of_binds {i m : DeclId} (h : g.library.BindsVirtual i m) :
    m ∈ g.exposedVirtuals i :=
  List.mem_filter.mpr ⟨h.1, h.2.1⟩

/-- No draft of a method is for an exposed virtual method. -/
theorem BindsMethod.not_mem_wrapped {name : String} {virtuals : List Virtual} {m : Named}
    {d : Draft} (h : g.BindsMethod c name virtuals methods m d) : ∀ f ∈ d.wrapped, f ∉ methods := by
  rw [BindsMethod] at h
  split at h
  · obtain ⟨v, -, -, rfl⟩ := h
    exact List.forall_mem_nil _
  · exact h.wrapped

/-- What the methods, the fields and what is nested contribute to a class with a director. -/
theorem directed_of_drafts (hw : g.library.tree.WellFormed) {i : DeclId} {head custom : Draft}
    {own : Region} {d : Director} {methods fields inside : List Draft}
    (hdefinitions : own.definitions = [.director d]) (hown : ∀ s ∈ own.body, s.target? = none)
    (hcpp : d.cpp = g.library.classType i)
    (hoverrides : d.overrides = (g.library.directed i).filterMap g.library.override?)
    (hhead : head.BindsFunctions (g.exposedVirtuals i)) (hparts : head.parts = [])
    (hmethods : List.Forall₂
      (g.BindsMethod c d.name (g.library.directed i) (g.exposedVirtuals i))
      (g.library.members i).methods methods)
    (hfields : ∀ d ∈ fields, d.BindsFunctions (g.exposedVirtuals i))
    (hinside : ∀ d ∈ inside, d.BindsFunctions (g.exposedVirtuals i))
    (hcustom : custom.BindsFunctions (g.exposedVirtuals i)) (name : String) :
    ∃ r d, g.Directed i ((Draft.join ([head, { parts := [.region own []] }] ++ methods ++ fields ++
      inside ++ [custom])).toPlan name (some i) c.handle) r d := by
  generalize hdraft : Draft.join ([head, { parts := [.region own []] }] ++ methods ++ fields ++
    inside ++ [custom]) = draft
  have hpart : ∃ parts, draft.parts = .region own [] :: parts := by
    refine ⟨methods.flatMap Draft.parts ++ fields.flatMap Draft.parts ++
      inside.flatMap Draft.parts ++ custom.parts, ?_⟩
    rw [← hdraft, Draft.parts_join]
    simp [hparts]
  have hbody : draft.body = head.body ++ methods.flatMap Draft.body ++ fields.flatMap Draft.body ++
      inside.flatMap Draft.body ++ custom.body := by
    rw [← hdraft, Draft.body_join]
    simp
  obtain ⟨parts, hpart⟩ := hpart
  refine ⟨⟨name, some i, c.handle, draft.includes, draft.definitions, draft.body⟩, d,
    ⟨own, parts, ?_, hdefinitions, hown⟩, hcpp, hoverrides, ?_, ?_⟩
  · rw [Draft.toPlan, hpart]
  · intro v hv hbinds
    have hmem := Library.mem_members_of_mem_directed hw hv hbinds.1
    have hbound := filter_body_eq_map hmethods (Library.directed_methods_nodup hw i)
      (g.library.directed_fallbacks_nodup i) hv hbinds.2.1
    have hone := filter_fst_eq_singleton (Library.members_methods_nodup hw i) hmem
    -- Only the drafts of the methods bind members of the director.
    dsimp only at hone ⊢
    rw [hbody, List.filter_append, List.filter_append, List.filter_append, List.filter_append,
      hbound, hone, hhead.filter_eq_nil, filter_flatMap_eq_nil hfields,
      filter_flatMap_eq_nil hinside, hcustom.filter_eq_nil]
    rfl
  · intro m hbinds hmem
    have hwrapped : m ∈ draft.wrapped := hmem
    rw [← hdraft, Draft.wrapped_join] at hwrapped
    obtain ⟨d, hd, hmd⟩ := List.mem_flatMap.mp hwrapped
    have hout : ∀ f ∈ d.wrapped, f ∉ g.exposedVirtuals i := by
      simp only [List.mem_append, List.mem_cons, List.not_mem_nil, or_false] at hd
      rcases hd with ((((rfl | rfl) | hd) | hd) | hd) | rfl
      · exact hhead.wrapped
      · exact List.forall_mem_nil _
      · obtain ⟨e, -, he⟩ := exists_of_forall₂ hmethods hd
        exact he.not_mem_wrapped
      · exact (hfields d hd).wrapped
      · exact (hinside d hd).wrapped
      · exact hcustom.wrapped
    exact hout m hmd (mem_exposedVirtuals_of_binds hbinds)

/-- The drafts of the methods of a class with a director. -/
theorem methods_bind (hw : g.library.tree.WellFormed) (c : Target) (name : String) (i : DeclId) :
    ∀ m ∈ (g.library.members i).methods,
      Gen.Yields (fun _ => True) (g.bindMethod c (some (name, g.library.directed i)) m)
        (g.BindsMethod c name (g.library.directed i) (g.exposedVirtuals i) m) fun _ => True := by
  intro m hm
  obtain ⟨hexposed, hnamed, hmethod⟩ := Library.of_mem_members hm
  refine bindMethod_binds hmethod ?_ ?_
  · intro hvirtual
    have hbinds : g.library.BindsVirtual i m.1 := ⟨hexposed, hvirtual, hnamed⟩
    obtain ⟨v, hv, hvm, -⟩ := hbinds.exists_directed hw
    exact ⟨v, hv, hvm⟩
  · intro hplain hmem
    rw [(List.mem_filter.mp hmem).2] at hplain
    cases hplain

/-- No field is a virtual method. -/
theorem fields_bind (c : Target) (i : DeclId) :
    ∀ f ∈ (g.library.members i).fields,
      Gen.Yields (fun _ => True) (liftM (g.bindField c f))
        (Draft.BindsFunctions (g.exposedVirtuals i)) fun _ => True := by
  intro f hf
  refine bindField_binds fun hmem => ?_
  have hreadable := (List.mem_filter.mp (mem_of_mem_distinct hf)).2
  have hvirtual := (List.mem_filter.mp hmem).2
  dsimp only at hreadable
  cases hkind : (g.library.tree.get f.1).kind with
  | method result params flags =>
    rw [hkind] at hreadable
    cases hreadable
  | _ =>
    rw [hkind] at hvirtual
    cases hvirtual

/-- What was moved into a class is not exposed there. -/
theorem inside_bind (nested : Nested) (c : Target) (i m : DeclId) :
    Gen.Yields (fun _ => True) (g.bindInside nested c (g.library.members i).adopted m)
      (Draft.BindsFunctions (g.exposedVirtuals i)) fun _ => True := by
  refine bindInside_binds fun e he hmem => ?_
  have hadopted := (List.mem_filter.mp (mem_of_mem_distinct he)).1
  exact Library.not_mem_exposed_of_mem_adopted hadopted (List.mem_filter.mp hmem).1

theorem classPlan_directs {nested : Nested} {parent : Option String} {i : DeclId}
    (hw : g.library.tree.WellFormed) (hvirtuals : g.library.virtuals i ≠ []) :
    Gen.Yields (fun _ => True) (g.classPlan nested parent i)
      (fun p => ∃ r d, g.Directed i p r d) fun _ => True := by
  have hempty : (g.library.directed i).isEmpty = false := by
    rw [Library.directed, Library.boundVirtuals, List.isEmpty_map, List.isEmpty_eq_false_iff]
    exact hvirtuals
  unfold classPlan
  dsimp only
  refine .bind (yields_any _) fun superclass _ => ?_
  refine .bind (yields_any _) fun handle _ => ?_
  split
  next hnone =>
    rw [hempty] at hnone
    cases hnone
  refine .bind (yields_any _) fun name _ => ?_
  refine .bind (.lift (directorPlan_directs _ _ _ _ _ _)) fun plan hplan => ?_
  obtain ⟨own, d, rfl, hdefinitions, hown, rfl, hcpp, hoverrides⟩ := hplan
  rw [pure_bind]
  refine .bind (.mapM _ (methods_bind hw _ d.name i)) fun methods hmethods => ?_
  refine .bind (.mapM_all _ (fields_bind _ i)) fun fields hfields => ?_
  refine .bind (.mapM_all _ fun m _ => inside_bind nested _ i m) fun inside hinside => .pure ?_
  refine directed_of_drafts (c := ⟨i, g.library.classType i, handle⟩) hw hdefinitions hown hcpp
    hoverrides ?_ rfl hmethods hfields hinside ?_ _
  · exact .of_unbound (List.forall_mem_singleton.mpr rfl) rfl
  · exact .of_unbound (List.forall_mem_map.mpr fun _ _ => rfl) (filterMap_custom _)

/-! ## What the overrides of a director do -/

theorem forall₂_filterMap_of_isSome {β γ : Type} {f : β → Option γ} {l : List β}
    (h : ∀ b ∈ l, (f b).isSome) :
    List.Forall₂ (fun b c => b ∈ l ∧ f b = some c) l (l.filterMap f) := by
  induction l with
  | nil => exact .nil
  | cons b l ih =>
    obtain ⟨hb, hl⟩ := List.forall_mem_cons.mp h
    obtain ⟨c, hc⟩ := Option.isSome_iff_exists.mp hb
    rw [List.filterMap_cons_some hc]
    refine .cons ⟨List.mem_cons_self, hc⟩ ((ih hl).imp fun _ _ hrest => ?_)
    exact ⟨List.mem_cons_of_mem b hrest.1, hrest.2⟩

/-- What the override of a method takes from it. -/
theorem of_override?_eq_some {v : Virtual} {o : Override} (h : g.library.override? v = some o) :
    o.name = (g.library.tree.get v.method).name ∧
      o.slots = g.library.slots (g.library.tree.scopeOf v.method)
        (g.library.tree.get v.method).kind.params ∧ o.ruby = v.ruby ∧
      o.fallback = Library.fallbackOf v (g.library.tree.get v.method).isPublic
        (g.library.tree.get v.method).kind.isPureVirtual := by
  unfold Library.override? at h
  dsimp only at h
  split at h
  next hkind =>
    cases h
    rw [hkind]
    exact ⟨rfl, rfl, rfl, rfl⟩
  next => cases h

theorem isSome_override? {v : Virtual} (h : (g.library.tree.get v.method).kind.isMethod) :
    (g.library.override? v).isSome := by
  unfold Library.override?
  dsimp only
  split
  next => rfl
  next hkind =>
    cases hk : (g.library.tree.get v.method).kind with
    | method result params flags => exact absurd hk (hkind result params flags)
    | _ =>
      rw [hk] at h
      cases h

namespace Directed

variable {i : DeclId} {p : Plan} {r : Region} {d : Director}

/-- The overrides of a director are for the virtual methods of the class, one after the other. -/
theorem forall₂ (h : g.Directed i p r d) :
    List.Forall₂ (fun v o => v ∈ g.library.directed i ∧ g.library.override? v = some o)
      (g.library.directed i) d.overrides := by
  rw [h.overrides]
  refine forall₂_filterMap_of_isSome fun v hv => ?_
  exact isSome_override? (Library.dispatchName?_of_mem_directed hv).1

theorem map_ruby (h : g.Directed i p r d) :
    d.overrides.map Override.ruby = (g.library.directed i).map Virtual.ruby := by
  have hmap : List.Forall₂ Eq (d.overrides.map Override.ruby)
      ((g.library.directed i).map Virtual.ruby) := by
    rw [List.forall₂_map_left_iff, List.forall₂_map_right_iff]
    exact h.forall₂.flip.imp fun o v ho => (of_override?_eq_some ho.2).2.2.1
  rwa [List.forall₂_eq_eq_eq] at hmap

end Directed

/-- How a director overrides a virtual method that its class binds: it asks for the Ruby method
`ruby`, and its member `member` passes the parameters to the implementation of the class, in order,
or raises if there is none. -/
structure OverridesAs (g : Setting) (i m : DeclId) (ruby member : String) (o : Override) :
    Prop where
  name : o.name = (g.library.tree.get m).name
  slots : o.slots = g.library.slots (g.library.tree.scopeOf m) (g.library.tree.get m).kind.params
  asks : o.ruby = ruby
  implementation : o.implementation (g.library.classType i) =
    ["", "\t" ++ o.head member,
      if (g.library.tree.get m).kind.isPureVirtual then "\t\traisePureVirtual();"
      else "\t\t" ++ Code.returnPart o.result ++ g.library.classType i ++ "::" ++ o.name ++ "(" ++
        Code.commaList o.arguments ++ ");",
      "\t\x7d"]

/-- The override of a method that is exposed in the class itself. -/
theorem overridesAs_of_override? {i : DeclId} {v : Virtual} {o : Override}
    (h : g.library.override? v = some o) (hown : v.isInherited = false)
    (hexposed : v.method ∈ g.library.exposed i) :
    g.OverridesAs i v.method v.ruby v.fallback o := by
  obtain ⟨hname, hslots, hruby, hfallback⟩ := of_override?_eq_some h
  have hpublic : (g.library.tree.get v.method).isPublic = true := by
    have hshown := (List.mem_filter.mp hexposed).2
    rw [Library.isExposed, Bool.and_eq_true] at hshown
    exact hshown.2
  refine ⟨hname, hslots, hruby, ?_⟩
  rw [Library.fallbackOf, hpublic, hown] at hfallback
  cases hpure : (g.library.tree.get v.method).kind.isPureVirtual with
  | true =>
    have hraises : o.fallback = .raises v.fallback := by rw [hfallback, hpure]; rfl
    rw [Override.implementation, hraises]
    rfl
  | false =>
    have hcalls : o.fallback = .calls v.fallback := by rw [hfallback, hpure]; rfl
    rw [Override.implementation, hcalls]
    rfl

/-! ## The results -/

/-- **Which Ruby methods a director asks.** Whenever a class with virtual methods is planned, its
director has one override for each of them. Those of the methods that the class binds ask for
different Ruby methods; all of them do exactly if no method that the class does not bind asks for a
name that another override asks for. -/
theorem dispatch_of_classPlan (hw : g.library.tree.WellFormed) {nested : Nested}
    {parent : Option String} {i : DeclId} (hvirtuals : g.library.virtuals i ≠ [])
    {s s' : Session} {p : Plan} (hrun : (g.classPlan nested parent i).run.run s = (.ok p, s')) :
    ∃ r d, g.Directed i p r d ∧ (g.library.overridden i).Nodup ∧
      List.Forall₂ (fun m o => o.name = (g.library.tree.get m).name ∧
        g.library.dispatchName? i m = some o.ruby) (g.library.overridden i) d.overrides ∧
      ((d.overrides.map Override.ruby).Nodup ↔
        ∀ m ∈ g.library.overridden i, m ∉ g.library.exposed i → ∀ m' ∈ g.library.overridden i,
          m' ≠ m → g.library.dispatchName? i m' ≠ g.library.memberName? m) ∧
      ∀ m m', g.library.BindsVirtual i m → g.library.BindsVirtual i m' → m ≠ m' →
        g.library.dispatchName? i m ≠ g.library.dispatchName? i m' := by
  obtain ⟨⟨r, d, h⟩, -⟩ := (classPlan_directs hw hvirtuals).of_run trivial hrun
  refine ⟨r, d, h, Library.overridden_nodup hw i, ?_, ?_, ?_⟩
  · rw [← Library.map_method_directed, List.forall₂_map_left_iff]
    refine h.forall₂.imp fun v o hvo => ?_
    obtain ⟨hname, -, hruby, -⟩ := of_override?_eq_some hvo.2
    refine ⟨hname, ?_⟩
    rw [hruby]
    exact (Library.dispatchName?_of_mem_directed hvo.1).2
  · rw [h.map_ruby]
    exact Library.directed_names_nodup_iff hw i
  · intro m m' hm hm' hne heq
    obtain ⟨v, hv, rfl, -, hvm⟩ := hm.exists_directed hw
    obtain ⟨w, hw', rfl, -, hwm⟩ := hm'.exists_directed hw
    rw [(Library.dispatchName?_of_mem_directed hv).2,
      (Library.dispatchName?_of_mem_directed hw').2] at heq
    exact hne (Library.eq_of_mem_members (Option.some.inj heq ▸ hvm) hwm)

/-- A shape with two pure virtual methods of one name, and a square, which is a shape. -/
def overloadedTree : DeclTree :=
  let pureVirtual : MethodFlags := { isVirtual := true, isPure := true }
  let t := (DeclTree.empty.add DeclTree.root "Shape" (.record false [])).2
  let t := (t.add 1 "area" (.method .float [] pureVirtual)).2
  let t := (t.add 1 "area" (.method .float [⟨none, .float⟩] pureVirtual)).2
  (t.add DeclTree.root "Square" (.record false [⟨"Shape", .pub, false⟩])).2

theorem overloadedTree_built : overloadedTree.Built := by
  refine .add (.add (.add (.add .empty ?_ _ _) ?_ _ _) ?_ _ _) ?_ _ _ <;> decide

/-- Both methods keep the name in Ruby. -/
def overloadedSetting : Setting :=
  { library := (Library.ofTree overloadedTree).edits [.rename 2 "area", .rename 3 "area"] }

theorem overloaded_wellFormed : overloadedSetting.library.tree.WellFormed := by
  rw [overloadedSetting, Library.edits_tree]
  exact overloadedTree_built.wellFormed

/-- A class is planned on its own. -/
def loneClass (i : DeclId) : Gen Plan := overloadedSetting.classPlan (fun _ _ => return none) none i

/-- The director of the shape asks for two methods. -/
theorem dispatch_overloaded :
    ∃ p s r d, (loneClass 1).run.run {} = (.ok p, s) ∧ overloadedSetting.Directed 1 p r d ∧
      (d.overrides.map Override.ruby).Nodup := by
  obtain ⟨p, s, hrun⟩ := Library.exists_of_isOk (x := (loneClass 1).run.run {}) (by cbv)
  have hoverridden : overloadedSetting.library.overridden 1 = [2, 3] := by cbv
  have hexposed : overloadedSetting.library.exposed 1 = [2, 3] := by cbv
  have hvirtuals := Library.virtuals_ne_nil (hoverridden ▸ List.mem_cons_self)
  obtain ⟨r, d, h, -, -, hiff, -⟩ := dispatch_of_classPlan overloaded_wellFormed hvirtuals hrun
  refine ⟨p, s, r, d, hrun, h, hiff.mpr ?_⟩
  rw [hoverridden, hexposed]
  exact fun m hm hout => absurd hm hout

/-- The director of the square asks for one method twice. -/
theorem not_nodup_dispatch_overloaded :
    ∃ p s r d, (loneClass 4).run.run {} = (.ok p, s) ∧ overloadedSetting.Directed 4 p r d ∧
      ¬ (d.overrides.map Override.ruby).Nodup := by
  obtain ⟨p, s, hrun⟩ := Library.exists_of_isOk (x := (loneClass 4).run.run {}) (by cbv)
  have hnames : (overloadedSetting.library.directed 4).map Virtual.ruby = ["area", "area"] := by cbv
  have hoverridden : overloadedSetting.library.overridden 4 = [2, 3] := by cbv
  have hvirtuals := Library.virtuals_ne_nil (hoverridden ▸ List.mem_cons_self)
  obtain ⟨⟨r, d, h⟩, -⟩ :=
    (classPlan_directs overloaded_wellFormed hvirtuals).of_run trivial hrun
  refine ⟨p, s, r, d, hrun, h, ?_⟩
  rw [h.map_ruby, hnames]
  decide

/-- **A class and its director agree.** Whenever a class with virtual methods is planned, each
virtual method that it binds is bound by one statement, under the Ruby name that the method's
override in the director asks for and to the member of the director that reaches the method's
implementation. There is no function for it besides, and no two methods share a name or a member. -/
theorem class_agrees_with_director (hw : g.library.tree.WellFormed) {nested : Nested}
    {parent : Option String} {i : DeclId} (hvirtuals : g.library.virtuals i ≠ [])
    {s s' : Session} {p : Plan} (hrun : (g.classPlan nested parent i).run.run s = (.ok p, s')) :
    ∃ r d, g.Directed i p r d ∧ ∃ ruby member : DeclId → String,
      (∀ m, g.library.BindsVirtual i m →
        (∃ o ∈ d.overrides, g.OverridesAs i m (ruby m) (member m) o) ∧
        r.body.filter (fun s => s.target? == some (d.name ++ "::" ++ member m)) =
          [.bind (.method r.handle) (ruby m) (d.name ++ "::" ++ member m)] ∧
        m ∉ r.wrapped) ∧
      Set.InjOn ruby {m | g.library.BindsVirtual i m} ∧
      Set.InjOn member {m | g.library.BindsVirtual i m} := by
  obtain ⟨⟨r, d, h⟩, -⟩ := (classPlan_directs hw hvirtuals).of_run trivial hrun
  have hfallbacks := g.library.directed_fallbacks_nodup i
  -- The entry of the director for each method that the class binds gives both of its names.
  choose! v hv hmethod hown hmember using
    fun m (hm : g.library.BindsVirtual i m) => hm.exists_directed hw
  refine ⟨r, d, h, fun m => (v m).ruby, fun m => (v m).fallback, ?_, ?_, ?_⟩
  · intro m hm
    obtain ⟨o, ho⟩ := Option.isSome_iff_exists.mp
      (isSome_override? (Library.dispatchName?_of_mem_directed (hv m hm)).1)
    have hexposed : (v m).method ∈ g.library.exposed i := (hmethod m hm).symm ▸ hm.1
    have hoverrides := overridesAs_of_override? ho (hown m hm) hexposed
    rw [hmethod m hm] at hoverrides
    refine ⟨⟨o, ?_, hoverrides⟩, h.bound (v m) (hv m hm) ((hmethod m hm).symm ▸ hm),
      h.not_wrapped m hm⟩
    rw [h.overrides]
    exact List.mem_filterMap.mpr ⟨v m, hv m hm, ho⟩
  · intro m hm m' hm' heq
    have hruby : (v m).ruby = (v m').ruby := heq
    exact Library.eq_of_mem_members (hmember m hm) (hruby ▸ hmember m' hm')
  · intro m hm m' hm' heq
    have hsame := List.inj_on_of_nodup_map hfallbacks (hv m hm) (hv m' hm') heq
    rw [← hmethod m hm, hsame, hmethod m' hm']

/-- The shape binds both methods to its director. -/
theorem class_agrees_overloaded :
    ∃ p s r d first second member member', (loneClass 1).run.run {} = (.ok p, s) ∧
      overloadedSetting.Directed 1 p r d ∧ first ≠ second ∧ member ≠ member' ∧
      .bind (.method r.handle) first (d.name ++ "::" ++ member) ∈ r.body ∧
      .bind (.method r.handle) second (d.name ++ "::" ++ member') ∈ r.body := by
  obtain ⟨p, s, hrun⟩ := Library.exists_of_isOk (x := (loneClass 1).run.run {}) (by cbv)
  have hoverridden : overloadedSetting.library.overridden 1 = [2, 3] := by cbv
  have hexposed : overloadedSetting.library.exposed 1 = [2, 3] := by cbv
  have hvirtuals := Library.virtuals_ne_nil (hoverridden ▸ List.mem_cons_self)
  obtain ⟨r, d, h, ruby, member, hbound, hruby, hmember⟩ :=
    class_agrees_with_director overloaded_wellFormed hvirtuals hrun
  have hbinds : ∀ m ∈ [2, 3], overloadedSetting.library.BindsVirtual 1 m := by
    intro m hm
    refine ⟨hexposed ▸ hm, ?_⟩
    fin_cases hm <;> exact ⟨rfl, rfl⟩
  have hstatement : ∀ m ∈ [2, 3],
      .bind (.method r.handle) (ruby m) (d.name ++ "::" ++ member m) ∈ r.body := by
    intro m hm
    have hone := (hbound m (hbinds m hm)).2.1
    exact List.mem_of_mem_filter (hone ▸ List.mem_singleton_self _)
  have hfirst := hbinds 2 (by decide)
  have hsecond := hbinds 3 (by decide)
  have hne : (2 : DeclId) ≠ 3 := by decide
  exact ⟨p, s, r, d, ruby 2, ruby 3, member 2, member 3, hrun, h,
    fun heq => hne (hruby hfirst hsecond heq), fun heq => hne (hmember hfirst hsecond heq),
    hstatement 2 (by decide), hstatement 3 (by decide)⟩

end Setting

end RubyBinding
