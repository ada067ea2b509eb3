import RubyBinding.Proofs.Directors

/-!
# The constructor that Ruby sees

A class is bound with one constructor at most: the one that was chosen for it, or else the last one
that can be used from outside and was neither ignored nor moved (`SeenCtor`). Where a class has a
director, objects are made as objects of the director, which passes the parameters on to the class.
A class and its director are planned by two steps that each resolve the parameters; they come to the
same types, and just one of them writes the statement (`exposesCtor_of_classPlan`).
-/

namespace RubyBinding

open Code (Statement Definition Director Slot)

/-- The handle of the class that a statement defines a constructor for, and the template arguments
that it does so with. -/
def Code.Statement.ctor? : Statement → Option (String × List String)
  | defineConstructor handle types => some (handle, types)
  | _ => none

/-! ## Which constructor it is -/

namespace Library

variable {lib : Library} {i : DeclId} {ctor : Option (List Param)}

/-- Whether a constructor can be used from outside and is bound where it is declared. -/
structure IsOffered (lib : Library) (c : DeclId) : Prop where
  isPublic : (lib.tree.get c).access = .pub
  notIgnored : lib.isIgnored c = false
  notMoved : lib.movedTo? c = none

/-- The parameters of the constructor of a class that Ruby sees, if there is one. -/
inductive SeenCtor (lib : Library) (i : DeclId) : Option (List Param) → Prop
  | chosen {c : DeclId} (hchosen : lib.chosenCtor? i = some c) :
      SeenCtor lib i (some (lib.tree.get c).kind.params)
  /-- A class that declares no constructor has one without parameters. -/
  | implicit (hchosen : lib.chosenCtor? i = none) (hnone : lib.ctors i = []) :
      SeenCtor lib i (some [])
  | last {before after : List DeclId} {c : DeclId} (hchosen : lib.chosenCtor? i = none)
      (hsplit : lib.ctors i = before ++ c :: after) (hc : lib.IsOffered c)
      (hafter : ∀ d ∈ after, ¬ lib.IsOffered d) : SeenCtor lib i (some (lib.tree.get c).kind.params)
  | hidden (hchosen : lib.chosenCtor? i = none) (hsome : lib.ctors i ≠ [])
      (hhidden : ∀ c ∈ lib.ctors i, ¬ lib.IsOffered c) : SeenCtor lib i none

theorem isExposed_iff_isOffered {c : DeclId} : lib.isExposed c = true ↔ lib.IsOffered c := by
  rw [isExposed, isMoved, Decl.isPublic, Bool.and_eq_true, Bool.and_eq_true, Bool.not_eq_true',
    Bool.not_eq_true', Option.isSome_eq_false_iff, Option.isNone_iff_eq_none, decide_eq_true_iff]
  constructor
  · rintro ⟨⟨hign, hmoved⟩, hpub⟩
    exact ⟨hpub, hign, hmoved⟩
  · rintro ⟨hpub, hign, hmoved⟩
    exact ⟨⟨hign, hmoved⟩, hpub⟩

/-- A class is bound with the constructor that Ruby sees. -/
theorem seenCtor_ctorParams? (lib : Library) (i : DeclId) :
    lib.SeenCtor i (lib.ctorParams? i) := by
  have hctors : lib.tree.membersOf i Kind.isCtor = lib.ctors i := rfl
  rw [ctorParams?, hctors]
  cases hchosen : lib.chosenCtor? i with
  | some c => exact .chosen hchosen
  | none =>
    dsimp only
    split
    next hnone => exact .implicit hchosen hnone
    next hsome =>
      -- The last one that is offered is the first one from behind.
      rw [List.getLast?_filter]
      cases hlast : (lib.ctors i).reverse.find? lib.isExposed with
      | none =>
        refine .hidden hchosen hsome fun c hc hoffered => ?_
        have hout := List.find?_eq_none.mp hlast c (List.mem_reverse.mpr hc)
        exact hout (isExposed_iff_isOffered.mpr hoffered)
      | some c =>
        obtain ⟨hexposed, after, before, hsplit, hafter⟩ := List.find?_eq_some_iff_append.mp hlast
        have hsplit' : lib.ctors i = before.reverse ++ c :: after.reverse := by
          rw [← List.reverse_reverse (lib.ctors i), hsplit]
          simp
        refine .last hchosen hsplit' (isExposed_iff_isOffered.mp hexposed) fun d hd hoffered => ?_
        have hout := hafter d (List.mem_reverse.mp hd)
        rw [isExposed_iff_isOffered.mpr hoffered] at hout
        cases hout

/-- A class is bound with a constructor if one was chosen, if it declares none, or if one that it
declares is offered. -/
theorem SeenCtor.isSome_iff (h : lib.SeenCtor i ctor) :
    ctor.isSome ↔ (lib.chosenCtor? i).isSome ∨ lib.ctors i = [] ∨
      ∃ c ∈ lib.ctors i, lib.IsOffered c := by
  cases h with
  | chosen hchosen => simp [hchosen]
  | implicit hchosen hnone => simp [hnone]
  | last hchosen hsplit hc hafter =>
    refine iff_of_true rfl (.inr (.inr ⟨_, ?_, hc⟩))
    exact hsplit ▸ List.mem_append_right _ List.mem_cons_self
  | hidden hchosen hsome hhidden => simpa [hchosen, hsome] using hhidden

end Library

/-! ## Where it is defined -/

namespace Setting

variable {g : Setting} {nested : Nested} {c : Target} {i : DeclId}

/-- The types of parameters that were written in a class, as generated code spells them. -/
def spelledTypes (g : Setting) (i : DeclId) (params : List Param) : List String :=
  params.map fun p => (g.library.resolve i p.ty).spell

/-- The constructor of the director of a class: it takes the Ruby object and what the constructor of
the class takes, and passes all of that on. -/
def directorCtor (g : Setting) (i : DeclId) (name : String) (params : List Param) : String :=
  let declared := params.zipIdx.map fun e => (g.library.resolve i e.1.ty).declare (e.1.nameAt e.2)
  let passed := params.zipIdx.map fun e => e.1.nameAt e.2
  "\t" ++ name ++ "(" ++ Code.commaList ("Rice::Object self" :: declared) ++ ") : " ++
    g.library.classType i ++ "(" ++ Code.commaList passed ++ "), Rice::Director(self) \x7b \x7d"

/-- A plan of something nested, made on its own. -/
def PlannedBy (nested : Nested) (p : Plan) : Prop :=
  ∃ parent m s s', (nested parent m).run.run s = (.ok (some p), s')

/-- How the plan of a class exposes a constructor. -/
inductive ExposesCtor (g : Setting) (nested : Nested) (i : DeclId) (ctor : Option (List Param)) :
    Plan → Prop
  /-- A class without a director defines it itself. -/
  | plain {r : Region} {parts : List Plan} (hvirtuals : g.library.virtuals i = [])
      (hbody : r.body.filterMap Statement.ctor? = ctor.toList.map fun params =>
        (r.handle, g.library.classType i :: g.spelledTypes i params))
      (hparts : ∀ p ∈ parts, PlannedBy nested p) :
      ExposesCtor g nested i ctor (.region r parts)
  /-- Else the director is what is constructed, and the class itself defines none. -/
  | directed {r own : Region} {d : Director} {parts : List Plan}
      (hvirtuals : g.library.virtuals i ≠ []) (hdefinitions : own.definitions = [.director d])
      (hbody : r.body.filterMap Statement.ctor? = [])
      (hown : own.body.filterMap Statement.ctor? = ctor.toList.map fun params =>
        (r.handle, d.name :: "Rice::Object" :: g.spelledTypes i params))
      (hctor : d.ctorLines = ctor.toList.map (g.directorCtor i d.name))
      (hparts : ∀ p ∈ parts, PlannedBy nested p) :
      ExposesCtor g nested i ctor (.region r (.region own [] :: parts))

/-! ## What defines none -/

/-- A draft that defines no constructor, and has no parts but plans of what is nested. -/
structure Ctorless (nested : Nested) (d : Draft) : Prop where
  body : ∀ s ∈ d.body, s.ctor? = none
  parts : ∀ p ∈ d.parts, PlannedBy nested p

theorem Ctorless.of_body {d : Draft} (hbody : ∀ s ∈ d.body, s.ctor? = none)
    (hparts : d.parts = []) : Ctorless nested d :=
  ⟨hbody, hparts ▸ List.forall_mem_nil _⟩

theorem Ctorless.filterMap_body {d : Draft} (h : Ctorless nested d) :
    d.body.filterMap Statement.ctor? = [] :=
  List.filterMap_eq_nil_iff.mpr h.body

/-- Drafts that define no constructor come to one that defines none. -/
theorem Ctorless.join {ds : List Draft} (h : ∀ d ∈ ds, Ctorless nested d) :
    Ctorless nested (Draft.join ds) where
  body s hs := by
    rw [Draft.body_join] at hs
    obtain ⟨d, hd, hs⟩ := List.mem_flatMap.mp hs
    exact (h d hd).body s hs
  parts p hp := by
    rw [Draft.parts_join] at hp
    obtain ⟨d, hd, hp⟩ := List.mem_flatMap.mp hp
    exact (h d hd).parts p hp

theorem bindForward_ctorless (nested : Nested) (m : DeclId) (receiver : Receiver)
    (place : Code.Place) (ruby : String) :
    Gen.Yields (fun _ => True) (g.bindForward m receiver place ruby) (Ctorless nested)
      fun _ => True :=
  .bind (yields_any _) fun _ _ => .pure (.of_body (List.forall_mem_singleton.mpr rfl) rfl)

theorem bindMethod_ctorless (nested : Nested) (director : Option (String × List Virtual))
    (m : Named) :
    Gen.Yields (fun _ => True) (g.bindMethod c director m) (Ctorless nested) fun _ => True := by
  unfold bindMethod
  split
  · split
    · split
      · exact .pure (.of_body (List.forall_mem_singleton.mpr rfl) rfl)
      · exact .pure (.of_body (List.forall_mem_nil _) rfl)
    · split
      · exact bindForward_ctorless nested _ _ _ _
      · exact bindForward_ctorless nested _ _ _ _
  · exact .pure (.of_body (List.forall_mem_nil _) rfl)

theorem bindField_ctorless (nested : Nested) (f : Named) :
    Gen.Yields (fun _ => True) (liftM (g.bindField c f)) (Ctorless nested) fun _ => True := by
  apply Gen.Yields.lift
  unfold bindField
  dsimp only
  refine .bind (Q := fun _ => True) (fun _ _ => ⟨trivial, trivial⟩) fun found _ => ?_
  cases found with
  | none => exact .pure (.of_body (List.forall_mem_nil _) rfl)
  | some a =>
    refine .pure (.of_body ?_ rfl)
    exact List.forall_mem_cons.mpr ⟨rfl, List.forall_mem_map.mpr fun _ _ => rfl⟩

theorem nested_plannedBy (nested : Nested) (parent : Option String) (m : DeclId) :
    Gen.Yields (fun _ => True) (nested parent m) (fun p? => ∀ p ∈ p?.toList, PlannedBy nested p)
      fun _ => True := by
  intro s _
  split
  next p? s' hrun =>
    refine ⟨fun p hp => ⟨parent, m, s, s', ?_⟩, trivial⟩
    rw [hrun, Option.mem_toList.mp hp]
  next => exact ⟨trivial, trivial⟩

theorem bindInside_ctorless (nested : Nested) (adopted : List Named) (m : DeclId) :
    Gen.Yields (fun _ => True) (g.bindInside nested c adopted m) (Ctorless nested)
      fun _ => True := by
  unfold bindInside
  dsimp only
  split
  · refine .bind (nested_plannedBy nested _ m) fun p? hp => .pure ?_
    exact ⟨List.forall_mem_nil _, hp⟩
  · split
    · exact .bind (bindForward_ctorless nested _ _ _ _) fun d hd => .pure ⟨hd.body, hd.parts⟩
    · exact .pure (.of_body (List.forall_mem_nil _) rfl)

/-! ## What defines one -/

theorem resolvedTypes_yields (scope : DeclId) (params : List Param) :
    Run.Yields (fun _ => True) (params.mapM fun p => g.resolveParam scope p.ty) fun types =>
      types.map Ty.spell = g.spelledTypes scope params := by
  refine .mono (.mapM (R := fun p ty => ty = g.library.resolve scope p.ty) params ?_) ?_
  · exact fun p _ _ _ => ⟨rfl, trivial⟩
  · intro types htypes
    induction htypes with
    | nil => rfl
    | cons htype _ ih => rw [htype, List.map_cons, ih, spelledTypes, spelledTypes, List.map_cons]

/-- A class without a director defines the constructor that it is given. -/
theorem bindCtor_defines (c : Target) (ctor : Option (List Param)) :
    Run.Yields (fun _ => True) (g.bindCtor c ctor) fun d =>
      d.body.filterMap Statement.ctor? = (ctor.toList.map fun params =>
        (c.handle, c.cpp :: g.spelledTypes c.id params)) ∧ d.parts = [] := by
  cases ctor with
  | none => exact .pure ⟨rfl, rfl⟩
  | some params =>
    refine .bind (resolvedTypes_yields c.id params) fun types htypes => .pure ⟨?_, rfl⟩
    rw [htypes]
    rfl

/-- The text of a director's constructor. -/
theorem ctorLines_slots {d : Director} {params : List Param}
    (hcpp : d.cpp = g.library.classType i) (hctor : d.ctor = some (g.library.slots i params)) :
    d.ctorLines = [g.directorCtor i d.name params] := by
  have hdeclared : (g.library.slots i params).map Slot.text = params.zipIdx.map fun e =>
      (g.library.resolve i e.1.ty).declare (e.1.nameAt e.2) := by
    rw [Library.slots, List.map_map]
    rfl
  have hpassed : (g.library.slots i params).map Slot.name =
      params.zipIdx.map fun e => e.1.nameAt e.2 := by
    rw [Library.slots, List.map_map]
    rfl
  have hself : Slot.anyReceiver.text = "Rice::Object self" := by decide
  rw [Director.ctorLines, hctor, directorCtor]
  dsimp only
  rw [Code.slotList, List.map_cons, hdeclared, hpassed, hself, hcpp]

/-- A director declares the constructor that it is given, and its region defines it. -/
theorem directorPlan_constructs (name : String) (i : DeclId) (handle : String)
    (ctor : Option (List Param)) (virtuals : List Virtual) :
    Run.Yields (fun _ => True)
      (g.directorPlan name i (g.library.classType i) handle ctor virtuals) fun p =>
      ∃ own d, p = .region own [] ∧ own.definitions = [.director d] ∧
        own.body.filterMap Statement.ctor? = (ctor.toList.map fun params =>
          (handle, d.name :: "Rice::Object" :: g.spelledTypes i params)) ∧
        d.ctorLines = ctor.toList.map (g.directorCtor i d.name) := by
  unfold directorPlan
  dsimp only
  cases ctor with
  | none => exact .pure ⟨_, _, rfl, rfl, rfl, rfl⟩
  | some params =>
    refine .bind (resolvedTypes_yields i params) fun types htypes => ?_
    rw [pure_bind]
    refine .pure ⟨_, _, rfl, rfl, ?_, ctorLines_slots rfl rfl⟩
    rw [Option.toList_some, List.map_singleton, ← htypes]
    rfl

/-! ## The result -/

/-- What the members of a class and what is nested in it contribute changes nothing about its
constructor. -/
theorem classMembers_keep (nested : Nested) (c : Target) (director : Option (String × List Virtual))
    (members : Members) (items : List DeclId) {Q : Plan → Prop}
    {finish : List Draft → List Draft → List Draft → Plan}
    (hfinish : ∀ methods fields inside, (∀ d ∈ methods ++ fields ++ inside, Ctorless nested d) →
      Q (finish methods fields inside)) :
    Gen.Yields (fun _ => True)
      (do
        let methods ← members.methods.mapM (g.bindMethod c director)
        let fields ← members.fields.mapM fun f => (liftM (g.bindField c f) : Gen Draft)
        let inside ← items.mapM (g.bindInside nested c members.adopted)
        return finish methods fields inside)
      Q fun _ => True := by
  refine .bind (.mapM_all _ fun m _ => bindMethod_ctorless nested director m)
    fun methods hmethods => ?_
  refine .bind (.mapM_all _ fun f _ => bindField_ctorless nested f) fun fields hfields => ?_
  refine .bind (.mapM_all _ fun m _ => bindInside_ctorless nested _ m) fun inside hinside =>
    .pure (hfinish _ _ _ fun d hd => ?_)
  rcases List.mem_append.mp hd with hd | hd
  · exact (List.mem_append.mp hd).elim (hmethods d) (hfields d)
  · exact hinside d hd

/-- Of the drafts of a class, the second is the one that may define a constructor. -/
theorem join_construct {head construct custom draft : Draft} {methods fields inside : List Draft}
    (hdraft : Draft.join ([head, construct] ++ methods ++ fields ++ inside ++ [custom]) = draft)
    (hhead : Ctorless nested head) (hparts : head.parts = [])
    (hmembers : ∀ d ∈ methods ++ fields ++ inside, Ctorless nested d)
    (hcustom : Ctorless nested custom) :
    draft.body.filterMap Statement.ctor? = construct.body.filterMap Statement.ctor? ∧
      ∃ parts, draft.parts = construct.parts ++ parts ∧ ∀ p ∈ parts, PlannedBy nested p := by
  have hrest : Ctorless nested (Draft.join (methods ++ fields ++ inside ++ [custom])) :=
    .join (List.forall_mem_append.mpr ⟨hmembers, List.forall_mem_singleton.mpr hcustom⟩)
  have hbody : draft.body = head.body ++ (construct.body ++
      (Draft.join (methods ++ fields ++ inside ++ [custom])).body) := by
    rw [← hdraft, Draft.body_join, Draft.body_join]
    simp
  refine ⟨?_, _, ?_, hrest.parts⟩
  · rw [hbody, List.filterMap_append, List.filterMap_append, hhead.filterMap_body,
      hrest.filterMap_body, List.nil_append, List.append_nil]
  · rw [← hdraft, Draft.parts_join, Draft.parts_join]
    simp [hparts]

theorem classPlan_exposesCtor (nested : Nested) (parent : Option String) (i : DeclId) :
    Gen.Yields (fun _ => True) (g.classPlan nested parent i)
      (g.ExposesCtor nested i (g.library.ctorParams? i)) fun _ => True := by
  have hempty : (g.library.directed i).isEmpty = (g.library.virtuals i).isEmpty := by
    rw [Library.directed, Library.boundVirtuals, List.isEmpty_map]
  unfold classPlan
  dsimp only
  refine .bind (yields_any _) fun superclass _ => ?_
  refine .bind (yields_any _) fun handle _ => ?_
  rw [hempty]
  -- The draft beside the head defines the constructor, or it holds the director that does.
  split
  next hnone =>
    refine .bind (.lift (bindCtor_defines _ _)) fun construct hconstruct => ?_
    rw [pure_bind]
    refine classMembers_keep nested ⟨i, g.library.classType i, handle⟩ none _ _
      fun methods fields inside hmembers => ?_
    generalize hdraft : Draft.join _ = draft
    obtain ⟨hbody, parts, hparts, hplanned⟩ := join_construct hdraft
      (.of_body (List.forall_mem_singleton.mpr rfl) rfl) rfl hmembers
      (.of_body (List.forall_mem_map.mpr fun _ _ => rfl) rfl)
    rw [hconstruct.2, List.nil_append] at hparts
    exact .plain (List.isEmpty_iff.mp hnone) (hbody.trans hconstruct.1) (hparts ▸ hplanned)
  next hsome =>
    refine .bind (yields_any _) fun name _ => ?_
    refine .bind (.lift (directorPlan_constructs _ _ _ _ _)) fun plan hplan => ?_
    obtain ⟨own, d, rfl, hdefinitions, hown, hctor⟩ := hplan
    rw [pure_bind]
    refine classMembers_keep nested ⟨i, g.library.classType i, handle⟩ _ _ _
      fun methods fields inside hmembers => ?_
    generalize hdraft : Draft.join _ = draft
    obtain ⟨hbody, parts, hparts, hplanned⟩ := join_construct hdraft
      (.of_body (List.forall_mem_singleton.mpr rfl) rfl) rfl hmembers
      (.of_body (List.forall_mem_map.mpr fun _ _ => rfl) rfl)
    rw [Draft.toPlan, hparts]
    exact .directed (mt List.isEmpty_iff.mpr hsome) hdefinitions hbody hown hctor hplanned

/-- **The constructor that a class exposes** is the chosen one, or that without parameters where the
class declares none, or the last offered one; the class defines it where it has no director, and its
director does where it has one. -/
theorem exposesCtor_of_classPlan {nested : Nested} {parent : Option String} {i : DeclId}
    {s s' : Session} {p : Plan} (hrun : (g.classPlan nested parent i).run.run s = (.ok p, s')) :
    ∃ ctor, g.library.SeenCtor i ctor ∧
      (ctor.isSome ↔ (g.library.chosenCtor? i).isSome ∨ g.library.ctors i = [] ∨
        ∃ c ∈ g.library.ctors i, g.library.IsOffered c) ∧
      g.ExposesCtor nested i ctor p :=
  ⟨_, g.library.seenCtor_ctorParams? i, (g.library.seenCtor_ctorParams? i).isSome_iff,
    ((classPlan_exposesCtor nested parent i).of_run trivial hrun).1⟩

/-- A shape that can be made from its size, and by other constructors that Ruby does not see. -/
def sizedTree : DeclTree :=
  let t := (DeclTree.empty.add DeclTree.root "Shape" (.record false [])).2
  let t := (t.add 1 "Shape" (.ctor [⟨some "size", .float⟩])).2
  let t := (t.add 1 "Shape" (.ctor [⟨none, .float⟩, ⟨none, .float⟩])).2
  let t := ((t.add 1 "Shape" (.ctor [])).2).setAccess 4 .prot
  (t.add 1 "area" (.method .float [] { isVirtual := true, isPure := true })).2

/-- The last constructor is protected, and the one before it is ignored. -/
def sizedSetting : Setting :=
  { library := (Library.ofTree sizedTree).edits [.rename 5 "area", .ignore 3] }

/-- The director of the shape takes the size. -/
theorem exposesCtor_sized :
    ∃ p s, (sizedSetting.classPlan (fun _ _ => return none) none 1).run.run {} = (.ok p, s) ∧
      sizedSetting.ExposesCtor (fun _ _ => return none) 1 (some [⟨some "size", .float⟩]) p := by
  obtain ⟨p, s, hrun⟩ := Library.exists_of_isOk
    (x := (sizedSetting.classPlan (fun _ _ => return none) none 1).run.run {}) (by cbv)
  have hctors : sizedSetting.library.ctors 1 = [2, 3, 4] := by cbv
  have hchosen : sizedSetting.library.chosenCtor? 1 = none := by cbv
  have hexposed : [2, 3, 4].filter sizedSetting.library.isExposed = [2] := by cbv
  have hparams : (sizedSetting.library.tree.get 2).kind.params = [⟨some "size", .float⟩] := by cbv
  have honly : ∀ c ∈ sizedSetting.library.ctors 1, sizedSetting.library.IsOffered c → c = 2 := by
    intro c hc hoffered
    have hmem := List.mem_filter.mpr ⟨hctors ▸ hc, Library.isExposed_iff_isOffered.mpr hoffered⟩
    rw [hexposed] at hmem
    exact List.mem_singleton.mp hmem
  obtain ⟨ctor, hseen, -, hexposes⟩ := exposesCtor_of_classPlan hrun
  refine ⟨p, s, hrun, ?_⟩
  cases hseen with
  | chosen h =>
    rw [hchosen] at h
    cases h
  | implicit _ h =>
    rw [hctors] at h
    cases h
  | last _ hsplit hc _ =>
    obtain rfl := honly _ (hsplit ▸ List.mem_append_right _ List.mem_cons_self) hc
    rwa [hparams] at hexposes
  | hidden _ _ hhidden =>
    have htwo : 2 ∈ sizedSetting.library.ctors 1 := hctors ▸ List.mem_cons_self
    exact absurd (Library.isExposed_iff_isOffered.mp (by cbv)) (hhidden 2 htwo)

end Setting

end RubyBinding
