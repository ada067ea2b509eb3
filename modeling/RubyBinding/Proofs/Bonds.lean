import RubyBinding.Proofs.Directors

/-!
# What a class binds its members to

A statement that binds a function says nothing about what the function is for, but its definition
does: each function that is made for Ruby was made for one declaration, to call it, to read it or to
write it (`Code.Definition.service?`). So the statements of a body are read as *bonds*, each between
a Ruby name and a declaration, for one such purpose (`Bonds`). `classPlan_bindsAll` has the bonds
that the region of a class is made of, along the program that plans it.
-/

namespace RubyBinding

open Code (Statement Definition Director Place)

/-! ## Services -/

/-- What a bound function does with the declaration that it is for. -/
inductive Purpose where
  | call
  | read
  | write
  deriving DecidableEq, Repr

/-- A name that can be bound, with the declaration that it is for. -/
abbrev Service := String × DeclId × Purpose

/-- What a function that is made for Ruby does. -/
def Code.Body.purpose? : Code.Body → Option Purpose
  | forward _ _ | takeBlock _ _ _ _ => some .call
  | get _ => some .read
  | set _ => some .write
  | callBlock _ => none

/-- The function that a definition makes for Ruby. -/
def Code.Definition.service? : Definition → Option Service
  | wrapper w => w.body.purpose?.map fun purpose => (w.name, w.source, purpose)
  | _ => none

/-- The functions that a draft makes for Ruby. -/
def Draft.services (d : Draft) : List Service := d.definitions.filterMap Definition.service?

@[simp]
theorem Draft.services_append (d e : Draft) : (d ++ e).services = d.services ++ e.services :=
  List.filterMap_append

/-- The members of a director that reach the implementations of virtual methods. -/
def memberServices (name : String) (virtuals : List Virtual) : List Service :=
  virtuals.map fun v => (name ++ "::" ++ v.fallback, v.method, .call)

/-- The director of a class that has one is the first part of its plan. -/
def Plan.director? : Plan → Option Director
  | region _ (region own _ :: _) =>
    match own.definitions with
    | [.director d] => some d
    | _ => none
  | _ => none

/-- What can be bound where a class is planned: the functions of the plan, and the members of the
director of the class. -/
def Setting.services (g : Setting) (i : DeclId) (p : Plan) : List Service :=
  p.definitions.filterMap Definition.service? ++
    p.director?.elim [] fun d => memberServices d.name (g.library.directed i)

/-! ## Bonds -/

/-- One way in which Ruby gets at a declaration. -/
structure Bond where
  place : Place
  ruby : String
  member : DeclId
  purpose : Purpose

/-- Whether statements make certain bonds, one after the other, and bind nothing else. -/
inductive Bonds (services : List Service) : List Bond → List Statement → Prop
  | nil : Bonds services [] []
  | skip {s : Statement} {bonds : List Bond} {ss : List Statement} (hs : s.target? = none)
      (h : Bonds services bonds ss) : Bonds services bonds (s :: ss)
  | bind {b : Bond} {target : String} {bonds : List Bond} {ss : List Statement}
      (ht : (target, b.member, b.purpose) ∈ services) (h : Bonds services bonds ss) :
      Bonds services (b :: bonds) (.bind b.place b.ruby target :: ss)

/-- The bindings of a declaration among statements, with what the bound functions do. -/
def bindingsOf (services : List Service) (ss : List Statement) (m : DeclId) :
    List (Purpose × Statement) :=
  ss.filterMap fun s => do
    let target ← s.target?
    let (member, purpose) ← services.lookup target
    if member = m then some (purpose, s) else none

theorem bindingsOf_append (services : List Service) (ss ts : List Statement) (m : DeclId) :
    bindingsOf services (ss ++ ts) m = bindingsOf services ss m ++ bindingsOf services ts m :=
  List.filterMap_append

/-- A declaration has no bindings among statements that bind nothing that is for it. -/
theorem bindingsOf_eq_nil {services : List Service} {ss : List Statement} {m : DeclId}
    (h : ∀ s ∈ ss, ∀ target, s.target? = some target →
      ∀ purpose, (target, m, purpose) ∉ services) :
    bindingsOf services ss m = [] := by
  refine List.filterMap_eq_nil_iff.mpr fun s hs => ?_
  cases htarget : s.target? with
  | none => rfl
  | some target =>
    cases hlookup : services.lookup target with
    | none => simp only [Option.bind_eq_bind, Option.bind_some, hlookup, Option.bind_none]
    | some service =>
      obtain ⟨member, purpose⟩ := service
      have hne : member ≠ m := by
        rintro rfl
        exact h s hs target htarget purpose (Library.mem_of_lookup_eq_some hlookup)
      simp only [Option.bind_eq_bind, Option.bind_some, hlookup, hne, if_false]

/-- Whether a binding is made for a bond. -/
def Bond.MadeBy (b : Bond) (e : Purpose × Statement) : Prop :=
  ∃ target, e = (b.purpose, .bind b.place b.ruby target)

namespace Bonds

variable {services more : List Service} {bonds bonds' : List Bond} {ss ts : List Statement}

theorem mono (h : Bonds services bonds ss) (hsub : services ⊆ more) : Bonds more bonds ss := by
  induction h with
  | nil => exact .nil
  | skip hs _ ih => exact .skip hs ih
  | bind ht _ ih => exact .bind (hsub ht) ih

theorem append (h : Bonds services bonds ss) (h' : Bonds services bonds' ts) :
    Bonds services (bonds ++ bonds') (ss ++ ts) := by
  induction h with
  | nil => exact h'
  | skip hs _ ih => exact .skip hs ih
  | bind ht _ ih => exact .bind ht ih

theorem of_unbound (h : ∀ s ∈ ss, s.target? = none) : Bonds services [] ss := by
  induction ss with
  | nil => exact .nil
  | cons s ss ih =>
    obtain ⟨hs, hss⟩ := List.forall_mem_cons.mp h
    exact .skip hs (ih hss)

/-- If no name stands for two services, the bindings of a declaration are those that are made for
its bonds. -/
theorem forall₂_bindingsOf (hnames : (services.map Prod.fst).Nodup) (h : Bonds services bonds ss)
    (m : DeclId) :
    List.Forall₂ Bond.MadeBy (bonds.filter fun b => b.member == m) (bindingsOf services ss m) := by
  induction h with
  | nil => exact .nil
  | skip hs _ ih =>
    rw [bindingsOf, List.filterMap_cons_none (by rw [hs]; rfl)]
    exact ih
  | @bind b target bonds ss ht _ ih =>
    have hlookup : services.lookup target = some (b.member, b.purpose) :=
      Library.lookup_eq_some_of_mem hnames ht
    rw [bindingsOf, List.filterMap_cons, List.filter_cons]
    simp only [Statement.target?, hlookup, Option.bind_eq_bind, Option.bind_some, beq_iff_eq]
    split
    · exact .cons ⟨target, rfl⟩ ih
    · exact ih

end Bonds

/-! ## Drafts -/

/-- The bonds that a draft makes, with functions that it defines or others. -/
def Draft.Makes (others : List Service) (bonds : List Bond) (d : Draft) : Prop :=
  Bonds (d.services ++ others) bonds d.body

namespace Draft.Makes

variable {others : List Service} {bonds bonds' : List Bond} {d e : Draft} {ds : List Draft}

theorem of_unbound (h : ∀ s ∈ d.body, s.target? = none) : d.Makes others [] := Bonds.of_unbound h

theorem append (h : d.Makes others bonds) (h' : e.Makes others bonds') :
    (d ++ e).Makes others (bonds ++ bonds') := by
  rw [Makes, services_append, body_append]
  refine (h.mono ?_).append (h'.mono ?_)
  · exact List.append_subset.mpr ⟨fun x hx => List.mem_append_left _ (List.mem_append_left _ hx),
      List.subset_append_right _ _⟩
  · exact List.append_subset.mpr ⟨fun x hx => List.mem_append_left _ (List.mem_append_right _ hx),
      List.subset_append_right _ _⟩

/-- The drafts of several entries, one after the other. -/
theorem join {α : Type} {as : List α} {f : α → List Bond}
    (h : List.Forall₂ (fun a d => Makes others (f a) d) as ds) :
    (Draft.join ds).Makes others (as.flatMap f) := by
  induction h with
  | nil => exact .of_unbound (List.forall_mem_nil _)
  | cons hd _ ih => exact hd.append ih

end Draft.Makes

theorem Draft.join_append (ds es : List Draft) : join (ds ++ es) = join ds ++ join es := by
  induction ds with
  | nil => rfl
  | cons d ds ih => rw [List.cons_append, join_cons, ih, join_cons, append_assoc]

/-! ## Members -/

namespace Kind

/-- Whether a member is one of the class itself in Ruby. A virtual method never is. -/
def isOfClass : Kind → Bool
  | method _ _ flags => flags.isStatic && !flags.isVirtual
  | field _ isStatic _ => isStatic
  | _ => false

/-- Whether a field can be assigned to. -/
def isWritable : Kind → Bool
  | field ty isStatic isConst => !(isStatic || isConst || ty.isReference)
  | _ => false

/-- Where a member of the class with a handle is bound. -/
def place (k : Kind) (handle : String) : Place :=
  if k.isOfClass then .singleton handle else .method handle

end Kind

namespace Library

variable (lib : Library) (handle : String) (m : Named)

/-- The bonds of a method: it is called. -/
def methodBonds : List Bond := [⟨(lib.tree.get m.1).kind.place handle, m.2, m.1, .call⟩]

/-- The bonds of a field: it is read and, if that is possible, written. -/
def fieldBonds : List Bond :=
  let kind := (lib.tree.get m.1).kind
  ⟨kind.place handle, m.2, m.1, .read⟩ ::
    if kind.isWritable then [⟨kind.place handle, m.2 ++ "=", m.1, .write⟩] else []

/-- Where a function or method that was moved into a class is bound. -/
def adoptedPlace (i : DeclId) : Place :=
  match (lib.tree.get i).kind with
  | .method _ _ flags => if flags.isStatic then .singleton handle else .method handle
  | _ => if (lib.note i).isInstanceMethod then .method handle else .singleton handle

/-- The bonds of a function or method that was moved into a class: it is called. -/
def adoptedBonds : List Bond := [⟨lib.adoptedPlace handle m.1, m.2, m.1, .call⟩]

end Library

namespace Setting

variable {g : Setting} {c : Target} {others : List Service}

theorem isReference_mapNames (f : String → String) (t : Ty) :
    (t.mapNames f).isReference = t.isReference := by
  cases t <;> rfl

theorem forward_services (i : DeclId) (receiver : Receiver) :
    Gen.Yields (fun _ => True) (g.forward i receiver)
      (fun f => f.definitions.filterMap Definition.service? = [(f.name, i, .call)])
      fun _ => True := by
  rw [forward_eq]
  unfold forwarder
  dsimp only
  split
  · exact .throw trivial
  · exact .lift (.bind (Q := fun _ => True) (fun _ _ => ⟨trivial, trivial⟩) fun _ _ =>
      .bind (Q := fun _ => True) (fun _ _ => ⟨trivial, trivial⟩) fun _ _ =>
        .bind (Q := fun _ => True) (fun _ _ => ⟨trivial, trivial⟩) fun _ _ => .pure rfl)
  · split
    · exact .throw trivial
    · refine .lift (.bind (Q := fun _ => True) (fun _ _ => ⟨trivial, trivial⟩) fun name _ => ?_)
      -- The function that calls the block is not for Ruby; the one that takes it is.
      cases receiver with
      | ignored => exact .pure rfl
      | object cpp => exact .pure rfl
      | argument cpp => exact .pure rfl

theorem bindForward_makes (i : DeclId) (receiver : Receiver) (place : Place) (ruby : String) :
    Gen.Yields (fun _ => True) (g.bindForward i receiver place ruby)
      (Draft.Makes others [⟨place, ruby, i, .call⟩]) fun _ => True := by
  refine .bind (forward_services i receiver) fun f hf => .pure ?_
  refine Bonds.bind (b := ⟨place, ruby, i, .call⟩) ?_ .nil
  refine List.mem_append_left _ ?_
  show _ ∈ f.definitions.filterMap Definition.service?
  rw [hf]
  exact List.mem_singleton_self _

/-- A virtual method is bound to the member of the director that overrides it, any other method to a
function. -/
theorem bindMethod_makes {director : Option (String × List Virtual)} {m : Named}
    (hmethod : (g.library.tree.get m.1).kind.isMethod)
    (hvirtual : (g.library.tree.get m.1).kind.isVirtual → ∃ name virtuals,
      director = some (name, virtuals) ∧ memberServices name virtuals ⊆ others ∧
        ∃ v ∈ virtuals, v.method = m.1) :
    Gen.Yields (fun _ => True) (g.bindMethod c director m)
      (Draft.Makes others (g.library.methodBonds c.handle m)) fun _ => True := by
  unfold bindMethod Library.methodBonds Kind.place Kind.isOfClass
  cases hkind : (g.library.tree.get m.1).kind with
  | method result params flags =>
    rw [hkind] at hvirtual
    cases hflag : flags.isVirtual with
    | true =>
      obtain ⟨name, virtuals, rfl, hsub, hv⟩ := hvirtual hflag
      obtain ⟨v, hv, hvm, hfind⟩ := exists_find?_virtual hv
      simp only [hflag, hfind, Bool.not_true, Bool.and_false, Bool.false_eq_true, if_false]
      refine .pure (Bonds.bind (b := ⟨.method c.handle, m.2, m.1, .call⟩) ?_ .nil)
      refine List.mem_append_right _ (hsub (List.mem_map.mpr ⟨v, hv, ?_⟩))
      rw [hvm]
    | false =>
      simp only [hflag, Bool.not_false, Bool.and_true]
      split
      · exact bindForward_makes _ _ _ _
      · exact bindForward_makes _ _ _ _
  | _ =>
    rw [hkind] at hmethod
    cases hmethod

theorem access_services (i : DeclId) (cpp : String) (ty : Ty) (isStatic isConst : Bool) :
    Run.Yields (fun _ => True) (g.access i cpp ty isStatic isConst) (fun a =>
      a.definitions.filterMap Definition.service? =
        (a.getter, i, .read) :: a.setter.toList.map (·, i, .write) ∧
      a.setter.isSome = !(isStatic || isConst || ty.isReference)) := by
  refine .bind (Q := fun resolved => resolved.isReference = ty.isReference) ?_ fun _ hty => ?_
  · exact fun _ _ => ⟨isReference_mapNames _ _, trivial⟩
  refine .bind (Q := fun _ => True) (fun _ _ => ⟨trivial, trivial⟩) fun getter _ => ?_
  dsimp only
  rw [hty]
  split
  next hreadonly => exact .pure ⟨rfl, by rw [hreadonly]; rfl⟩
  next hwritable =>
    refine .bind (Q := fun _ => True) (fun _ _ => ⟨trivial, trivial⟩) fun _ _ => .pure ⟨rfl, ?_⟩
    rw [Bool.not_eq_true] at hwritable
    rw [hwritable]
    rfl

/-- The statements that bind the accessors of a field. -/
theorem makes_of_accessors {a : Accessors} {i : DeclId}
    (h : a.definitions.filterMap Definition.service? =
      (a.getter, i, .read) :: a.setter.toList.map (·, i, .write)) (place : Place) (ruby : String) :
    ({ definitions := a.definitions, body := .bind place ruby a.getter ::
        a.setter.toList.map fun s => .bind place (ruby ++ "=") s } : Draft).Makes others
      (⟨place, ruby, i, .read⟩ ::
        if a.setter.isSome then [⟨place, ruby ++ "=", i, .write⟩] else []) := by
  have hservices : ∀ service ∈
      (a.getter, i, Purpose.read) :: a.setter.toList.map (·, i, Purpose.write),
      service ∈ a.definitions.filterMap Definition.service? ++ others := by
    intro service hmem
    rw [h]
    exact List.mem_append_left _ hmem
  refine Bonds.bind (b := ⟨place, ruby, i, .read⟩) (hservices _ List.mem_cons_self) ?_
  cases hsetter : a.setter with
  | none => exact .nil
  | some setter =>
    refine Bonds.bind (b := ⟨place, ruby ++ "=", i, .write⟩) (hservices _ ?_) .nil
    rw [hsetter]
    exact List.mem_cons_of_mem _ (List.mem_singleton_self _)

/-- A field is bound to a function that reads it and, exactly if it can be assigned to, to one that
writes it. -/
theorem bindField_makes {f : Named} (hf : (g.library.tree.get f.1).kind.isReadable) :
    Run.Yields (fun _ => True) (g.bindField c f)
      (Draft.Makes others (g.library.fieldBonds c.handle f)) := by
  unfold bindField accessors Library.fieldBonds Kind.place Kind.isOfClass Kind.isWritable
  cases hkind : (g.library.tree.get f.1).kind with
  | field ty isStatic isConst =>
    rw [hkind] at hf
    have hcallback : ty.isCallback = false := by simpa [Kind.isReadable] using hf
    simp only [hcallback, Bool.false_eq_true, if_false]
    refine .bind (Q := fun found => ∃ a, found = some a ∧
      a.definitions.filterMap Definition.service? =
        (a.getter, f.1, .read) :: a.setter.toList.map (·, f.1, .write) ∧
      a.setter.isSome = !(isStatic || isConst || ty.isReference)) ?_ ?_
    · exact .bind (access_services _ _ _ _ _) fun a ha => .pure ⟨a, rfl, ha⟩
    rintro _ ⟨a, rfl, hservices, hsetter⟩
    rw [← hsetter]
    cases isStatic with
    | true => exact .pure (makes_of_accessors hservices (.singleton c.handle) f.2)
    | false => exact .pure (makes_of_accessors hservices (.method c.handle) f.2)
  | _ =>
    rw [hkind] at hf
    cases hf

/-- The bonds that are made for what is nested in a class or was moved into it. -/
def insideBonds (g : Setting) (i : DeclId) (handle : String) (m : DeclId) : List Bond :=
  ((g.library.members i).adopted.lookup m).toList.flatMap fun ruby =>
    g.library.adoptedBonds handle (m, ruby)

/-- Classes and enumerations are not bound as functions. -/
theorem lookup_adopted_eq_none {i m : DeclId} (h : ((g.library.tree.get m).kind.isRecord ||
    (g.library.tree.get m).kind.isEnumeration) = true) :
    (g.library.members i).adopted.lookup m = none := by
  have hlookup : ((g.library.members i).adopted.lookup m).isSome =
      (((g.library.adopted i).filter fun m => (g.library.tree.get m).kind.isFunction ||
        (g.library.tree.get m).kind.isMethod).contains m &&
          (g.library.memberName? m).isSome) := isSome_lookup_distinct _
  rw [← Option.not_isSome_iff_eq_none, hlookup, Bool.and_eq_true, List.contains_iff_mem,
    List.mem_filter]
  rintro ⟨⟨-, hcallable⟩, -⟩
  cases hkind : (g.library.tree.get m).kind with
  | record isStruct bases =>
    rw [hkind] at hcallable
    cases hcallable
  | enumeration isScoped values =>
    rw [hkind] at hcallable
    cases hcallable
  | _ =>
    rw [hkind] at h
    cases h

theorem bindAdopted_makes (others : List Service) (c : Target) (m : Named) :
    Gen.Yields (fun _ => True) (g.bindAdopted c m)
      (Draft.Makes others (g.library.adoptedBonds c.handle m)) fun _ => True := by
  have hbound : ∀ receiver place, place = g.library.adoptedPlace c.handle m.1 →
      Gen.Yields (fun _ => True) (do
        let bound ← g.bindForward m.1 receiver place m.2
        return { bound with includes := g.includesFor m.1 })
        (Draft.Makes others (g.library.adoptedBonds c.handle m)) fun _ => True := by
    rintro receiver _ rfl
    exact .bind (bindForward_makes _ _ _ _) fun d hd => .pure hd
  unfold bindAdopted
  dsimp only
  refine hbound _ _ ?_
  unfold Library.adoptedPlace
  cases (g.library.tree.get m.1).kind with
  | method result params flags =>
    dsimp only
    split <;> rfl
  | _ =>
    dsimp only
    split <;> rfl

/-- What is nested in a class makes no bonds but those of functions and methods that were moved
into the class. -/
theorem bindInside_makes (others : List Service) (nested : Nested) (c : Target) (i m : DeclId) :
    Gen.Yields (fun _ => True) (g.bindInside nested c (g.library.members i).adopted m)
      (Draft.Makes others (g.insideBonds i c.handle m)) fun _ => True := by
  unfold bindInside insideBonds
  dsimp only
  split
  next hnested =>
    rw [lookup_adopted_eq_none hnested]
    exact .bind (yields_any _) fun p _ => .pure (.of_unbound (List.forall_mem_nil _))
  next =>
    split
    next ruby hlookup =>
      rw [hlookup, Option.toList_some, List.flatMap_singleton]
      exact bindAdopted_makes _ _ _
    next hlookup =>
      rw [hlookup]
      exact .pure (.of_unbound (List.forall_mem_nil _))

/-- What was moved into a class is not exposed in it. -/
theorem not_mem_exposed_of_mem_insideBonds {i m : DeclId} {handle : String} {b : Bond}
    (h : b ∈ g.insideBonds i handle m) : b.member ∉ g.library.exposed i := by
  obtain ⟨ruby, hlookup, hb⟩ := List.mem_flatMap.mp h
  have hadopted := (List.mem_filter.mp (mem_of_mem_distinct
    (Library.mem_of_lookup_eq_some (Option.mem_toList.mp hlookup)))).1
  rw [List.mem_singleton.mp hb]
  exact Library.not_mem_exposed_of_mem_adopted hadopted

/-! ## Classes -/

/-- The bonds of the members of a class, under the handle of the class. -/
def memberBonds (g : Setting) (i : DeclId) (handle : String) : List Bond :=
  (g.library.members i).methods.flatMap (g.library.methodBonds handle) ++
    (g.library.members i).fields.flatMap (g.library.fieldBonds handle)

/-- All bonds of a class, also those of what was moved into it. -/
def classBonds (g : Setting) (i : DeclId) (handle : String) : List Bond :=
  g.memberBonds i handle ++
    (g.library.exposed i ++ g.library.adopted i).flatMap (g.insideBonds i handle)

/-- What the methods, the fields and what is nested contribute to a class. -/
theorem makes_classBonds_of_drafts {i : DeclId} {handle : String} {head construct custom : Draft}
    {methods fields inside : List Draft}
    (hhead : ∀ s ∈ head.body, s.target? = none)
    (hconstruct : ∀ s ∈ construct.body, s.target? = none)
    (hmethods : List.Forall₂ (fun m d => Draft.Makes others (g.library.methodBonds handle m) d)
      (g.library.members i).methods methods)
    (hfields : List.Forall₂ (fun f d => Draft.Makes others (g.library.fieldBonds handle f) d)
      (g.library.members i).fields fields)
    (hinside : List.Forall₂ (fun m d => Draft.Makes others (g.insideBonds i handle m) d)
      (g.library.exposed i ++ g.library.adopted i) inside)
    (hcustom : ∀ s ∈ custom.body, s.target? = none) :
    (Draft.join ([head, construct] ++ methods ++ fields ++ inside ++ [custom])).Makes others
      (g.classBonds i handle) := by
  have hcustom' : (Draft.join [custom]).Makes others [] := by
    refine .of_unbound fun s hs => hcustom s ?_
    rwa [Draft.body_join, List.flatMap_singleton] at hs
  have hlead : (Draft.join [head, construct]).Makes others [] := by
    refine .of_unbound fun s hs => ?_
    rw [Draft.body_join, List.flatMap_cons, List.flatMap_singleton] at hs
    exact (List.mem_append.mp hs).elim (hhead s) (hconstruct s)
  rw [Draft.join_append, Draft.join_append, Draft.join_append, Draft.join_append]
  have hmembers := (hlead.append (.join hmethods)).append (.join hfields)
  have hall := (hmembers.append (.join hinside)).append hcustom'
  rwa [List.nil_append, List.append_nil] at hall

/-- The region of a class makes the bonds of the members of the class, and no others of what the
class exposes. -/
structure ClassBonds (g : Setting) (i : DeclId) (p : Plan) (r : Region) (parts : List Plan) :
    Prop where
  plan : p = .region r parts
  body : ∃ more, Bonds (g.services i p) (g.memberBonds i r.handle ++ more) r.body ∧
    ∀ b ∈ more, b.member ∉ g.library.exposed i

/-- Whether the region of a class makes all bonds of the class, and binds nothing else. -/
def BindsAll (g : Setting) (i : DeclId) (p : Plan) : Prop :=
  ∃ r parts, p = .region r parts ∧ Bonds (g.services i p) (g.classBonds i r.handle) r.body

theorem bindsAll_toPlan {i : DeclId} {handle : String} {d : Draft}
    (h : d.Makes others (g.classBonds i handle)) (name : String)
    (hothers : others ⊆ g.services i (d.toPlan name (some i) handle)) :
    g.BindsAll i (d.toPlan name (some i) handle) := by
  refine ⟨_, _, rfl, h.mono (List.append_subset.mpr ⟨?_, hothers⟩)⟩
  intro service hservice
  refine List.mem_append_left _ ?_
  rw [Draft.toPlan, Plan.definitions_region, List.filterMap_append]
  exact List.mem_append_left _ hservice

/-- The plan of a draft whose first part is the registration of a director. -/
theorem director?_toPlan {draft : Draft} {own : Region} {d : Director} {rest : List Plan}
    (hparts : draft.parts = .region own [] :: rest) (hdefinitions : own.definitions = [.director d])
    (name : String) (node : Option DeclId) (handle : String) :
    (draft.toPlan name node handle).director? = some d := by
  rw [Draft.toPlan, hparts]
  simp only [Plan.director?, hdefinitions]

/-- Binding what a class holds. -/
theorem classMembers_makes (others : List Service) (nested : Nested) {i : DeclId} (c : Target)
    {director : Option (String × List Virtual)} {head construct custom : Draft}
    (hmethods : ∀ m ∈ (g.library.members i).methods,
      Gen.Yields (fun _ => True) (g.bindMethod c director m)
        (Draft.Makes others (g.library.methodBonds c.handle m)) fun _ => True)
    (hhead : ∀ s ∈ head.body, s.target? = none)
    (hconstruct : ∀ s ∈ construct.body, s.target? = none)
    (hcustom : ∀ s ∈ custom.body, s.target? = none) {Q : Plan → Prop}
    {finish : List Draft → List Draft → List Draft → Plan}
    (hfinish : ∀ methods fields inside, (Draft.join
      ([head, construct] ++ methods ++ fields ++ inside ++ [custom])).Makes others
        (g.classBonds i c.handle) → Q (finish methods fields inside)) :
    Gen.Yields (fun _ => True)
      (do
        let methods ← (g.library.members i).methods.mapM (g.bindMethod c director)
        let fields ← (g.library.members i).fields.mapM fun f =>
          (liftM (g.bindField c f) : Gen Draft)
        let inside ← (g.library.exposed i ++ g.library.adopted i).mapM
          (g.bindInside nested c (g.library.members i).adopted)
        return finish methods fields inside)
      Q fun _ => True := by
  refine .bind (.mapM _ hmethods) fun methods hms => ?_
  refine .bind (.mapM (R := fun f => Draft.Makes others (g.library.fieldBonds c.handle f)) _ ?_)
    fun fields hfs => ?_
  · exact fun f hf => .lift (bindField_makes (List.mem_filter.mp (mem_of_mem_distinct hf)).2)
  refine .bind (.mapM _ fun m _ => bindInside_makes others nested c i m) fun inside his => .pure ?_
  exact hfinish _ _ _ (makes_classBonds_of_drafts hhead hconstruct hms hfs his hcustom)

/-- The draft of a constructor binds nothing. -/
theorem bindCtor_unbound (c : Target) (ctor : Option (List Param)) :
    Run.Yields (fun _ => True) (g.bindCtor c ctor) fun d => ∀ s ∈ d.body, s.target? = none := by
  cases ctor with
  | none => exact .pure (List.forall_mem_nil _)
  | some params =>
    exact .bind (Q := fun _ => True) (fun _ _ => ⟨trivial, trivial⟩) fun types _ =>
      .pure (List.forall_mem_singleton.mpr rfl)

/-- **The bonds of a class** are those of its members and of what was moved into it, whatever is
planned inside it. -/
theorem classPlan_bindsAll (hw : g.library.tree.WellFormed) (nested : Nested)
    (parent : Option String) (i : DeclId) :
    Gen.Yields (fun _ => True) (g.classPlan nested parent i) (g.BindsAll i) fun _ => True := by
  -- A virtual method that is bound is among those of the director.
  have hvirtual : ∀ m ∈ (g.library.members i).methods, (g.library.tree.get m.1).kind.isVirtual →
      ∃ v ∈ g.library.directed i, v.method = m.1 := by
    intro m hm hkind
    obtain ⟨hexposed, hnamed, -⟩ := Library.of_mem_members hm
    have hbinds : g.library.BindsVirtual i m.1 := ⟨hexposed, hkind, hnamed⟩
    obtain ⟨v, hv, hvm, -⟩ := hbinds.exists_directed hw
    exact ⟨v, hv, hvm⟩
  unfold classPlan
  dsimp only
  refine .bind (yields_any _) fun superclass _ => ?_
  refine .bind (yields_any _) fun handle _ => ?_
  split
  next hnone =>
    refine .bind (.lift (bindCtor_unbound _ _)) fun construct hconstruct => ?_
    rw [pure_bind]
    refine classMembers_makes [] nested ⟨i, g.library.classType i, handle⟩ ?_ ?_ hconstruct ?_
      fun methods fields inside hmakes => bindsAll_toPlan hmakes _ (List.nil_subset _)
    · intro m hm
      refine bindMethod_makes (Library.of_mem_members hm).2.2 fun hkind => ?_
      obtain ⟨v, hv, -⟩ := hvirtual m hm hkind
      rw [Library.directed, List.isEmpty_iff.mp hnone] at hv
      cases hv
    · exact List.forall_mem_singleton.mpr rfl
    · exact List.forall_mem_map.mpr fun _ _ => rfl
  next hsome =>
    refine .bind (yields_any _) fun name _ => ?_
    refine .bind (.lift (directorPlan_directs _ _ _ _ _ _)) fun plan hplan => ?_
    obtain ⟨own, d, rfl, hdefinitions, -, rfl, -, -⟩ := hplan
    rw [pure_bind]
    refine classMembers_makes (memberServices d.name (g.library.directed i)) nested
      ⟨i, g.library.classType i, handle⟩ ?_ ?_ ?_ ?_ fun methods fields inside hmakes =>
        bindsAll_toPlan hmakes _ fun service hservice => List.mem_append_right _ ?_
    · intro m hm
      refine bindMethod_makes (Library.of_mem_members hm).2.2 fun hkind => ?_
      exact ⟨_, _, rfl, List.Subset.refl _, hvirtual m hm hkind⟩
    · exact List.forall_mem_singleton.mpr rfl
    · exact List.forall_mem_nil _
    · exact List.forall_mem_map.mpr fun _ _ => rfl
    · -- The director is the first part of the plan.
      rw [director?_toPlan (by rw [Draft.parts_join]; rfl) hdefinitions]
      exact hservice

/-- What a class exposes has the bonds of its members only. -/
theorem classPlan_makes (hw : g.library.tree.WellFormed) (nested : Nested)
    (parent : Option String) (i : DeclId) :
    Gen.Yields (fun _ => True) (g.classPlan nested parent i)
      (fun p => ∃ r parts, g.ClassBonds i p r parts) fun _ => True := by
  apply (classPlan_bindsAll hw nested parent i).mono _ fun _ h => h
  rintro p ⟨r, parts, hplan, hbody⟩
  refine ⟨r, parts, hplan, _, hbody, fun b hb => ?_⟩
  obtain ⟨m, -, hb⟩ := List.mem_flatMap.mp hb
  exact not_mem_exposed_of_mem_insideBonds hb

end Setting

end RubyBinding
