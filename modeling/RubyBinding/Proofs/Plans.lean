import Mathlib.Data.List.Forall2
import RubyBinding.Binding.Extension
import RubyBinding.Proofs.Binders
import RubyBinding.Proofs.Order

/-!
# The shape of plans

The planner walks from a class or namespace to what it holds, and from there to what that holds.
What its plans look like is said here without a walk: `Setting.planned` are the declarations that
get plans of their own in a given class or namespace, `RegionFor` is what the region of a
declaration says, and `PlanFor` puts both together.
-/

namespace RubyBinding

open Code (Statement Definition)

/-! ## What plans consist of -/

/-- The declaration that a definition makes available to Ruby. -/
def Code.Definition.wraps? : Definition → Option DeclId
  | wrapper w =>
    match w.body with
    | .callBlock _ => none
    | _ => some w.source
  | _ => none

/-- The declarations that a draft makes available to Ruby. -/
def Draft.wrapped (d : Draft) : List DeclId := d.definitions.filterMap Definition.wraps?

/-- The declarations that a region makes available to Ruby, apart from its parts. -/
def Region.wrapped (r : Region) : List DeclId := r.definitions.filterMap Definition.wraps?

/-- The declarations that have regions, as often as they have one. -/
def Plan.nodes (p : Plan) : List DeclId := p.regions.filterMap Region.node

/-- The declarations that are made available to Ruby, as often as they are. -/
def Plan.wrapped (p : Plan) : List DeclId := p.regions.flatMap Region.wrapped

/-- The plan at an address: which part, which part of that part, and so on. -/
def Plan.at? : Plan → List Nat → Option Plan
  | p, [] => some p
  | code _ _, _ :: _ => none
  | region _ parts, k :: ks =>
    match parts[k]? with
    | some p => p.at? ks
    | none => none

namespace Draft

variable {d e : Draft} {ds : List Draft}

@[simp]
theorem parts_append (d e : Draft) : (d ++ e).parts = d.parts ++ e.parts := rfl

@[simp]
theorem body_append (d e : Draft) : (d ++ e).body = d.body ++ e.body := rfl

@[simp]
theorem wrapped_append (d e : Draft) : (d ++ e).wrapped = d.wrapped ++ e.wrapped := by
  rw [wrapped, wrapped, wrapped, ← List.filterMap_append]
  rfl

theorem join_cons (d : Draft) (ds : List Draft) : join (d :: ds) = d ++ join ds := rfl

@[simp]
theorem parts_join (ds : List Draft) : (join ds).parts = ds.flatMap parts := by
  induction ds with
  | nil => rfl
  | cons d ds ih => rw [join_cons, parts_append, ih, List.flatMap_cons]

@[simp]
theorem wrapped_join (ds : List Draft) : (join ds).wrapped = ds.flatMap wrapped := by
  induction ds with
  | nil => rfl
  | cons d ds ih => rw [join_cons, wrapped_append, ih, List.flatMap_cons]

end Draft

namespace Setting

variable (g : Setting)

/-! ## The shape of plans -/

/-- What a class or namespace holds. -/
def contents (i : DeclId) : List DeclId :=
  if (g.library.tree.get i).isNamespace then g.namespaceItems i else g.library.bound i

/-- The free functions that a class or namespace makes available: what a namespace holds and what
was moved into a class, as far as it has a Ruby name. -/
def freeFunctions (i : DeclId) : List DeclId :=
  let d := g.library.tree.get i
  let offered := if d.isNamespace then g.namespaceItems i
    else if d.isRecord then g.library.adopted i else []
  offered.filter fun f => (g.library.tree.get f).kind.isFunction && (g.library.memberName? f).isSome

/-- Whether something has a plan of its own where it is bound: named classes and enumerations have
one, and in a namespace those namespaces that no explicit module holds. -/
def isPart (claimed : List DeclId) (inNamespace : Bool) (c : DeclId) : Bool :=
  let d := g.library.tree.get c
  !d.name.isEmpty && (d.isRecord || d.kind.isEnumeration ||
    (d.isNamespace && inNamespace && !claimed.contains c))

/-- The declarations that have plans of their own among what a class or namespace holds. -/
def planned (claimed : List DeclId) (i : DeclId) : List DeclId :=
  (g.contents i).filter (g.isPart claimed (g.library.tree.get i).isNamespace)

/-- A region that begins by defining a class is the region of that class, and it says which
superclass was selected for it. -/
def OpensSoundly (r : Region) : Prop :=
  ∀ handle cpp superclass parent ruby,
    r.body.head? = some (.defineClass handle cpp superclass parent ruby) →
    ∃ c s, r.node = some c ∧ (g.library.tree.get c).isRecord ∧ g.library.superclass? c = .ok s ∧
      cpp = g.library.classType c ∧ superclass = s.map g.library.classType

/-- A region begins by defining a class, with the superclass that was selected for it. -/
def DefinesRecord (r : Region) (c : DeclId) : Prop :=
  ∃ handle s parent, g.library.superclass? c = .ok s ∧
    r.body.head? = some (.defineClass handle (g.library.classType c) (s.map g.library.classType)
      parent (g.library.className c))

/-- What the region of a declaration says. -/
structure RegionFor (i : DeclId) (r : Region) : Prop where
  node : r.node = some i
  opens : g.OpensSoundly r
  defines : (g.library.tree.get i).isRecord → g.DefinesRecord r i
  wrapped_mem : ∀ f ∈ r.wrapped, f ∈ g.contents i
  functions : (r.wrapped.filter fun f => (g.library.tree.get f).kind.isFunction) =
    g.freeFunctions i

/-- What the region of a director says, which is no declaration's. -/
structure DirectorRegion (r : Region) : Prop where
  node : r.node = none
  opens : g.OpensSoundly r
  wrapped : r.wrapped = []

/-- The registration of a director. -/
def IsDirector (p : Plan) : Prop := ∃ r, p = .region r [] ∧ g.DirectorRegion r

/-- The plans for a declaration while only `unplanned` is left to be planned. -/
inductive PlanFor (claimed : List DeclId) : List DeclId → DeclId → Plan → Prop
  | enumeration {unplanned : List DeclId} {i : DeclId} {r : Region}
      (hkind : (g.library.tree.get i).kind.isEnumeration) (hr : g.RegionFor i r) :
      PlanFor claimed unplanned i (.region r [])
  | holder {unplanned : List DeclId} {i : DeclId} {r : Region} {directors parts : List Plan}
      (hkind : g.library.isHolder i) (hi : i ∈ unplanned) (hr : g.RegionFor i r)
      (hdirectors : ∀ p ∈ directors, g.IsDirector p)
      (hlength : (g.planned claimed i).length = parts.length)
      (hparts : ∀ c p, (c, p) ∈ (g.planned claimed i).zip parts →
        PlanFor claimed (unplanned.erase i) c p) :
      PlanFor claimed unplanned i (.region r (directors ++ parts))

variable {g} {claimed : List DeclId} {i : DeclId} {r : Region}

/-! ## What a declaration holds -/

theorem isNamespace_of_isRecord {d : Decl} (h : d.isRecord) : d.isNamespace = false := by
  unfold Decl.isRecord at h
  unfold Decl.isNamespace
  cases hkind : d.kind <;> simp_all [Kind.isRecord, Kind.isNamespace]

theorem not_isRecord_of_isNamespace {d : Decl} (h : d.isNamespace) :
    d.isRecord = false ∧ d.kind.isEnumeration = false := by
  unfold Decl.isNamespace at h
  unfold Decl.isRecord
  cases hkind : d.kind <;> simp_all [Kind.isRecord, Kind.isNamespace, Kind.isEnumeration]

theorem contents_of_isRecord (hi : (g.library.tree.get i).isRecord) :
    g.contents i = g.library.bound i := by
  rw [contents, isNamespace_of_isRecord hi]
  rfl

theorem contents_of_isNamespace (hi : (g.library.tree.get i).isNamespace) :
    g.contents i = g.namespaceItems i := by
  rw [contents, if_pos hi]

theorem freeFunctions_of_isNamespace (hi : (g.library.tree.get i).isNamespace) :
    g.freeFunctions i = (g.namespaceItems i).filter fun f =>
      (g.library.tree.get f).kind.isFunction && (g.library.memberName? f).isSome := by
  rw [freeFunctions]
  simp only [hi, ↓reduceIte]

theorem freeFunctions_of_isRecord (hi : (g.library.tree.get i).isRecord) :
    g.freeFunctions i = (g.library.adopted i).filter fun f =>
      (g.library.tree.get f).kind.isFunction && (g.library.memberName? f).isSome := by
  rw [freeFunctions]
  simp only [isNamespace_of_isRecord hi, hi, Bool.false_eq_true, ↓reduceIte]

theorem freeFunctions_sublist (i : DeclId) : (g.freeFunctions i).Sublist (g.contents i) := by
  cases hns : (g.library.tree.get i).isNamespace with
  | true =>
    rw [freeFunctions_of_isNamespace hns, contents_of_isNamespace hns]
    exact List.filter_sublist
  | false =>
    cases hrecord : (g.library.tree.get i).isRecord with
    | true =>
      rw [freeFunctions_of_isRecord hrecord, contents_of_isRecord hrecord]
      exact List.filter_sublist.trans (List.sublist_append_right _ _)
    | false =>
      rw [freeFunctions]
      simp only [hns, hrecord, Bool.false_eq_true, ↓reduceIte, List.filter_nil]
      exact List.nil_sublist _

/-! ## Regions of a plan -/

/-- A region that begins by defining a module defines no class. -/
theorem opensSoundly_of_defineModule {handle ruby : String} {parent : Option String}
    {rest : List Statement} (h : r.body = .defineModule handle ruby parent :: rest) :
    g.OpensSoundly r := by
  intro handle' cpp superclass parent' ruby' hhead
  rw [h] at hhead
  cases hhead

/-- Every region of a plan is a director's or a declaration's. -/
theorem PlanFor.region_cases {unplanned : List DeclId} {p : Plan}
    (h : g.PlanFor claimed unplanned i p) :
    ∀ r ∈ p.regions, g.DirectorRegion r ∨ ∃ o, g.RegionFor o r := by
  induction h with
  | enumeration _ hr =>
    intro r hmem
    rw [Plan.regions, Plan.regionsOf, List.mem_singleton] at hmem
    rw [hmem]
    exact .inr ⟨_, hr⟩
  | holder _ _ hr hdirectors hlength _ ih =>
    intro r hmem
    rw [Plan.regions, List.mem_cons, Plan.mem_regionsOf] at hmem
    rcases hmem with rfl | ⟨q, hq, hmem⟩
    · exact .inr ⟨_, hr⟩
    rcases List.mem_append.mp hq with hq | hq
    · obtain ⟨d, rfl, hd⟩ := hdirectors q hq
      rw [Plan.regions, Plan.regionsOf, List.mem_singleton] at hmem
      rw [hmem]
      exact .inl hd
    · have hall := List.forall₂_iff_zip.mpr ⟨hlength, fun {c p} hcp => ih c p hcp⟩
      obtain ⟨c, -, hcases⟩ := exists_of_forall₂ hall hq
      exact hcases r hmem

/-- Whatever region of a plan begins by defining a class, it is the region of that class. -/
theorem PlanFor.opensSoundly {unplanned : List DeclId} {p : Plan}
    (h : g.PlanFor claimed unplanned i p) : ∀ r ∈ p.regions, g.OpensSoundly r := by
  intro r hr
  rcases h.region_cases r hr with hdirector | ⟨o, hregion⟩
  · exact hdirector.opens
  · exact hregion.opens

end Setting

end RubyBinding
