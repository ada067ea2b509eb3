import RubyBinding.Binding.Extension
import RubyBinding.Proofs.Alike
import RubyBinding.Proofs.Pairs
import RubyBinding.Proofs.Planning
import RubyBinding.Proofs.Variants

/-!
# What the planner makes of two libraries

Where two libraries differ in Ruby names and hand-written code only, so do the plans for them. What
may become of a name is a relation `R` that naming a setter and choosing a free name keep
(`NameRelation`). There is one lemma for each step of the planner, up to `Parallel.planOf` for a
declaration and `Parallel.extension` for an extension.
-/

namespace RubyBinding

open Code (Statement Definition Director Override Place)

/-! ## Names -/

/-- A relation between Ruby names that naming a setter and choosing a free name keep. -/
structure NameRelation (R : String → String → Prop) : Prop where
  refl : ∀ a, R a a
  setter : ∀ {a b}, R a b → R (a ++ "=") (b ++ "=")
  candidate : ∀ {taken taken' : List String} {a b : String}, List.Forall₂ R taken taken' → R a b →
    R (Fresh.candidate taken a) (Fresh.candidate taken' b)

theorem NameRelation.eq : NameRelation Eq where
  refl _ := rfl
  setter h := congrArg (· ++ "=") h
  candidate htaken h := by
    rw [List.forall₂_eq_eq_eq] at htaken
    rw [htaken, h]

/-- The Ruby name that a declaration asks for. Constructors and typedefs have none. -/
def Library.rubyName? (lib : Library) (i : DeclId) : Option String :=
  match (lib.tree.get i).kind with
  | .function _ _ | .method _ _ _ | .field _ _ _ => lib.memberName? i
  | .record _ _ => some (lib.className i)
  | .enumeration _ _ | .nspace =>
    some (constantName ((lib.renamed? i).getD (lib.tree.get i).name))
  | .ctor _ | .typedef _ => none

/-- The same declaration under names that `R` relates. -/
def Named.Alike (R : String → String → Prop) (m m' : Named) : Prop := m'.1 = m.1 ∧ R m.2 m'.2

/-- The same virtual method under names that `R` relates. -/
structure Virtual.Alike (R : String → String → Prop) (v v' : Virtual) : Prop where
  rest : v' = { v with ruby := v'.ruby }
  ruby : R v.ruby v'.ruby

/-! ## Related lists -/

section Lists

variable {α β γ δ : Type}

theorem forall₂_filterMap {S : γ → δ → Prop} {f : α → Option γ} {f' : β → Option δ} {l : List α}
    {l' : List β} (h : List.Forall₂ (fun a b => Option.Rel S (f a) (f' b)) l l') :
    List.Forall₂ S (l.filterMap f) (l'.filterMap f') := by
  induction h with
  | nil => exact .nil
  | @cons a b l l' hab _ ih =>
    rw [List.filterMap_cons, List.filterMap_cons]
    revert hab
    generalize f a = x
    generalize f' b = y
    intro hab
    cases hab with
    | none => exact ih
    | some hab => exact .cons hab ih

theorem forall₂_map {P : α → β → Prop} {S : γ → δ → Prop} {l : List α} {l' : List β} {f : α → γ}
    {f' : β → δ} (h : List.Forall₂ P l l') (hf : ∀ a b, P a b → S (f a) (f' b)) :
    List.Forall₂ S (l.map f) (l'.map f') :=
  List.forall₂_map_left_iff.mpr (List.forall₂_map_right_iff.mpr (h.imp hf))

theorem map_eq_of_forall₂ {P : α → β → Prop} {l : List α} {l' : List β} {f : α → γ} {k : β → γ}
    (h : List.Forall₂ P l l') (hf : ∀ a b, P a b → f a = k b) : l.map f = l'.map k := by
  have hmaps := forall₂_map (S := Eq) h hf
  rwa [List.forall₂_eq_eq_eq] at hmaps

theorem forall₂_zipWith {P : α → β → Prop} {S : γ → γ → Prop} {l : List α} {l' : List β}
    {f : α → δ → γ} {f' : β → δ → γ} (h : List.Forall₂ P l l')
    (hf : ∀ a b k, P a b → S (f a k) (f' b k)) (ks : List δ) :
    List.Forall₂ S (l.zipWith f ks) (l'.zipWith f' ks) := by
  induction h generalizing ks with
  | nil => exact .nil
  | cons hab _ ih =>
    cases ks with
    | nil => exact .nil
    | cons k ks => exact .cons (hf _ _ k hab) (ih ks)

theorem rel_map {P : α → β → Prop} {S : γ → δ → Prop} {x : Option α} {y : Option β} {f : α → γ}
    {f' : β → δ} (h : Option.Rel P x y) (hf : ∀ a b, P a b → S (f a) (f' b)) :
    Option.Rel S (x.map f) (y.map f') := by
  cases h with
  | some hab => exact .some (hf _ _ hab)
  | none => exact .none

theorem rel_getD {S : α → β → Prop} {x : Option α} {y : Option β} {a : α} {b : β}
    (h : Option.Rel S x y) (hab : S a b) : S (x.getD a) (y.getD b) := by
  cases h with
  | some hxy => exact hxy
  | none => exact hab

theorem rel_find? {S : α → β → Prop} {l : List α} {l' : List β} {p : α → Bool} {q : β → Bool}
    (h : List.Forall₂ S l l') (hp : ∀ a b, S a b → p a = q b) :
    Option.Rel S (l.find? p) (l'.find? q) := by
  induction h with
  | nil => exact .none
  | @cons a b l l' hab _ ih =>
    rw [List.find?_cons, List.find?_cons, ← hp a b hab]
    cases p a with
    | true => exact .some hab
    | false => exact ih

variable {R : String → String → Prop} {l l' : List Named}

theorem rel_lookup (h : List.Forall₂ (Named.Alike R) l l') (i : DeclId) :
    Option.Rel R (l.lookup i) (l'.lookup i) := by
  induction h with
  | nil => exact .none
  | @cons m m' l l' hm _ ih =>
    obtain ⟨j, a⟩ := m
    obtain ⟨j', b⟩ := m'
    obtain ⟨hj, hab⟩ := hm
    dsimp only at hj hab
    subst hj
    rw [List.lookup_cons, List.lookup_cons]
    cases i == j' with
    | true => exact .some hab
    | false => exact ih

theorem map_fst_of_alike (h : List.Forall₂ (Named.Alike R) l l') :
    l'.map Prod.fst = l.map Prod.fst :=
  (map_eq_of_forall₂ h fun _ _ hm => hm.1.symm).symm

theorem map_snd_of_alike (h : List.Forall₂ (Named.Alike R) l l') :
    List.Forall₂ R (l.map Prod.snd) (l'.map Prod.snd) :=
  forall₂_map h fun _ _ hm => hm.2

theorem forall₂_zip_names {names names' : List String} (h : List.Forall₂ R names names')
    (is : List DeclId) : List.Forall₂ (Named.Alike R) (is.zip names) (is.zip names') := by
  induction h generalizing is with
  | nil => rw [List.zip_nil_right]; exact .nil
  | cons hab _ ih =>
    cases is with
    | nil => exact .nil
    | cons i is => exact .cons ⟨rfl, hab⟩ (ih is)

end Lists

/-! ## Chosen names -/

namespace NameRelation

variable {R : String → String → Prop} {s t : Fresh}

theorem pickAll (hR : NameRelation R) (ht : List.Forall₂ R s.taken t.taken)
    {names names' : List String} (h : List.Forall₂ R names names') :
    List.Forall₂ R (s.pickAll names).1 (t.pickAll names').1 ∧
      List.Forall₂ R (s.pickAll names).2.taken (t.pickAll names').2.taken := by
  induction h generalizing s t with
  | nil => exact ⟨.nil, ht⟩
  | cons hab _ ih =>
    have hchosen := hR.candidate ht hab
    obtain ⟨hothers, htaken⟩ := ih (s := ⟨_ :: _⟩) (t := ⟨_ :: _⟩) (.cons hchosen ht)
    exact ⟨.cons hchosen hothers, htaken⟩

theorem distinct (hR : NameRelation R) (ht : List.Forall₂ R s.taken t.taken)
    {wanted wanted' : List Named} (h : List.Forall₂ (Named.Alike R) wanted wanted') :
    List.Forall₂ (Named.Alike R) (Library.distinct s wanted).1
        (Library.distinct t wanted').1 ∧
      List.Forall₂ R (Library.distinct s wanted).2.taken
        (Library.distinct t wanted').2.taken := by
  obtain ⟨hnames, htaken⟩ := hR.pickAll ht (map_snd_of_alike h)
  refine ⟨?_, htaken⟩
  show List.Forall₂ (Named.Alike R) ((wanted.map Prod.fst).zip _) ((wanted'.map Prod.fst).zip _)
  rw [map_fst_of_alike h]
  exact forall₂_zip_names hnames _

end NameRelation

theorem Library.rubyName?_eq_memberName? {lib : Library} {i : DeclId}
    (h : (lib.tree.get i).kind.isFunction ∨ (lib.tree.get i).kind.isMethod ∨
      (lib.tree.get i).kind.isField) : lib.rubyName? i = lib.memberName? i := by
  unfold rubyName?
  cases hk : (lib.tree.get i).kind <;>
    simp_all [Kind.isFunction, Kind.isMethod, Kind.isField]

namespace Setting

/-- Settings that differ in Ruby names and hand-written code only, where `R` relates the names that
each declaration asks for. -/
structure Parallel (R : String → String → Prop) (g g' : Setting) : Prop
    extends Setting.Variant g g' where
  names : NameRelation R
  ruby : ∀ i, Option.Rel R (g.library.rubyName? i) (g'.library.rubyName? i)

namespace Parallel

variable {R : String → String → Prop} {g g' : Setting}

theorem memberName (h : Parallel R g g') {i : DeclId}
    (hi : (g.library.tree.get i).kind.isFunction ∨ (g.library.tree.get i).kind.isMethod ∨
      (g.library.tree.get i).kind.isField) :
    Option.Rel R (g.library.memberName? i) (g'.library.memberName? i) := by
  have hi' := hi
  rw [← h.tree] at hi'
  rw [← Library.rubyName?_eq_memberName? hi, ← Library.rubyName?_eq_memberName? hi']
  exact h.ruby i

theorem className (h : Parallel R g g') {i : DeclId} (hi : (g.library.tree.get i).isRecord) :
    R (g.library.className i) (g'.library.className i) := by
  have hruby := h.ruby i
  unfold Library.rubyName? at hruby
  rw [h.tree] at hruby
  cases hk : (g.library.tree.get i).kind with
  | record isStruct bases =>
    rw [hk] at hruby
    cases hruby with
    | some hruby => exact hruby
  | _ => rw [Decl.isRecord, hk] at hi; cases hi

theorem constantName (h : Parallel R g g') {i : DeclId}
    (hi : (g.library.tree.get i).kind.isEnumeration ∨ (g.library.tree.get i).isNamespace) :
    R (RubyBinding.constantName ((g.library.renamed? i).getD (g.library.tree.get i).name))
      (RubyBinding.constantName ((g'.library.renamed? i).getD (g'.library.tree.get i).name)) := by
  have hruby := h.ruby i
  unfold Library.rubyName? at hruby
  rw [h.tree] at hruby ⊢
  rw [Decl.isNamespace] at hi
  cases hk : (g.library.tree.get i).kind with
  | enumeration isScoped values =>
    rw [hk] at hruby
    cases hruby with
    | some hruby => exact hruby
  | nspace =>
    rw [hk] at hruby
    cases hruby with
    | some hruby => exact hruby
  | _ => rw [hk] at hi; rcases hi with hi | hi <;> cases hi

theorem withNames (h : Parallel R g g') {l : List DeclId}
    (hl : ∀ i ∈ l, (g.library.tree.get i).kind.isFunction ∨
      (g.library.tree.get i).kind.isMethod ∨ (g.library.tree.get i).kind.isField) :
    List.Forall₂ (Named.Alike R) (g.library.withNames l) (g'.library.withNames l) := by
  refine forall₂_filterMap (List.forall₂_same.mpr fun i hi => ?_)
  refine rel_map (h.memberName (hl i hi)) ?_
  exact fun _ _ hname => ⟨rfl, hname⟩

/-- The members of a class under names that `R` relates. -/
structure MembersAlike (R : String → String → Prop) (m m' : Members) : Prop where
  methods : List.Forall₂ (Named.Alike R) m.methods m'.methods
  fields : List.Forall₂ (Named.Alike R) m.fields m'.fields
  adopted : List.Forall₂ (Named.Alike R) m.adopted m'.adopted

theorem members (h : Parallel R g g') (i : DeclId) :
    MembersAlike R (g.library.members i) (g'.library.members i) := by
  have hmethods := h.withNames (l := (g.library.exposed i).filter fun m =>
    (g.library.tree.get m).kind.isMethod) fun m hm => .inr (.inl (List.mem_filter.mp hm).2)
  have hfields := h.withNames (l := (g.library.exposed i).filter fun m =>
      (g.library.tree.get m).kind.isReadable) fun m hm => by
    have hreadable := (List.mem_filter.mp hm).2
    cases hk : (g.library.tree.get m).kind with
    | field ty isStatic isConst => exact .inr (.inr rfl)
    | _ => rw [hk] at hreadable; cases hreadable
  have hadopted := h.withNames (l := (g.library.adopted i).filter fun m =>
      (g.library.tree.get m).kind.isFunction || (g.library.tree.get m).kind.isMethod)
      fun m hm => by
    rcases Bool.or_eq_true_iff.mp (List.mem_filter.mp hm).2 with hm | hm
    · exact .inl hm
    · exact .inr (.inl hm)
  -- Names are chosen for methods first, then for fields, then for what was moved in.
  have first := h.names.distinct (s := {}) (t := {}) .nil hmethods
  have second := h.names.distinct first.2 hfields
  have third := h.names.distinct second.2 hadopted
  unfold Library.members
  rw [h.library.exposed, h.library.adopted, h.tree]
  exact ⟨first.1, second.1, third.1⟩

theorem heldFunctions (h : Parallel R g g') (ns : DeclId) :
    List.Forall₂ (Named.Alike R) (g.heldFunctions ns) (g'.heldFunctions ns) := by
  have hfunctions := h.withNames (l := (g.namespaceItems ns).filter fun i =>
      (g.library.tree.get i).kind.isHeldFunction) fun i hi => by
    have hheld := (List.mem_filter.mp hi).2
    cases hk : (g.library.tree.get i).kind with
    | function result params => exact .inl rfl
    | method result params flags => exact .inr (.inl rfl)
    | _ => rw [hk] at hheld; cases hheld
  unfold Setting.heldFunctions
  rw [h.namespaceItems, h.tree]
  exact (h.names.distinct (s := {}) (t := {}) .nil hfunctions).1

/-! ### Virtual methods -/

theorem ownVirtuals (h : Parallel R g g') (i : DeclId) :
    List.Forall₂ (Named.Alike R) (g.library.ownVirtuals i) (g'.library.ownVirtuals i) := by
  unfold Library.ownVirtuals
  rw [h.library.methods, h.library.isIgnored, h.tree]
  refine forall₂_filterMap (List.forall₂_same.mpr fun m hm => ?_)
  split
  · refine rel_map (h.memberName (.inr (.inl (List.mem_filter.mp hm).2))) ?_
    exact fun _ _ hname => ⟨rfl, hname⟩
  · exact .none

theorem pureVirtuals (h : Parallel R g g') (implemented : List String) (cs : List DeclId) :
    List.Forall₂ (Named.Alike R) (g.library.pureVirtuals implemented cs)
      (g'.library.pureVirtuals implemented cs) := by
  induction cs generalizing implemented with
  | nil => exact .nil
  | cons c cs ih =>
    rw [Library.pureVirtuals, Library.pureVirtuals, h.library.methods, h.tree]
    refine List.rel_append (forall₂_filterMap (List.forall₂_same.mpr fun m hm => ?_)) (ih _)
    dsimp only
    split
    · refine rel_map (h.memberName (.inr (.inl (List.mem_filter.mp hm).2))) ?_
      exact fun _ _ hname => ⟨rfl, hname⟩
    · exact .none

theorem virtuals (h : Parallel R g g') (i : DeclId) :
    List.Forall₂ (Virtual.Alike R) (g.library.virtuals i) (g'.library.virtuals i) := by
  have hall : List.Forall₂ (fun e e' : Named × Bool => e.1.Alike R e'.1 ∧ e'.2 = e.2)
      ((g.library.ownVirtuals i).map (·, false) ++ (g.library.pureVirtuals
        ((g.library.methods i).map fun m => (g.library.tree.get m).name)
        (g.library.ancestors i)).map (·, true))
      ((g'.library.ownVirtuals i).map (·, false) ++ (g'.library.pureVirtuals
        ((g.library.methods i).map fun m => (g.library.tree.get m).name)
        (g.library.ancestors i)).map (·, true)) :=
    List.rel_append (forall₂_map (h.ownVirtuals i) fun _ _ hm => ⟨hm, rfl⟩)
      (forall₂_map (h.pureVirtuals _ _) fun _ _ hm => ⟨hm, rfl⟩)
  -- Fallbacks are named for the methods, which are the same.
  have hbases := map_eq_of_forall₂ hall
    (f := fun e => "default_" ++ identifier (g.library.tree.get e.1.1).name)
    (k := fun e => "default_" ++ identifier (g.library.tree.get e.1.1).name)
    fun e e' he => by rw [he.1.1]
  unfold Library.virtuals
  rw [h.library.methods, h.library.ancestors, h.tree]
  dsimp only
  rw [← hbases]
  refine forall₂_zipWith hall ?_ _
  rintro ⟨⟨m, ruby⟩, inherited⟩ ⟨⟨m', ruby'⟩, inherited'⟩ fallback ⟨⟨hm, hruby⟩, hinherited⟩
  dsimp only at hm hruby hinherited
  subst hm hinherited
  exact ⟨rfl, hruby⟩

theorem boundVirtuals (h : Parallel R g g') (i : DeclId) {methods methods' : List Named}
    (hm : List.Forall₂ (Named.Alike R) methods methods') :
    List.Forall₂ (Virtual.Alike R) (g.library.boundVirtuals i methods)
      (g'.library.boundVirtuals i methods') := by
  refine forall₂_map (h.virtuals i) fun v v' hv => ?_
  have hmethod : v'.method = v.method := by rw [hv.rest]
  refine ⟨by rw [hv.rest], ?_⟩
  rw [hmethod]
  exact rel_getD (rel_lookup hm v.method) hv.ruby

/-! ## Steps of the planner -/

/-- Drafts for parallel settings. -/
abbrev Drafts (R : String → String → Prop) (g g' : Setting) : Draft → Draft → Prop :=
  Draft.Alike R g.library g'.library

/-- Plans for parallel settings. -/
abbrev Plans (R : String → String → Prop) (g g' : Setting) : Plan → Plan → Prop :=
  Plan.Alike R g.library g'.library

section Members

variable {ruby ruby' : String}

theorem bindForward (h : Parallel R g g') (i : DeclId) (receiver : Receiver) (place : Place)
    (hruby : R ruby ruby') :
    Gen.Agree (Drafts R g g') (g.bindForward i receiver place ruby)
      (g'.bindForward i receiver place ruby') := by
  unfold Setting.bindForward
  rw [h.forward]
  refine .bind_same _ fun f => ?_
  refine .pure ⟨rfl, Code.Definition.alike_all _, ?_, .nil⟩
  exact .cons (.bind hruby place f.name) .nil

/-- The director of a class, if it has one, with the same name and virtual methods. -/
abbrev DirectorsAlike (R : String → String → Prop) :
    Option (String × List Virtual) → Option (String × List Virtual) → Prop :=
  Option.Rel fun d d' => d'.1 = d.1 ∧ List.Forall₂ (Virtual.Alike R) d.2 d'.2

theorem bindMethod (h : Parallel R g g') (c : Target)
    {director director' : Option (String × List Virtual)}
    (hdirector : DirectorsAlike R director director') {m m' : Named} (hm : m.Alike R m') :
    Gen.Agree (Drafts R g g') (g.bindMethod c director m) (g'.bindMethod c director' m') := by
  obtain ⟨i, ruby⟩ := m
  obtain ⟨i', ruby'⟩ := m'
  obtain ⟨hi, hruby⟩ := hm
  dsimp only at hi hruby
  subst hi
  unfold Setting.bindMethod
  dsimp only
  rw [h.tree]
  cases (g.library.tree.get i').kind with
  | method result params flags =>
    dsimp only
    have plain : Gen.Agree (Drafts R g g')
        (if flags.isStatic then g.bindForward i' .ignored (.singleton c.handle) ruby
          else g.bindForward i' (.object c.cpp) (.method c.handle) ruby)
        (if flags.isStatic then g'.bindForward i' .ignored (.singleton c.handle) ruby'
          else g'.bindForward i' (.object c.cpp) (.method c.handle) ruby') := by
      split
      · exact h.bindForward i' _ _ hruby
      · exact h.bindForward i' _ _ hruby
    cases hdirector with
    | none => exact plain
    | @some d d' hd =>
      obtain ⟨name, virtuals⟩ := d
      obtain ⟨name', virtuals'⟩ := d'
      obtain ⟨hname, hvirtuals⟩ := hd
      dsimp only at hname hvirtuals
      subst hname
      cases flags.isVirtual with
      | false => exact plain
      | true =>
        have hfind := rel_find? (p := fun v => v.method == i') (q := fun v => v.method == i')
          hvirtuals fun v v' hv => by rw [hv.rest]
        dsimp only
        revert hfind
        generalize virtuals.find? (fun v => v.method == i') = found
        generalize virtuals'.find? (fun v => v.method == i') = found'
        intro hfind
        cases hfind with
        | none => exact .pure (.refl rfl)
        | some hv =>
          rw [hv.rest]
          exact .pure (.statement (.bind hruby _ _))
  | _ => exact .pure (.refl rfl)

theorem bindField (h : Parallel R g g') (c : Target) {f f' : Named} (hf : f.Alike R f') :
    Run.Agree (Drafts R g g') (g.bindField c f) (g'.bindField c f') := by
  obtain ⟨i, ruby⟩ := f
  obtain ⟨i', ruby'⟩ := f'
  obtain ⟨hi, hruby⟩ := hf
  dsimp only at hi hruby
  subst hi
  unfold Setting.bindField
  rw [h.tree, h.accessors]
  refine .bind_same _ fun a => ?_
  cases a with
  | none => exact .pure (.refl rfl)
  | some a =>
    refine .pure ⟨rfl, Code.Definition.alike_all _, ?_, .nil⟩
    refine .cons (.bind hruby _ _) ?_
    cases a.setter with
    | none => exact .nil
    | some setter => exact .cons (.bind (h.names.setter hruby) _ _) .nil

theorem bindAdopted (h : Parallel R g g') (c : Target) (i : DeclId) (hruby : R ruby ruby') :
    Gen.Agree (Drafts R g g') (g.bindAdopted c (i, ruby)) (g'.bindAdopted c (i, ruby')) := by
  unfold Setting.bindAdopted
  dsimp only
  rw [h.tree, h.library.isInstanceMethod, h.library.classType, h.includesFor]
  refine .bind (h.bindForward _ _ _ hruby) fun d d' hd => .pure ?_
  exact ⟨rfl, hd.definitions, hd.body, hd.parts⟩

end Members

theorem override? (h : Parallel R g g') {v v' : Virtual} (hv : v.Alike R v') :
    Option.Rel (Code.Override.Alike R) (g.library.override? v) (g'.library.override? v') := by
  obtain ⟨method, ruby, fallback, isInherited⟩ := v
  obtain ⟨method', ruby', fallback', isInherited'⟩ := v'
  obtain ⟨hrest, hruby⟩ := hv
  cases hrest
  unfold Library.override?
  dsimp only at hruby ⊢
  rw [h.library.resolve, h.library.slots, h.tree]
  cases (g.library.tree.get method).kind with
  | method result params flags => exact .some ⟨rfl, hruby⟩
  | _ => exact .none

theorem directorPlan (h : Parallel R g g') (name : String) (i : DeclId) (cpp handle : String)
    (ctor : Option (List Param)) {virtuals virtuals' : List Virtual}
    (hvirtuals : List.Forall₂ (Virtual.Alike R) virtuals virtuals') :
    Run.Agree (Plans R g g') (g.directorPlan name i cpp handle ctor virtuals)
      (g'.directorPlan name i cpp handle ctor virtuals') := by
  have hoverrides := forall₂_filterMap (hvirtuals.imp fun _ _ hv => h.override? hv)
  have registered : ∀ construct : List Statement,
      Drafts R g g'
        { includes := ["#include <rice/Director.hpp>"]
          definitions := [.director ⟨name, cpp, ctor.map (g.library.slots i),
            virtuals.filterMap g.library.override?⟩]
          body := .defineDirector handle name :: construct }
        { includes := ["#include <rice/Director.hpp>"]
          definitions := [.director ⟨name, cpp, ctor.map (g.library.slots i),
            virtuals'.filterMap g'.library.override?⟩]
          body := .defineDirector handle name :: construct } := by
    intro construct
    exact ⟨rfl, .cons (.director ⟨rfl, hoverrides⟩) .nil, Code.Statement.alike_all _, .nil⟩
  unfold Setting.directorPlan
  dsimp only
  rw [h.library.slots, h.resolveParam]
  cases ctor with
  | none => exact .pure ((registered []).toPlan name none "")
  | some params =>
    refine .bind_same _ fun types => ?_
    exact .pure ((registered _).toPlan name none "")

theorem constructed (h : Parallel R g g') (c : Target) (ctor : Option (List Param)) :
    Run.Agree (Drafts R g g') (g.bindCtor c ctor) (g'.bindCtor c ctor) := by
  rw [h.bindCtor]
  cases ctor with
  | none => exact .pure (.refl rfl)
  | some params =>
    refine .bind_same _ fun types => ?_
    exact .pure (.statement (.same _))

/-- What is nested is planned alike. -/
def NestedAlike (R : String → String → Prop) (g g' : Setting) (nested nested' : Nested) : Prop :=
  ∀ parent i, Gen.Agree (Option.Rel (Plans R g g')) (nested parent i) (nested' parent i)

theorem toList_of_rel {α β : Type} {S : α → β → Prop} {x : Option α} {y : Option β}
    (h : Option.Rel S x y) : List.Forall₂ S x.toList y.toList := by
  cases h with
  | none => exact .nil
  | some hab => exact .cons hab .nil

variable {nested nested' : Nested}

theorem bindInside (h : Parallel R g g') (hn : NestedAlike R g g' nested nested') (c : Target)
    {adopted adopted' : List Named} (hadopted : List.Forall₂ (Named.Alike R) adopted adopted')
    (i : DeclId) :
    Gen.Agree (Drafts R g g') (g.bindInside nested c adopted i)
      (g'.bindInside nested' c adopted' i) := by
  unfold Setting.bindInside
  dsimp only
  rw [h.tree]
  split
  · exact .bind (hn _ i) fun p p' hp => .pure (.ofParts (toList_of_rel hp))
  · have hlookup := rel_lookup hadopted i
    revert hlookup
    generalize adopted.lookup i = x
    generalize adopted'.lookup i = y
    intro hlookup
    cases hlookup with
    | none => exact .pure (.refl rfl)
    | some hruby => exact h.bindAdopted c i hruby

/-- Binding what a class holds, and putting everything together. -/
theorem classMembers (h : Parallel R g g') (hn : NestedAlike R g g' nested nested') (i : DeclId)
    (c : Target) {director director' : Option (String × List Virtual)}
    (hdirector : DirectorsAlike R director director') {head head' construct construct' : Draft}
    (hhead : Drafts R g g' head head') (hconstruct : Drafts R g g' construct construct')
    (name handle : String) :
    Gen.Agree (Plans R g g')
      (do
        let methods ← (g.library.members i).methods.mapM (g.bindMethod c director)
        let fields ← (g.library.members i).fields.mapM fun f =>
          (liftM (g.bindField c f) : Gen Draft)
        let inside ← (g.library.exposed i ++ g.library.adopted i).mapM
          (g.bindInside nested c (g.library.members i).adopted)
        return (Draft.join ([head, construct] ++ methods ++ fields ++ inside ++ [{
          definitions := CodeLists.definitions (g.library.note i).customCode
          body := CodeLists.body handle (g.library.note i).customCode }])).toPlan name (some i)
            handle)
      (do
        let methods ← (g'.library.members i).methods.mapM (g'.bindMethod c director')
        let fields ← (g'.library.members i).fields.mapM fun f =>
          (liftM (g'.bindField c f) : Gen Draft)
        let inside ← (g'.library.exposed i ++ g'.library.adopted i).mapM
          (g'.bindInside nested' c (g'.library.members i).adopted)
        return (Draft.join ([head', construct'] ++ methods ++ fields ++ inside ++ [{
          definitions := CodeLists.definitions (g'.library.note i).customCode
          body := CodeLists.body handle (g'.library.note i).customCode }])).toPlan name (some i)
            handle) := by
  have hmembers := h.members i
  rw [h.library.exposed, h.library.adopted]
  refine .bind (.mapM hmembers.methods fun m m' hm => h.bindMethod c hdirector hm) ?_
  intro methods methods' hmethods
  refine .bind (.mapM hmembers.fields fun f f' hf => .lift (h.bindField c hf)) ?_
  intro fields fields' hfields
  refine .bind (.mapM_same _ fun j _ => h.bindInside hn c hmembers.adopted j) ?_
  intro inside inside' hinside
  refine .pure ?_
  rw [Draft.join_concat, Draft.join_concat]
  refine Draft.Alike.toCodedPlan (.join ?_) name i handle
  exact List.rel_append (List.rel_append (List.rel_append
    (.cons hhead (.cons hconstruct .nil)) hmethods) hfields) hinside

theorem classPlan (h : Parallel R g g') (hn : NestedAlike R g g' nested nested')
    (parent : Option String) {i : DeclId} (hi : (g.library.tree.get i).isRecord) :
    Gen.Agree (Plans R g g') (g.classPlan nested parent i) (g'.classPlan nested' parent i) := by
  have hvirtuals := h.boundVirtuals i (h.members i).methods
  have hempty : (g'.library.boundVirtuals i (g'.library.members i).methods).isEmpty =
      (g.library.boundVirtuals i (g.library.members i).methods).isEmpty := by
    rw [Bool.eq_iff_iff, List.isEmpty_iff_length_eq_zero, List.isEmpty_iff_length_eq_zero,
      hvirtuals.length_eq]
  unfold Setting.classPlan
  dsimp only
  rw [h.library.superclass?, h.library.classType, h.library.ctorParams?, h.includesFor, h.tree,
    hempty]
  refine .bind_same _ fun superclass => ?_
  refine .bind_same _ fun handle => ?_
  have hhead : Drafts R g g'
      { includes := ["#include <rice/Class.hpp>", "#include <rice/Data_Type.hpp>",
          "#include <rice/Constructor.hpp>"] ++ g.includesFor i
        body := [.defineClass handle (g.library.classType i)
          (superclass.map g.library.classType) parent (g.library.className i)] }
      { includes := ["#include <rice/Class.hpp>", "#include <rice/Data_Type.hpp>",
          "#include <rice/Constructor.hpp>"] ++ g.includesFor i
        body := [.defineClass handle (g.library.classType i)
          (superclass.map g.library.classType) parent (g'.library.className i)] } :=
    ⟨rfl, .nil, .cons (.defineClass (h.className hi) _ _ _ _) .nil, .nil⟩
  split
  · refine .bind (.lift (h.constructed _ _)) ?_
    intro construct construct' hconstruct
    refine .bind (R := fun x x' => DirectorsAlike R x.1 x'.1 ∧ Drafts R g g' x.2 x'.2)
      (.pure ⟨.none, hconstruct⟩) ?_
    rintro ⟨director, construct⟩ ⟨director', construct'⟩ ⟨hdirector, hconstruct⟩
    exact h.classMembers hn i _ hdirector hhead hconstruct _ handle
  · refine .bind_same _ fun name => ?_
    refine .bind (.lift (h.directorPlan name i _ handle _ hvirtuals)) ?_
    intro plan plan' hplan
    refine .bind (R := fun x x' => DirectorsAlike R x.1 x'.1 ∧ Drafts R g g' x.2 x'.2)
      (.pure ⟨.some ⟨rfl, hvirtuals⟩, .ofParts (.cons hplan .nil)⟩) ?_
    rintro ⟨director, construct⟩ ⟨director', construct'⟩ ⟨hdirector, hconstruct⟩
    exact h.classMembers hn i _ hdirector hhead hconstruct _ handle

/-! ### Enumerations and namespaces -/

theorem enumPlan (h : Parallel R g g') (parent : Option String) (i : DeclId) :
    Run.Agree (Plans R g g') (g.enumPlan parent i) (g'.enumPlan parent i) := by
  have hvalue : g'.library.enumeratorName = g.library.enumeratorName := by
    funext j isScoped name
    rw [Library.enumeratorName, Library.enumeratorName, h.tree]
  have hruby := h.ruby i
  unfold Library.rubyName? at hruby
  unfold Setting.enumPlan
  dsimp only
  rw [h.tree, hvalue, h.includesFor]
  rw [h.tree] at hruby
  cases hk : (g.library.tree.get i).kind with
  | enumeration isScoped values =>
    rw [hk] at hruby
    dsimp only
    refine .bind_same _ fun handle => ?_
    cases hruby with
    | some hruby =>
      refine .pure (Draft.Alike.toPlan ?_ _ _ _)
      exact ⟨rfl, .nil, .cons (.defineEnum hruby _ _ _) (Code.Statement.alike_all _), .nil⟩
  | _ => exact .pure (Draft.Alike.toPlan (.refl rfl) _ _ _)

theorem bindHeld (h : Parallel R g g') (holder : Holder) (i : DeclId) {ruby ruby' : String}
    (hruby : R ruby ruby') :
    Gen.Agree (Drafts R g g') (g.bindHeld holder (i, ruby)) (g'.bindHeld holder (i, ruby')) := by
  unfold Setting.bindHeld
  dsimp only
  rw [h.includesFor]
  refine .bind (h.bindForward _ _ _ hruby) fun d d' hd => .pure ?_
  exact ⟨rfl, hd.definitions, hd.body, hd.parts⟩

theorem bindItem (h : Parallel R g g') (hn : NestedAlike R g g' nested nested') (holder : Holder)
    {functions functions' : List Named}
    (hfunctions : List.Forall₂ (Named.Alike R) functions functions') (i : DeclId) :
    Gen.Agree (Drafts R g g') (g.bindItem nested holder functions i)
      (g'.bindItem nested' holder functions' i) := by
  have planned : Gen.Agree (Drafts R g g')
      (do return { parts := (← nested holder.handle? i).toList })
      (do return { parts := (← nested' holder.handle? i).toList }) :=
    .bind (hn _ i) fun p p' hp => .pure (.ofParts (toList_of_rel hp))
  have hlookup := rel_lookup hfunctions i
  unfold Setting.bindItem
  rw [h.tree]
  revert hlookup
  generalize functions.lookup i = x
  generalize functions'.lookup i = y
  intro hlookup
  cases (g.library.tree.get i).kind with
  | function result params | method result params flags =>
    cases hlookup with
    | none => exact .pure (.refl rfl)
    | some hruby => exact h.bindHeld holder i hruby
  | nspace =>
    refine .bind_same _ fun s => ?_
    split
    · exact .pure (.refl rfl)
    · exact planned
  | _ => exact planned

theorem bindNamespace (h : Parallel R g g') (hn : NestedAlike R g g' nested nested')
    (holder : Holder) (ns : DeclId) :
    Gen.Agree (Drafts R g g') (g.bindNamespace nested holder ns)
      (g'.bindNamespace nested' holder ns) := by
  unfold Setting.bindNamespace
  rw [h.namespaceItems]
  refine .bind (.mapM_same _ fun i _ => h.bindItem hn holder (h.heldFunctions ns) i) ?_
  exact fun ds ds' hds => .pure (.join hds)

/-- The start of a module under names that `R` relates. -/
theorem opened (g g' : Setting) {ruby ruby' : String} (hruby : R ruby ruby') (name : String)
    (parent : Option String) :
    Run.Agree (fun opened opened' : String × Draft => opened'.1 = opened.1 ∧
      Drafts R g g' opened.2 opened'.2) (openModule name ruby parent)
      (openModule name ruby' parent) := by
  unfold openModule
  refine .bind_same _ fun handle => ?_
  exact .pure ⟨rfl, rfl, .nil, .cons (.defineModule hruby _ _) .nil, .nil⟩

theorem namespacePlan (h : Parallel R g g') (hn : NestedAlike R g g' nested nested')
    (parent : Option String) {ns : DeclId} (hns : (g.library.tree.get ns).isNamespace) :
    Gen.Agree (Plans R g g') (g.namespacePlan nested parent ns)
      (g'.namespacePlan nested' parent ns) := by
  have hruby := h.constantName (.inr hns)
  unfold Setting.namespacePlan
  dsimp only
  rw [h.tree] at hruby ⊢
  refine .bind (.lift (opened g g' hruby _ parent)) ?_
  rintro ⟨handle, head⟩ ⟨handle', head'⟩ ⟨hhandle, hhead⟩
  dsimp only at hhandle hhead
  subst hhandle
  refine .bind (h.bindNamespace hn _ ns) fun inside inside' hinside => .pure ?_
  exact (hhead.append hinside).toPlan _ _ _

/-! ### The walk -/

/-- **Planning a declaration in parallel settings** gives plans that say the same but for names and
hand-written code, or fails alike. -/
theorem planOf (h : Parallel R g g') (unplanned : List DeclId) (parent : Option String)
    (i : DeclId) :
    Gen.Agree (Option.Rel (Plans R g g')) (g.planOf unplanned parent i)
      (g'.planOf unplanned parent i) := by
  -- By induction on how much is left to be planned; the cases are those of `planOf`.
  induction hn : unplanned.length using Nat.strongRecOn generalizing unplanned parent i with
  | ind n ih =>
    subst hn
    rw [Setting.planOf, Setting.planOf, h.tree]
    dsimp only
    split
    · exact .pure .none
    split
    · exact .bind (.lift (h.enumPlan parent i)) fun p p' hp => .pure (.some hp)
    split
    · next hkind =>
      split
      · next hi =>
        have hnested : NestedAlike R g g' (fun p c => g.planOf (unplanned.erase i) p c)
            (fun p c => g'.planOf (unplanned.erase i) p c) := by
          intro p c
          refine ih _ ?_ _ p c rfl
          have := List.length_erase_of_mem hi
          have := List.length_pos_of_mem hi
          omega
        split
        · next hrecord => exact .map (h.classPlan hnested parent hrecord) fun _ _ hp => .some hp
        · next hrecord =>
          have hns := (Bool.or_eq_true_iff.mp hkind).resolve_left hrecord
          exact .map (h.namespacePlan hnested parent hns) fun _ _ hp => .some hp
      · exact .throw _
    · exact .pure .none

theorem plan (h : Parallel R g g') : NestedAlike R g g' g.plan g'.plan := by
  intro parent i
  unfold Setting.plan
  rw [h.tree]
  exact h.planOf _ parent i

/-! ## Extensions -/

mutual

theorem modulePlan (h : Parallel R g g') (parent : Option String) (m : ModuleSpec) :
    Gen.Agree (Plans R g g') (g.modulePlan parent m) (g'.modulePlan parent m) := by
  obtain ⟨name, nspace, modules⟩ := m
  rw [Setting.modulePlan, Setting.modulePlan]
  refine .bind (.lift (opened g g' (h.names.refl _) name parent)) ?_
  rintro ⟨handle, head⟩ ⟨handle', head'⟩ ⟨hhandle, hhead⟩
  dsimp only at hhandle hhead
  subst hhandle
  have rest : ∀ inside inside', Drafts R g g' inside inside' → Gen.Agree (Plans R g g')
      (do
        let submodules ← g.modulePlans (some handle') modules
        return (head ++ inside ++ { parts := submodules }).toPlan name nspace handle')
      (do
        let submodules ← g'.modulePlans (some handle') modules
        return (head' ++ inside' ++ { parts := submodules }).toPlan name nspace handle') := by
    intro inside inside' hinside
    refine .bind (modulePlans h (some handle') modules) fun ps ps' hps => .pure ?_
    exact ((hhead.append hinside).append (.ofParts hps)).toPlan name nspace handle'
  cases nspace with
  | none => exact rest {} {} (.refl rfl)
  | some ns => exact .bind (h.bindNamespace h.plan _ ns) rest

theorem modulePlans (h : Parallel R g g') (parent : Option String) (ms : List ModuleSpec) :
    Gen.Agree (List.Forall₂ (Plans R g g')) (g.modulePlans parent ms)
      (g'.modulePlans parent ms) := by
  cases ms with
  | nil =>
    rw [Setting.modulePlans, Setting.modulePlans]
    exact .pure .nil
  | cons m ms =>
    rw [Setting.modulePlans, Setting.modulePlans]
    refine .bind (modulePlan h parent m) fun p p' hp => ?_
    exact .bind (modulePlans h parent ms) fun ps ps' hps => .pure (.cons hp hps)

end

theorem extensionRegion (h : Parallel R g g') (name : String) {inside inside' : Draft}
    (hinside : Drafts R g g' inside inside') :
    (g.extensionRegion name inside).Alike R (g'.extensionRegion name inside') := by
  have hhead : Drafts R g g' {
      includes := "#include <rice/Class.hpp>" :: g.furtherIncludes
      body := [.frame "extern \"C\"", .frame ("void Init_" ++ name ++ "() \x7b")] } {
      includes := "#include <rice/Class.hpp>" :: g'.furtherIncludes
      body := [.frame "extern \"C\"", .frame ("void Init_" ++ name ++ "() \x7b")] } := by
    rw [h.furtherIncludes]
    exact .refl rfl
  have hend : Drafts R g g' { body := [.frame "\x7d"] } { body := [.frame "\x7d"] } := .refl rfl
  exact ((hhead.append hinside).append hend).region name none ""

/-- **Planning an extension in parallel settings** gives plans that say the same but for names and
hand-written code, or fails alike. -/
theorem extension (h : Parallel R g g') (name : String) (ns : Option DeclId)
    (modules : List ModuleSpec) :
    Gen.Agree (fun e e' : Extension => e.root.node = none ∧ e.root.Alike R e'.root ∧
        List.Forall₂ (Plans R g g') e.parts e'.parts)
      (g.extension name ns modules) (g'.extension name ns modules) := by
  unfold Setting.extension
  dsimp only
  refine .bind_same _ fun _ => ?_
  have rest : ∀ inside inside', Drafts R g g' inside inside' →
      Gen.Agree (fun e e' : Extension => e.root.node = none ∧ e.root.Alike R e'.root ∧
          List.Forall₂ (Plans R g g') e.parts e'.parts)
        (do
          let submodules ← g.modulePlans none modules
          return (⟨g.extensionRegion name inside, inside.parts ++ submodules⟩ : Extension))
        (do
          let submodules ← g'.modulePlans none modules
          return (⟨g'.extensionRegion name inside', inside'.parts ++ submodules⟩ : Extension)) := by
    intro inside inside' hinside
    refine .bind (h.modulePlans none modules) fun ps ps' hps => .pure ?_
    exact ⟨rfl, h.extensionRegion name hinside, List.rel_append hinside.parts hps⟩
  cases ns with
  | none => exact rest {} {} (.refl rfl)
  | some ns => exact .bind (h.bindNamespace h.plan .program ns) rest

end Parallel

end Setting

end RubyBinding
