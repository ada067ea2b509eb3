import RubyBinding.Context
import RubyBinding.Proofs.Needs

/-!
# What contexts remember

A context looks up a type before it resolves it. All that it has stored is what resolving would
give (`Context.Sound`); each call keeps that (`Call.run_eq`), so no call can tell a context from a
fresh one. What a call notes depends on the resolved type only, and of conversions with one
signature the first is kept. `Context.transparent` puts this together for any calls in a row.
-/

namespace RubyBinding

/-! ## Equality of types -/

namespace Ty

mutual

theorem beq_self : ∀ t : Ty, t.beq t = true
  | void | bool | float | double => rfl
  | integer w s => by simp [Ty.beq]
  | pointer t c => by simp [Ty.beq, beq_self t]
  | reference t c r => by simp [Ty.beq, beq_self t]
  | named name => by simp [Ty.beq]
  | function result params => by simp [Ty.beq, beq_self result, beqList_self params]

theorem beqList_self : ∀ ts : List Ty, Ty.beqList ts ts = true
  | [] => rfl
  | t :: ts => by simp [Ty.beqList, beq_self t, beqList_self ts]

end

mutual

theorem eq_of_beq : ∀ {t t' : Ty}, t.beq t' = true → t = t'
  | void, t', h | bool, t', h | float, t', h | double, t', h => by
    cases t' <;> first | rfl | cases h
  | integer w s, t', h => by
    cases t' with
    | integer w' s' => simpa [Ty.beq] using h
    | _ => cases h
  | pointer t c, t', h => by
    cases t' with
    | pointer t' c' =>
      simp only [Ty.beq, Bool.and_eq_true, beq_iff_eq] at h
      rw [eq_of_beq h.1, h.2]
    | _ => cases h
  | reference t c r, t', h => by
    cases t' with
    | reference t' c' r' =>
      simp only [Ty.beq, Bool.and_eq_true, beq_iff_eq] at h
      rw [eq_of_beq h.1.1, h.1.2, h.2]
    | _ => cases h
  | named name, t', h => by
    cases t' with
    | named name' => simpa [Ty.beq] using h
    | _ => cases h
  | function result params, t', h => by
    cases t' with
    | function result' params' =>
      simp only [Ty.beq, Bool.and_eq_true] at h
      rw [eq_of_beq h.1, eq_of_beqList h.2]
    | _ => cases h

theorem eq_of_beqList : ∀ {ts ts' : List Ty}, Ty.beqList ts ts' = true → ts = ts'
  | [], ts', h => by
    cases ts' with
    | nil => rfl
    | cons t' ts' => cases h
  | t :: ts, ts', h => by
    cases ts' with
    | nil => cases h
    | cons t' ts' =>
      simp only [Ty.beqList, Bool.and_eq_true] at h
      rw [eq_of_beq h.1, eq_of_beqList h.2]

end

instance : LawfulBEq Ty where
  rfl := beq_self _
  eq_of_beq := eq_of_beq

end Ty

/-! ## Resolving a type -/

mutual

/-- Whether a type is another one, that was written in a scope, with each name in it replaced: a
name that is known there by the spelling of what it denotes, and one that is not by itself. -/
inductive Library.Resolves (lib : Library) (scope : DeclId) : Ty → Ty → Prop
  | void : lib.Resolves scope .void .void
  | bool : lib.Resolves scope .bool .bool
  | float : lib.Resolves scope .float .float
  | double : lib.Resolves scope .double .double
  | integer (w : Width) (s : Bool) : lib.Resolves scope (.integer w s) (.integer w s)
  | pointer {t t' : Ty} (h : lib.Resolves scope t t') (c : Bool) :
      lib.Resolves scope (.pointer t c) (.pointer t' c)
  | reference {t t' : Ty} (h : lib.Resolves scope t t') (c r : Bool) :
      lib.Resolves scope (.reference t c r) (.reference t' c r)
  | known {name : String} {i : DeclId} (h : lib.tree.resolve? scope name = some i) :
      lib.Resolves scope (.named name) (.named (lib.classType i))
  | unknown {name : String} (h : lib.tree.resolve? scope name = none) :
      lib.Resolves scope (.named name) (.named name)
  | function {result result' : Ty} {params params' : List Ty}
      (h : lib.Resolves scope result result') (hs : lib.ResolvesAll scope params params') :
      lib.Resolves scope (.function result params) (.function result' params')

/-- The same for lists of types. -/
inductive Library.ResolvesAll (lib : Library) (scope : DeclId) : List Ty → List Ty → Prop
  | nil : lib.ResolvesAll scope [] []
  | cons {t t' : Ty} {ts ts' : List Ty} (h : lib.Resolves scope t t')
      (hs : lib.ResolvesAll scope ts ts') : lib.ResolvesAll scope (t :: ts) (t' :: ts')

end

namespace Library

variable {lib : Library} {scope : DeclId}

theorem resolveName_of_known {name : String} {i : DeclId}
    (h : lib.tree.resolve? scope name = some i) : lib.resolveName scope name = lib.classType i := by
  rw [resolveName, h]

theorem resolveName_of_unknown {name : String} (h : lib.tree.resolve? scope name = none) :
    lib.resolveName scope name = name := by
  rw [resolveName, h]

mutual

theorem resolves_mapNames : ∀ t : Ty, lib.Resolves scope t (t.mapNames (lib.resolveName scope))
  | .void => .void
  | .bool => .bool
  | .float => .float
  | .double => .double
  | .integer w s => .integer w s
  | .pointer t c => .pointer (resolves_mapNames t) c
  | .reference t c r => .reference (resolves_mapNames t) c r
  | .named name => by
    rw [Ty.mapNames]
    cases hname : lib.tree.resolve? scope name with
    | some i =>
      rw [resolveName_of_known hname]
      exact .known hname
    | none =>
      rw [resolveName_of_unknown hname]
      exact .unknown hname
  | .function result params => .function (resolves_mapNames result) (resolvesAll_mapNames params)

theorem resolvesAll_mapNames :
    ∀ ts : List Ty, lib.ResolvesAll scope ts (Ty.mapNamesList (lib.resolveName scope) ts)
  | [] => .nil
  | t :: ts => .cons (resolves_mapNames t) (resolvesAll_mapNames ts)

end

mutual

theorem Resolves.eq_mapNames :
    ∀ {t t' : Ty}, lib.Resolves scope t t' → t' = t.mapNames (lib.resolveName scope)
  | _, _, .void | _, _, .bool | _, _, .float | _, _, .double | _, _, .integer _ _ => rfl
  | _, _, .pointer h c => by rw [Ty.mapNames, h.eq_mapNames]
  | _, _, .reference h c r => by rw [Ty.mapNames, h.eq_mapNames]
  | _, _, .known h => by rw [Ty.mapNames, resolveName_of_known h]
  | _, _, .unknown h => by rw [Ty.mapNames, resolveName_of_unknown h]
  | _, _, .function h hs => by rw [Ty.mapNames, h.eq_mapNames, hs.eq_mapNames]

theorem ResolvesAll.eq_mapNames : ∀ {ts ts' : List Ty}, lib.ResolvesAll scope ts ts' →
    ts' = Ty.mapNamesList (lib.resolveName scope) ts
  | _, _, .nil => rfl
  | _, _, .cons h hs => by rw [Ty.mapNamesList, h.eq_mapNames, hs.eq_mapNames]

end

/-- **Resolving a type replaces the names in it**, and that is one type only. -/
theorem resolves_iff {t t' : Ty} : lib.Resolves scope t t' ↔ t' = lib.resolve scope t := by
  constructor
  · exact Resolves.eq_mapNames
  · rintro rfl
    exact resolves_mapNames t

end Library

/-! ## Calls -/

namespace Context

/-- A call that resolves a type. -/
inductive Call where
  /-- Resolve a type, and no more. -/
  | resolve (scope : DeclId) (ty : Ty)
  | result (scope : DeclId) (ty : Ty)
  | param (scope : DeclId) (ty : Ty)

namespace Call

def scope : Call → DeclId
  | resolve scope _ | result scope _ | param scope _ => scope

def ty : Call → Ty
  | resolve _ ty | result _ ty | param _ ty => ty

/-- The call in a context. -/
def run (g : Setting) : Call → StateM Context Ty
  | resolve scope ty => Context.resolve g scope ty
  | result scope ty => resolveResult g scope ty
  | param scope ty => resolveParam g scope ty

/-- The call in a session, which remembers no types. -/
def plain (g : Setting) : Call → Run Ty
  | resolve scope ty => return g.library.resolve scope ty
  | result scope ty => g.resolveResult scope ty
  | param scope ty => g.resolveParam scope ty

/-- The conversion that a call needs, by what the type is resolved to. -/
def needed (lib : Library) : Call → Option Converter
  | resolve _ _ => none
  | result scope ty => Converter.ofResult? lib (lib.resolve scope ty)
  | param scope ty => Converter.ofParam? lib (lib.resolve scope ty)

end Call

/-- Whether all types that a context has stored are what resolving them would give. -/
def Sound (g : Setting) (c : Context) : Prop :=
  ∀ e ∈ c.resolved, e.2 = g.library.resolve e.1.1 e.1.2

variable {g : Setting} {c : Context}

/-- In a sound context, what is looked up is what resolving would give, and so is what is stored
then. -/
theorem Sound.resolve (h : Sound g c) (scope : DeclId) (t : Ty) :
    ∃ resolved, (Context.resolve g scope t).run c =
        (g.library.resolve scope t, { c with resolved }) ∧ Sound g { c with resolved } := by
  cases hlookup : c.resolved.lookup (scope, t) with
  | some done =>
    obtain ⟨before, after, hsplit, -⟩ := List.lookup_eq_some_iff.mp hlookup
    have hdone : done = g.library.resolve scope t := h ((scope, t), done) (by simp [hsplit])
    refine ⟨c.resolved, ?_, h⟩
    simp only [Context.resolve, StateT.run, hlookup, hdone]
  | none =>
    refine ⟨((scope, t), g.library.resolve scope t) :: c.resolved, ?_, ?_⟩
    · simp only [Context.resolve, StateT.run, hlookup]
    · exact List.forall_mem_cons.mpr ⟨rfl, h⟩

/-- **One call in a sound context**: it returns what resolving gives, notes what it needs, and
leaves the context sound. -/
theorem Sound.call (h : Sound g c) (call : Call) :
    ∃ resolved, (call.run g).run c = (g.library.resolve call.scope call.ty,
        { c.toSession.need (call.needed g.library) with resolved }) ∧
      Sound g { c.toSession.need (call.needed g.library) with resolved } := by
  obtain ⟨resolved, hrun, hsound⟩ := h.resolve call.scope call.ty
  refine ⟨resolved, ?_, hsound⟩
  cases call with
  | resolve scope ty => exact hrun
  | result scope ty =>
    simp only [Call.run, resolveResult, StateT.run_bind, Call.scope, Call.ty] at hrun ⊢
    rw [hrun]
    rfl
  | param scope ty =>
    simp only [Call.run, resolveParam, StateT.run_bind, Call.scope, Call.ty] at hrun ⊢
    rw [hrun]
    rfl

/-- What calls in a row make of a session. -/
def needAll (lib : Library) (s : Session) (calls : List Call) : Session :=
  calls.foldl (fun s call => s.need (call.needed lib)) s

/-- A step for each entry of a list begins with the step for the first one. -/
theorem run_mapM_cons {σ α β : Type} (f : α → StateM σ β) (a : α) (as : List α) (s : σ) :
    ((a :: as).mapM f).run s =
      (((f a).run s).1 :: ((as.mapM f).run ((f a).run s).2).1,
        ((as.mapM f).run ((f a).run s).2).2) := by
  rw [List.mapM_cons]
  rfl

/-- **Any calls in a sound context.** -/
theorem Sound.calls (h : Sound g c) (calls : List Call) :
    ∃ resolved, (calls.mapM (Call.run g)).run c =
        (calls.map fun call => g.library.resolve call.scope call.ty,
          { needAll g.library c.toSession calls with resolved }) ∧
      Sound g { needAll g.library c.toSession calls with resolved } := by
  induction calls generalizing c with
  | nil => exact ⟨c.resolved, rfl, h⟩
  | cons call calls ih =>
    obtain ⟨_, hfirst, hmid⟩ := h.call call
    obtain ⟨resolved, hrest, hsound⟩ := ih hmid
    refine ⟨resolved, ?_, hsound⟩
    rw [run_mapM_cons, hfirst, hrest]
    rfl

theorem Sound.fresh (g : Setting) (s : Session) : Sound g { s with } := List.forall_mem_nil _

/-- Calls in a session do the same. -/
theorem run_plain (calls : List Call) (s : Session) :
    (calls.mapM (Call.plain g)).run s =
      (calls.map fun call => g.library.resolve call.scope call.ty, needAll g.library s calls) := by
  induction calls generalizing s with
  | nil => rfl
  | cons call calls ih =>
    have hfirst : (call.plain g).run s =
        (g.library.resolve call.scope call.ty, s.need (call.needed g.library)) := by
      cases call <;> rfl
    rw [run_mapM_cons, hfirst, ih]
    rfl

theorem converters_needAll (lib : Library) (calls : List Call) (s : Session) :
    (needAll lib s calls).converters =
      (calls.filterMap (Call.needed lib)).foldl Converter.note s.converters := by
  induction calls generalizing s with
  | nil => rfl
  | cons call calls ih =>
    show (needAll lib (s.need (call.needed lib)) calls).converters = _
    rw [ih, List.filterMap_cons]
    cases call.needed lib <;> rfl

/-! ## The result -/

/-- **No call can tell what others were made before it.** For any calls in a row in a context in
which no types were resolved yet: each returns what it would return in a fresh context, the type
with every name replaced by the spelling of what it denotes, if it denotes anything. The conversions
that the context has noted have different signatures: they are those that the calls would note in
fresh contexts, in order, and the first one of each signature. A session, which resolves every type
anew, returns and notes the same. -/
theorem transparent (g : Setting) (names : Fresh) (claimed : List DeclId) (calls : List Call) :
    let fresh : Call → Ty × Context := fun call => (call.run g).run {}
    ∃ types c, (calls.mapM (Call.run g)).run { names, claimed } = (types, c) ∧
      types = calls.map (fun call => (fresh call).1) ∧
      List.Forall₂ (fun call t => g.library.Resolves call.scope call.ty t) calls types ∧
      (c.converters.map Converter.signature).Nodup ∧
      c.converters = (calls.flatMap fun call => (fresh call).2.converters).eraseDupsBy
        Converter.sameSignature ∧
      (calls.mapM (Call.plain g)).run { names, claimed } = (types, c.toSession) := by
  intro fresh
  have hfresh : ∀ call, (fresh call).1 = g.library.resolve call.scope call.ty ∧
      (fresh call).2.converters = (call.needed g.library).toList := by
    intro call
    obtain ⟨resolved, hrun, -⟩ := (Sound.fresh g {}).call call
    refine ⟨congrArg Prod.fst hrun, (congrArg (fun r => r.2.converters) hrun).trans ?_⟩
    dsimp only
    cases call.needed g.library <;> rfl
  obtain ⟨resolved, hrun, -⟩ := (Sound.fresh g { names, claimed }).calls calls
  have hconverters := converters_needAll g.library calls { names, claimed }
  refine ⟨_, _, hrun, ?_, ?_, ?_, ?_, run_plain calls _⟩
  · exact List.map_congr_left fun call _ => (hfresh call).1.symm
  · rw [List.forall₂_map_right_iff]
    exact List.forall₂_same.mpr fun call _ => Library.resolves_iff.mpr rfl
  · show ((needAll g.library _ calls).converters.map _).Nodup
    rw [hconverters]
    exact Converter.nodup_foldl_note _ List.nodup_nil
  · show (needAll g.library _ calls).converters = _
    have hall : (calls.flatMap fun call => (fresh call).2.converters) =
        calls.filterMap (Call.needed g.library) := by
      rw [List.flatMap_congr fun call _ => (hfresh call).2, List.filterMap_eq_flatMap_toList]
    rw [hconverters, Converter.foldl_note, List.nil_append, hall]
    congr 1
    exact List.filter_eq_self.mpr fun _ _ => rfl

end Context

end RubyBinding
