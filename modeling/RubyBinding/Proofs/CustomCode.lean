import Mathlib
import RubyBinding.Proofs.Parallels
import RubyBinding.Proofs.Requests

/-!
# Hand-written code

Code that is added to a class is kept in the order of the requests, whatever else is requested
(`customCode_requests`), and the region of the class ends with it (`classPlan_endsWithCode`). What
else is planned does not depend on it: without these requests, planning gives the same regions, less
the code (`Plan.WithCode`). Both together are `customCode_collected`.
-/

namespace RubyBinding

open Code (Statement Definition)

/-! ## Replacing -/

/-- A text whose occurrences of `part` are replaced consists of the same pieces as before, none of
which has `part` in it. -/
theorem Text.exists_pieces {part : List Char} (hpart : part ≠ []) (replacement text : List Char) :
    ∃ pieces : List (List Char), (∀ p ∈ pieces, ¬ part <:+: p) ∧
      text = part.intercalate pieces ∧
      replaceAll part replacement text = replacement.intercalate pieces := by
  -- The last piece is not at the end before everything is read, so the pieces are never none.
  suffices h : ∃ p ps, (∀ q ∈ p :: ps, ¬ part <:+: q) ∧ text = part.intercalate (p :: ps) ∧
      replaceAll part replacement text = replacement.intercalate (p :: ps) by
    obtain ⟨p, ps, h⟩ := h
    exact ⟨p :: ps, h⟩
  induction text using replaceAll.induct part with
  | case1 =>
    refine ⟨[], [], ?_, ?_, ?_⟩
    · intro q hq
      rw [List.mem_singleton.mp hq]
      simpa using hpart
    · simp
    · simp [replaceAll]
  | case2 c cs rest hafter ih =>
    obtain ⟨p, ps, hnone, htext, hreplaced⟩ := ih
    have hrest : c :: cs = part ++ rest := eq_append_of_after? hafter
    have hdrop : cs.drop (part.length - 1) = rest := by
      have hlength := List.length_pos_iff.mpr hpart
      have hcons : (c :: cs).drop part.length = rest := by rw [hrest, List.drop_left]
      rwa [← Nat.succ_pred_eq_of_pos hlength, List.drop_succ_cons] at hcons
    rw [hdrop] at htext hreplaced
    refine ⟨[], p :: ps, ?_, ?_, ?_⟩
    · refine List.forall_mem_cons.mpr ⟨?_, hnone⟩
      simpa using hpart
    · rw [List.intercalate_cons_cons, hrest, htext]
      rfl
    · rw [replaceAll, hafter, List.intercalate_cons_cons]
      dsimp only
      rw [hdrop, hreplaced]
      rfl
  | case3 c cs hafter ih =>
    obtain ⟨p, ps, hnone, htext, hreplaced⟩ := ih
    have hcons : ∀ sep : List Char,
        sep.intercalate ((c :: p) :: ps) = c :: sep.intercalate (p :: ps) := by
      intro sep
      cases ps with
      | nil => simp
      | cons q qs => simp [List.intercalate_cons_cons]
    refine ⟨c :: p, ps, ?_, ?_, ?_⟩
    · refine List.forall_mem_cons.mpr ⟨?_, (List.forall_mem_cons.mp hnone).2⟩
      rw [List.infix_cons_iff]
      rintro (hhead | hinside)
      · -- It would have been found here.
        have hhere : part <+: c :: cs := by
          rw [htext, ← hcons]
          refine hhead.trans ?_
          cases ps with
          | nil => simp
          | cons q qs => simp [List.intercalate_cons_cons]
        obtain ⟨rest, hrest⟩ := hhere
        rw [← hrest, after?_append] at hafter
        cases hafter
      · exact (List.forall_mem_cons.mp hnone).1 hinside
    · rw [hcons, ← htext]
    · rw [replaceAll, hafter, hcons]
      exact congrArg (c :: ·) hreplaced

/-! ## Requests as edits -/

/-- The code that an edit adds to a declaration. -/
def Edit.codeFor? (c : DeclId) : Edit → Option CustomCode
  | addCustomCode i code => if i = c then some code else none
  | _ => none

namespace ClassEdit

/-- What is to be said about a class, as edits. They depend on the tree alone. -/
def steps (lib : Library) (c : DeclId) : ClassEdit → Except AnnotationError (List Edit)
  | mark m => .ok [m.edit c]
  | take i => .ok [.moveTo i c]
  | takeAsInstanceMethod i =>
    if (lib.tree.get i).kind.isFunction then .ok [.moveTo i c, .setInstanceMethod i]
    else .error (.wrongKind (lib.tree.qualifiedName i) "function")
  | useSuperclass name =>
    match lib.tree.resolve? (lib.tree.scopeOf c) name with
    | some candidate => .ok [.chooseSuperclass c candidate]
    | none => .error (.notFound "class" name)
  | useCtor index =>
    match (lib.ctors c)[index]? with
    | some ctor => .ok [.chooseCtor c ctor]
    | none => .error (.notFound "constructor" (lib.tree.qualifiedName c ++ "#" ++ toString index))
  | addCustomCode code => .ok [.addCustomCode c code]
  | keepOwnName => .ok [.keepOwnName c]

end ClassEdit

namespace Request

/-- A request as edits. They depend on the tree alone. -/
def steps (lib : Library) : Request → Except AnnotationError (List Edit)
  | edit e => .ok [e]
  | onClass r e => do e.steps lib (← r.find lib)
  | onNamed n name m => do return [m.edit (← n.find lib name)]

/-- The code that a request adds to a declaration of a tree. -/
def codeFor? (t : DeclTree) (c : DeclId) : Request → Option CustomCode
  | edit e => e.codeFor? c
  | onClass r (.addCustomCode code) =>
    match r.find (Library.ofTree t) with
    | .ok i => if i = c then some code else none
    | .error _ => none
  | _ => none

end Request

namespace Library

/-- Edits one after the other, until one of them is refused. -/
def applyAll (lib : Library) (es : List Edit) : Except AnnotationError Library :=
  es.foldlM (fun lib e => e.apply lib) lib

variable {lib lib' next : Library} {r : Request} {c : DeclId}

theorem applyAll_singleton (lib : Library) (e : Edit) : lib.applyAll [e] = e.apply lib := by
  show (e.apply lib >>= fun next => pure next) = _
  exact bind_pure _

theorem classEdit_apply_eq (lib : Library) (e : ClassEdit) (c : DeclId) :
    e.apply lib c = e.steps lib c >>= lib.applyAll := by
  cases e with
  | mark m => exact (applyAll_singleton lib (m.edit c)).symm
  | take i => exact (applyAll_singleton lib (.moveTo i c)).symm
  | takeAsInstanceMethod i =>
    rw [ClassEdit.apply, ClassEdit.steps, includeAsInstanceMethod]
    split
    · rfl
    · rfl
  | useSuperclass name =>
    rw [ClassEdit.apply, ClassEdit.steps, useSuperclass]
    cases lib.tree.resolve? (lib.tree.scopeOf c) name with
    | some candidate => exact (applyAll_singleton lib (.chooseSuperclass c candidate)).symm
    | none => rfl
  | useCtor index =>
    rw [ClassEdit.apply, ClassEdit.steps, useCtor]
    cases (lib.ctors c)[index]? with
    | some ctor => exact (applyAll_singleton lib (.chooseCtor c ctor)).symm
    | none => rfl
  | addCustomCode code => exact (applyAll_singleton lib (.addCustomCode c code)).symm
  | keepOwnName => exact (applyAll_singleton lib (.keepOwnName c)).symm

/-- A request is refused where it is looked up, or it is some edits. -/
theorem apply_eq (lib : Library) (r : Request) : r.apply lib = r.steps lib >>= lib.applyAll := by
  cases r with
  | edit e => exact (applyAll_singleton lib e).symm
  | onClass ref e =>
    rw [Request.apply, Request.steps, bind_assoc]
    exact bind_congr fun i => classEdit_apply_eq lib e i
  | onNamed n name m =>
    rw [Request.apply, Request.steps, bind_assoc]
    refine bind_congr fun i => ?_
    rw [pure_bind, applyAll_singleton]

theorem classRef_find_congr (h : lib'.tree = lib.tree) (r : ClassRef) :
    r.find lib' = r.find lib := by
  cases r with
  | named name => rw [ClassRef.find, ClassRef.find, findClass, findClass, find, find, h]
  | position i => rw [ClassRef.find, ClassRef.find, asClass, asClass, h]

theorem steps_congr (h : lib'.tree = lib.tree) (r : Request) : r.steps lib' = r.steps lib := by
  cases r with
  | edit e => rfl
  | onClass ref e =>
    rw [Request.steps, Request.steps, classRef_find_congr h]
    refine bind_congr fun i => ?_
    cases e with
    | takeAsInstanceMethod i => rw [ClassEdit.steps, ClassEdit.steps, h]
    | useSuperclass name => rw [ClassEdit.steps, ClassEdit.steps, h]
    | useCtor index => rw [ClassEdit.steps, ClassEdit.steps, ctors, ctors, h]
    | _ => rfl
  | onNamed n name m =>
    have hfind : ∀ word p, lib'.find word p name = lib.find word p name := by
      intro word p
      rw [find, find, h]
    cases n with
    | function => rw [Request.steps, Request.steps, Handle.find, Handle.find, findFunction,
        findFunction, hfind]
    | method => rw [Request.steps, Request.steps, Handle.find, Handle.find, findMethod,
        findMethod, hfind]
    | enumeration => rw [Request.steps, Request.steps, Handle.find, Handle.find, findEnumeration,
        findEnumeration, hfind]

/-- A request that adds code is the one edit that does. -/
theorem steps_of_codeFor? {code : CustomCode} (h : r.codeFor? lib.tree c = some code) :
    r.steps lib = .ok [.addCustomCode c code] := by
  cases r with
  | edit e =>
    cases e with
    | addCustomCode i code' =>
      simp only [Request.codeFor?, Edit.codeFor?, Option.ite_none_right_eq_some,
        Option.some.injEq] at h
      rw [Request.steps, h.1, h.2]
    | _ => cases h
  | onClass ref e =>
    cases e with
    | addCustomCode code' =>
      have hcongr : ref.find (ofTree lib.tree) = ref.find lib := classRef_find_congr rfl ref
      rw [Request.codeFor?, hcongr] at h
      rw [Request.steps]
      cases hfind : ref.find lib with
      | error err => rw [hfind] at h; cases h
      | ok i =>
        simp only [hfind, Option.ite_none_right_eq_some, Option.some.injEq] at h
        show Except.ok [Edit.addCustomCode i code'] = _
        rw [h.1, h.2]
    | _ => cases h
  | onNamed n name m => cases h

/-- The edits of a request that adds no code add none. -/
theorem codeFor?_of_steps {es : List Edit} (h : r.codeFor? lib.tree c = none)
    (hs : r.steps lib = .ok es) : ∀ e ∈ es, e.codeFor? c = none := by
  have marked : ∀ (m : Mark) (i : DeclId), (m.edit i).codeFor? c = none := by
    intro m i
    cases m <;> rfl
  cases r with
  | edit e =>
    cases hs
    exact List.forall_mem_singleton.mpr h
  | onClass ref e =>
    obtain ⟨i, hi, hs⟩ := bind_eq_ok_iff.mp hs
    cases e with
    | mark m =>
      cases hs
      exact List.forall_mem_singleton.mpr (marked m i)
    | takeAsInstanceMethod j =>
      rw [ClassEdit.steps] at hs
      split at hs
      · cases hs
        exact List.forall_mem_cons.mpr ⟨rfl, List.forall_mem_singleton.mpr rfl⟩
      · cases hs
    | useSuperclass name =>
      rw [ClassEdit.steps] at hs
      split at hs
      · cases hs
        exact List.forall_mem_singleton.mpr rfl
      · cases hs
    | useCtor index =>
      rw [ClassEdit.steps] at hs
      split at hs
      · cases hs
        exact List.forall_mem_singleton.mpr rfl
      · cases hs
    | addCustomCode code =>
      cases hs
      have hcongr : ref.find (ofTree lib.tree) = ref.find lib := classRef_find_congr rfl ref
      rw [Request.codeFor?, hcongr, hi] at h
      exact List.forall_mem_singleton.mpr h
    | _ =>
      cases hs
      exact List.forall_mem_singleton.mpr rfl
  | onNamed n name m =>
    obtain ⟨i, hi, hs⟩ := bind_eq_ok_iff.mp hs
    cases hs
    exact List.forall_mem_singleton.mpr (marked m i)

/-! ## Code that is kept -/

theorem customCode_of_edit {e : Edit} (h : e.apply lib = .ok next) :
    (next.note c).customCode =
      (e.codeFor? c).elim (lib.note c).customCode (lib.note c).customCode.add := by
  -- Whatever is changed of a note but its code leaves the code of each note.
  have other : ∀ i (f : Annotation → Annotation), (∀ a, (f a).customCode = a.customCode) →
      ((lib.amend i f).note c).customCode = (lib.note c).customCode := by
    intro i f hf
    rw [note_amend]
    split
    next hc => rw [hf, hc]
    next => rfl
  cases e with
  | ignore i => cases h; exact other i _ fun _ => rfl
  | rename i name => cases h; exact other i _ fun _ => rfl
  | keepOwnName i => cases h; exact other i _ fun _ => rfl
  | setInstanceMethod i => cases h; exact other i _ fun _ => rfl
  | moveTo i owner =>
    obtain ⟨-, rfl⟩ := moveTo_cases h
    rfl
  | chooseSuperclass i s =>
    obtain ⟨-, rfl⟩ := chooseSuperclass_cases h
    exact other i _ fun _ => rfl
  | chooseCtor i k =>
    obtain ⟨-, rfl⟩ := chooseCtor_cases h
    exact other i _ fun _ => rfl
  | addCustomCode i code =>
    cases h
    rw [addCustomCode, note_amend, Edit.codeFor?]
    by_cases hc : c = i
    · subst hc
      rw [if_pos rfl, if_pos rfl]
      rfl
    · rw [if_neg hc, if_neg (Ne.symm hc)]
      rfl

theorem customCode_of_applyAll {es : List Edit} (h : lib.applyAll es = .ok next)
    (hes : ∀ e ∈ es, e.codeFor? c = none) :
    (next.note c).customCode = (lib.note c).customCode := by
  induction es generalizing lib with
  | nil => cases h; rfl
  | cons e es ih =>
    obtain ⟨he, hes⟩ := List.forall_mem_cons.mp hes
    obtain ⟨mid, hmid, h⟩ := bind_eq_ok_iff.mp h
    rw [ih h hes, customCode_of_edit hmid, he]
    rfl

theorem request_of_codeFor? {code : CustomCode} (h : r.codeFor? lib.tree c = some code) :
    lib.request r = lib.addCustomCode c code := by
  have happly : r.apply lib = .ok (lib.addCustomCode c code) := by
    rw [apply_eq, steps_of_codeFor? h]
    rfl
  rw [request, happly]

/-- A request adds the code that it is said to add, at the end. -/
theorem customCode_request (lib : Library) (r : Request) (c : DeclId) :
    ((lib.request r).note c).customCode =
      (r.codeFor? lib.tree c).elim (lib.note c).customCode (lib.note c).customCode.add := by
  cases hcode : r.codeFor? lib.tree c with
  | some code =>
    have happly : (Edit.addCustomCode c code).apply lib = .ok (lib.addCustomCode c code) := rfl
    rw [request_of_codeFor? hcode, customCode_of_edit happly, Edit.codeFor?, if_pos rfl]
  | none =>
    rw [request, Option.elim_none]
    cases happly : r.apply lib with
    | error err => rfl
    | ok next =>
      rw [apply_eq] at happly
      obtain ⟨es, hes, hnext⟩ := bind_eq_ok_iff.mp happly
      exact customCode_of_applyAll hnext (codeFor?_of_steps hcode hes)

/-- **The code of a class is what was added to it**, in the order of the requests. -/
theorem customCode_requests (lib : Library) (rs : List Request) (c : DeclId) :
    ((lib.requests rs).note c).customCode =
      (rs.filterMap (Request.codeFor? lib.tree c)).foldl CodeLists.add (lib.note c).customCode := by
  induction rs generalizing lib with
  | nil => rfl
  | cons r rs ih =>
    have hrest := ih (lib.request r)
    rw [request_tree, customCode_request] at hrest
    rw [List.filterMap_cons]
    cases hcode : r.codeFor? lib.tree c <;> rw [hcode] at hrest <;> exact hrest

/-! ## What does not depend on code -/

/-- Libraries that differ in the code of one declaration only. -/
structure DiffersInCode (c : DeclId) (lib lib' : Library) : Prop where
  tree : lib'.tree = lib.tree
  moves : lib'.moves = lib.moves
  here : ∃ code, lib'.note c = { lib.note c with customCode := code }
  elsewhere : ∀ i ≠ c, lib'.note i = lib.note i

namespace DiffersInCode

theorem refl (c : DeclId) (lib : Library) : DiffersInCode c lib lib :=
  ⟨rfl, rfl, ⟨_, rfl⟩, fun _ _ => rfl⟩

/-- Saying the same of a declaration in both libraries, where what is said of a note does not depend
on the code in it. -/
theorem amend (h : DiffersInCode c lib lib') (i : DeclId) (f : Annotation → Annotation)
    (hf : ∀ a code, ∃ code', f { a with customCode := code } = { f a with customCode := code' }) :
    DiffersInCode c (lib.amend i f) (lib'.amend i f) where
  tree := h.tree
  moves := h.moves
  here := by
    obtain ⟨code, hcode⟩ := h.here
    rw [note_amend, note_amend]
    by_cases hc : c = i
    · subst hc
      rw [if_pos rfl, if_pos rfl, hcode]
      exact hf _ code
    · rw [if_neg hc, if_neg hc]
      exact h.here
  elsewhere := by
    intro j hj
    rw [note_amend, note_amend]
    by_cases hji : j = i
    · subst hji
      rw [if_pos rfl, if_pos rfl, h.elsewhere j hj]
    · rw [if_neg hji, if_neg hji, h.elsewhere j hj]

/-- Adding code to the declaration in the second library only. -/
theorem addCustomCode (h : DiffersInCode c lib lib') (code : CustomCode) :
    DiffersInCode c lib (lib'.addCustomCode c code) where
  tree := h.tree
  moves := h.moves
  here := by
    obtain ⟨before, hbefore⟩ := h.here
    refine ⟨before.add code, ?_⟩
    rw [Library.addCustomCode, note_amend, if_pos rfl, hbefore]
  elsewhere := by
    intro j hj
    rw [Library.addCustomCode, note_amend, if_neg hj, h.elsewhere j hj]

/-- Reading of a note what is not its code. -/
theorem apply_note {β : Type} (h : DiffersInCode c lib lib') (f : Annotation → β)
    (hf : ∀ a code, f { a with customCode := code } = f a) (i : DeclId) :
    f (lib'.note i) = f (lib.note i) := by
  by_cases hi : i = c
  · obtain ⟨code, hcode⟩ := h.here
    rw [hi, hcode, hf]
  · rw [h.elsewhere i hi]

theorem edit (h : DiffersInCode c lib lib') (e : Edit) :
    Agreeing (DiffersInCode c) (e.apply lib) (e.apply lib') := by
  cases e with
  | ignore i => exact .ok (h.amend i _ fun _ _ => ⟨_, rfl⟩)
  | rename i name => exact .ok (h.amend i _ fun _ _ => ⟨_, rfl⟩)
  | addCustomCode i code => exact .ok (h.amend i _ fun _ _ => ⟨_, rfl⟩)
  | keepOwnName i => exact .ok (h.amend i _ fun _ _ => ⟨_, rfl⟩)
  | setInstanceMethod i => exact .ok (h.amend i _ fun _ _ => ⟨_, rfl⟩)
  | moveTo i owner =>
    have hignored : lib'.isIgnored i = lib.isIgnored i :=
      h.apply_note Annotation.isIgnored (fun _ _ => rfl) i
    rw [Edit.apply, Edit.apply, moveTo, moveTo, hignored, canOwn_congr h.tree, h.tree, h.moves]
    split
    · exact .error _
    · split
      · exact .error _
      · exact .ok ⟨rfl, rfl, h.here, h.elsewhere⟩
  | chooseSuperclass i s =>
    rw [Edit.apply, Edit.apply, chooseSuperclass, chooseSuperclass, h.tree]
    split
    · exact .ok (h.amend i _ fun _ _ => ⟨_, rfl⟩)
    · exact .error _
  | chooseCtor i k =>
    rw [Edit.apply, Edit.apply, chooseCtor, chooseCtor, h.tree]
    split
    · exact .ok (h.amend i _ fun _ _ => ⟨_, rfl⟩)
    · exact .error _

theorem applyAll (h : DiffersInCode c lib lib') (es : List Edit) :
    Agreeing (DiffersInCode c) (lib.applyAll es) (lib'.applyAll es) := by
  induction es generalizing lib lib' with
  | nil => exact .ok h
  | cons e es ih => exact .bind (h.edit e) fun _ _ h => ih h

theorem request (h : DiffersInCode c lib lib') (r : Request) :
    DiffersInCode c (lib.request r) (lib'.request r) := by
  have happly : Agreeing (DiffersInCode c) (r.apply lib) (r.apply lib') := by
    rw [apply_eq, apply_eq, steps_congr h.tree]
    refine .bind_same _ fun es => ?_
    exact h.applyAll es
  rw [Library.request, Library.request]
  revert happly
  generalize r.apply lib = x
  generalize r.apply lib' = y
  intro happly
  cases happly with
  | ok hnext => exact hnext
  | error err => exact h

/-- Leaving out the requests that add code to a declaration. -/
theorem requests (h : DiffersInCode c lib lib') (rs : List Request) :
    DiffersInCode c
      (lib.requests (rs.filter fun r => (r.codeFor? lib.tree c).isNone)) (lib'.requests rs) := by
  induction rs generalizing lib lib' with
  | nil => exact h
  | cons r rs ih =>
    cases hcode : r.codeFor? lib.tree c with
    | some code =>
      have hcode' : r.codeFor? lib'.tree c = some code := by rw [h.tree, hcode]
      rw [List.filter_cons_of_neg (by simp [hcode])]
      show DiffersInCode c _ ((lib'.request r).requests rs)
      rw [request_of_codeFor? hcode']
      exact ih (h.addCustomCode code)
    | none =>
      have hrest := ih (h.request r)
      rw [request_tree] at hrest
      rw [List.filter_cons_of_pos (by simp [hcode])]
      exact hrest

theorem variant (h : DiffersInCode c lib lib') : Variant lib lib' where
  tree := h.tree
  moves := h.moves
  note := by
    intro i
    by_cases hi : i = c
    · obtain ⟨code, hcode⟩ := h.here
      rw [hi, hcode]
    · rw [h.elsewhere i hi]

theorem rubyName? (h : DiffersInCode c lib lib') : lib'.rubyName? = lib.rubyName? := by
  have hrenamed : lib'.renamed? = lib.renamed? :=
    funext (h.apply_note Annotation.rename fun _ _ => rfl)
  have hmember : lib'.memberName? = lib.memberName? := by
    funext i
    rw [memberName?, memberName?, hrenamed, h.tree]
  have hclass : lib'.className = lib.className := by
    funext i
    rw [className, className, hrenamed, h.variant.humanizingTypedef?, h.tree]
  funext i
  rw [Library.rubyName?, Library.rubyName?, hmember, hclass, hrenamed, h.tree]

/-- Code has no part in the choice of names. -/
theorem parallel (h : DiffersInCode c lib lib') (sources includes : List String) :
    Setting.Parallel Eq ⟨lib, sources, includes⟩ ⟨lib', sources, includes⟩ where
  library := h.variant
  sources := rfl
  includes := rfl
  names := .eq
  ruby := by
    intro i
    show Option.Rel Eq (lib.rubyName? i) (lib'.rubyName? i)
    rw [h.rubyName?]
    cases lib.rubyName? i with
    | none => exact .none
    | some name => exact .some rfl

end DiffersInCode

end Library

/-! ## Plans with code and without -/

/-- The lists of some pieces of code. -/
def CodeLists.of (code : List CustomCode) : CodeLists where
  declarations := code.map CustomCode.declaration
  wrappings := code.map CustomCode.wrapping

/-- Pieces that are added one after the other stand next to each other in both lists. -/
theorem CodeLists.foldl_add (code : List CustomCode) (l : CodeLists) :
    code.foldl add l = ⟨l.declarations ++ (of code).declarations,
      l.wrappings ++ (of code).wrappings⟩ := by
  induction code generalizing l with
  | nil =>
    rw [of, List.map_nil, List.map_nil, List.append_nil, List.append_nil]
    rfl
  | cons k code ih =>
    rw [List.foldl_cons, ih, add, List.append_assoc, List.append_assoc]
    rfl

/-- The same plans, but for code at the end of regions of a class, which the second one has. -/
inductive Plan.WithCode (c : DeclId) (code : List CustomCode) : Plan → Plan → Prop
  | same (r : Region) {ps ps' : List Plan} (hlength : ps.length = ps'.length)
      (hparts : ∀ p p', (p, p') ∈ ps.zip ps' → WithCode c code p p') :
      WithCode c code (.region r ps) (.region r ps')
  | coded (r : Region) (hr : r.node = some c) {ps ps' : List Plan}
      (hlength : ps.length = ps'.length)
      (hparts : ∀ p p', (p, p') ∈ ps.zip ps' → WithCode c code p p') :
      WithCode c code (.region r ps) (.region (r.withCode (.of code)) ps')

theorem Region.withCode_nil (r : Region) : r.withCode {} = r := by
  show { r with definitions := r.definitions ++ [], body := r.body ++ [] } = r
  rw [List.append_nil, List.append_nil]

theorem Plan.Alike.withCode {c : DeclId} {lib lib' : Library}
    (h : Library.DiffersInCode c lib lib') (hnone : (lib.note c).customCode = {})
    {code : List CustomCode} (hcode : (lib'.note c).customCode = .of code) {p p' : Plan}
    (hp : p.Alike Eq lib lib' p') : p.WithCode c code p' := by
  induction hp with
  | region hr hlength hparts ih =>
    rw [← hr.eq]
    exact .same _ hlength ih
  | @coded i r r' ps ps' hi hr hlength hparts ih =>
    rw [← hr.eq]
    by_cases hic : i = c
    · subst hic
      rw [hnone, hcode, Region.withCode_nil]
      exact .coded r hi hlength ih
    · rw [h.elsewhere i hic]
      exact .same _ hlength ih

/-- A line that puts code into effect: after a tab, the code with the handle of the class in each
place where it says `<class>`. -/
def CustomCode.IsLine (handle : String) (k : CustomCode) (line : String) : Prop :=
  ∃ pieces : List String, (∀ p ∈ pieces, ¬ "<class>".toList <:+: p.toList) ∧
    k.wrapping = "<class>".intercalate pieces ∧ line = "\t" ++ handle.intercalate pieces

/-- The region that defines a class and ends with the code that was added to it. -/
structure Region.EndsWithCode (r : Region) (c : DeclId) (code : List CustomCode) : Prop where
  node : r.node = some c
  head : ∃ cpp superclass parent ruby,
    r.body.head? = some (.defineClass r.handle cpp superclass parent ruby)
  definitions : ∃ before, r.definitionLines = before ++ code.map CustomCode.declaration
  body : ∃ before lines, r.bodyLines = before ++ lines ∧
    List.Forall₂ (CustomCode.IsLine r.handle) code lines

theorem CustomCode.isLine_replaced (handle : String) (k : CustomCode) :
    k.IsLine handle ("\t" ++ Text.replaced "<class>" handle k.wrapping) := by
  have hclass : "<class>".toList ≠ [] := by simp
  obtain ⟨pieces, hnone, htext, hreplaced⟩ :=
    Text.exists_pieces hclass handle.toList k.wrapping.toList
  have joined : ∀ sep : String,
      (sep.intercalate (pieces.map String.ofList)).toList = sep.toList.intercalate pieces := by
    intro sep
    rw [String.toList_intercalate, List.map_map]
    congr 1
    exact List.map_id'' (fun _ => String.toList_ofList) pieces
  refine ⟨pieces.map String.ofList, ?_, ?_, ?_⟩
  · intro p hp
    obtain ⟨q, hq, rfl⟩ := List.mem_map.mp hp
    have hlist : (String.ofList q).toList = q := String.toList_ofList
    rw [hlist]
    exact hnone q hq
  · rw [← String.toList_inj, joined, htext]
  · rw [Text.replaced, hreplaced, ← joined, String.ofList_toList]

theorem CustomCode.flatMap_lines_definitions (code : List CustomCode) :
    (CodeLists.of code).definitions.flatMap Definition.lines = code.map CustomCode.declaration := by
  induction code with
  | nil => rfl
  | cons k code ih =>
    show [k.declaration] ++ (CodeLists.of code).definitions.flatMap Definition.lines = _
    rw [ih]
    rfl

theorem CustomCode.forall₂_isLine (handle : String) (code : List CustomCode) :
    List.Forall₂ (CustomCode.IsLine handle) code
      (((CodeLists.of code).body handle).map Statement.text) := by
  induction code with
  | nil => exact .nil
  | cons k code ih => exact .cons (k.isLine_replaced handle) ih

theorem Region.endsWithCode_withCode {r : Region} {c : DeclId} (hnode : r.node = some c)
    (hhead : ∃ cpp superclass parent ruby,
      r.body.head? = some (.defineClass r.handle cpp superclass parent ruby))
    (code : List CustomCode) : (r.withCode (.of code)).EndsWithCode c code where
  node := hnode
  head := by
    obtain ⟨cpp, superclass, parent, ruby, hhead⟩ := hhead
    refine ⟨cpp, superclass, parent, ruby, ?_⟩
    show (r.body ++ (CodeLists.of code).body r.handle).head? = _
    rw [List.head?_append, hhead]
    rfl
  definitions := by
    refine ⟨r.definitionLines, ?_⟩
    rw [← CustomCode.flatMap_lines_definitions]
    exact List.flatMap_append
  body := by
    refine ⟨r.bodyLines, _, List.map_append, ?_⟩
    exact CustomCode.forall₂_isLine r.handle code

namespace Setting

theorem yields_any {α : Type} (m : Gen α) :
    Gen.Yields (fun _ => True) m (fun _ => True) fun _ => True := by
  intro s _
  split <;> exact ⟨trivial, trivial⟩

/-- The region of a class, put together from drafts with its code at the end. -/
theorem toPlan_endsWithCode {head : Draft} {handle : String} {ds : List Draft} {c : DeclId}
    (hhead : ∃ cpp superclass parent ruby,
      head.body = [.defineClass handle cpp superclass parent ruby])
    (code : List CustomCode) (name : String) :
    ∃ r parts, (Draft.join (head :: ds ++ [{
        definitions := (CodeLists.of code).definitions
        body := (CodeLists.of code).body handle }])).toPlan name (some c) handle = .region r parts ∧
      r.EndsWithCode c code := by
  rw [Draft.join_concat, Draft.toPlan_append_code]
  refine ⟨_, _, rfl, Region.endsWithCode_withCode rfl ?_ code⟩
  obtain ⟨cpp, superclass, parent, ruby, hhead⟩ := hhead
  refine ⟨cpp, superclass, parent, ruby, ?_⟩
  show (head.body ++ (Draft.join ds).body).head? = _
  rw [hhead]
  rfl

/-- **The region of a class ends with the code of the class**, however the rest of it is planned. -/
theorem classPlan_endsWithCode (g : Setting) (nested : Nested) (parent : Option String)
    {c : DeclId} {code : List CustomCode} (hcode : (g.library.note c).customCode = .of code) :
    Gen.Yields (fun _ => True) (g.classPlan nested parent c)
      (fun p => ∃ r parts, p = .region r parts ∧ r.EndsWithCode c code)
      fun _ => True := by
  have rest : ∀ (handle : String) (head construct : Draft) (m f i : Gen (List Draft)),
      (∃ cpp superclass parent ruby,
        head.body = [.defineClass handle cpp superclass parent ruby]) →
      Gen.Yields (fun _ => True)
        (do
          let methods ← m
          let fields ← f
          let inside ← i
          return (Draft.join ([head, construct] ++ methods ++ fields ++ inside ++ [{
            definitions := (g.library.note c).customCode.definitions
            body := (g.library.note c).customCode.body handle }])).toPlan
              (g.library.tree.qualifiedName c) (some c) handle)
        (fun p => ∃ r parts, p = .region r parts ∧ r.EndsWithCode c code) fun _ => True := by
    intro handle head construct m f i hhead
    refine .bind (yields_any m) fun methods _ => ?_
    refine .bind (yields_any f) fun fields _ => ?_
    refine .bind (yields_any i) fun inside _ => .pure ?_
    rw [hcode]
    exact toPlan_endsWithCode hhead _ _
  unfold classPlan
  dsimp only
  refine .bind (yields_any _) fun superclass _ => ?_
  refine .bind (yields_any _) fun handle _ => ?_
  split
  · refine .bind (yields_any _) fun construct _ => ?_
    exact .bind (yields_any _) fun x _ => rest _ _ _ _ _ _ ⟨_, _, _, _, rfl⟩
  · refine .bind (yields_any _) fun name _ => ?_
    refine .bind (yields_any _) fun plan _ => ?_
    exact .bind (yields_any _) fun x _ => rest _ _ _ _ _ _ ⟨_, _, _, _, rfl⟩

end Setting

namespace Library

/-- **Hand-written code of a class is collected, and touches nothing else.** After any requests, the
region of a class, whenever it is planned, ends with the code that was added to the class, in the
order of the requests. Without the requests that add it, whatever is planned gives the same plans
less that code, or fails alike. -/
theorem customCode_collected (t : DeclTree) (rs : List Request) (c : DeclId)
    (sources includes : List String) :
    let code := rs.filterMap (Request.codeFor? t c)
    let others := rs.filter fun r => (r.codeFor? t c).isNone
    let g : Setting := ⟨(ofTree t).requests rs, sources, includes⟩
    let g₀ : Setting := ⟨(ofTree t).requests others, sources, includes⟩
    (∀ nested parent s p s', (g.classPlan nested parent c).run.run s = (.ok p, s') →
      ∃ r parts, p = .region r parts ∧ r.EndsWithCode c code) ∧
    (∀ parent i,
      Gen.Agree (Option.Rel (Plan.WithCode c code)) (g₀.plan parent i) (g.plan parent i)) ∧
    ∀ name ns modules, Gen.Agree (fun e₀ e : Extension => e₀.root = e.root ∧
        List.Forall₂ (Plan.WithCode c code) e₀.parts e.parts)
      (g₀.extension name ns modules) (g.extension name ns modules) := by
  intro code others g g₀
  have hcode : (g.library.note c).customCode = .of code :=
    (customCode_requests (ofTree t) rs c).trans (CodeLists.foldl_add code {})
  have hnone : (g₀.library.note c).customCode = {} := by
    have hothers : others.filterMap (Request.codeFor? t c) = [] := by
      rw [List.filterMap_eq_nil_iff]
      intro r hr
      exact Option.isNone_iff_eq_none.mp (List.mem_filter.mp hr).2
    refine (customCode_requests (ofTree t) others c).trans ?_
    show (others.filterMap (Request.codeFor? t c)).foldl CodeLists.add {} = {}
    rw [hothers]
    rfl
  have hdiffers : DiffersInCode c g₀.library g.library := (DiffersInCode.refl c _).requests rs
  have hparallel := hdiffers.parallel sources includes
  have hplans : ∀ p p', Plan.Alike Eq g₀.library g.library p p' → p.WithCode c code p' := by
    intro p p' hp
    exact hp.withCode hdiffers hnone hcode
  refine ⟨?_, ?_, ?_⟩
  · intro nested parent s p s' hrun
    exact ((g.classPlan_endsWithCode nested parent hcode).of_run trivial hrun).1
  · intro parent i
    refine (hparallel.plan parent i).mono fun x y hxy => ?_
    cases hxy with
    | none => exact .none
    | some hp => exact .some (hplans _ _ hp)
  · intro name ns modules
    refine (hparallel.extension name ns modules).mono ?_
    rintro e₀ e ⟨-, hroot, hparts⟩
    exact ⟨hroot.eq, hparts.imp hplans⟩

theorem exists_of_isOk {α : Type} {x : Except GenError α × Session} (h : x.1.isOk = true) :
    ∃ a s, x = (.ok a, s) := by
  obtain ⟨e | a, s⟩ := x
  · cases h
  · exact ⟨a, s, rfl⟩

/-- A class and a function. -/
def gadgetTree : DeclTree :=
  let (_, t) := DeclTree.empty.add DeclTree.root "Gadget" (.record false [])
  (t.add DeclTree.root "spin" (.function .void [])).2

/-- Code for the class, by position and by name, with other requests around it. -/
def gadgetRequests : List Request :=
  [.edit (.addCustomCode 1 ⟨"int size;", "<class>.define_attr(\"size\");"⟩),
    .edit (.rename 1 "Thing"),
    .edit (.addCustomCode 2 ⟨"int speed;", ""⟩),
    .onClass (.named "Gadget") .keepOwnName,
    .onClass (.named "Gadget") (.addCustomCode ⟨"int weight;", "pair(<class>, <class>);"⟩)]

theorem customCode_collected_gadget :
    ∃ p s', ((⟨(ofTree gadgetTree).requests gadgetRequests, [], []⟩ : Setting).classPlan
        (fun _ _ => pure none) none 1).run.run {} = (.ok p, s') ∧
      ∃ r parts, p = .region r parts ∧ r.EndsWithCode 1
        [⟨"int size;", "<class>.define_attr(\"size\");"⟩,
          ⟨"int weight;", "pair(<class>, <class>);"⟩] := by
  have hok : (((⟨(ofTree gadgetTree).requests gadgetRequests, [], []⟩ : Setting).classPlan
      (fun _ _ => pure none) none 1).run.run {}).1.isOk = true := by cbv
  have hcode : gadgetRequests.filterMap (Request.codeFor? gadgetTree 1) =
      [⟨"int size;", "<class>.define_attr(\"size\");"⟩,
        ⟨"int weight;", "pair(<class>, <class>);"⟩] := by cbv
  obtain ⟨p, s', hrun⟩ := exists_of_isOk hok
  have hends := (customCode_collected gadgetTree gadgetRequests 1 [] []).1 _ _ _ p s' hrun
  rw [hcode] at hends
  exact ⟨p, s', hrun, hends⟩

end Library

end RubyBinding
