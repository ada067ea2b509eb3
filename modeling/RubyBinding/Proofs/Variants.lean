import RubyBinding.Binding.Module
import RubyBinding.Plan.Order
import RubyBinding.Proofs.Emission

/-!
# Libraries that differ in names and hand-written code only

A `Variant` of a library says the same about every declaration but for its Ruby name and its
hand-written code. Whatever of a library is no Ruby name and no such code is the same in a variant:
what is bound, in which order, how types are spelled, and how deep a class is.
-/

namespace RubyBinding

namespace Library

/-- A library that says the same as another, but for Ruby names and hand-written code. -/
structure Variant (lib lib' : Library) : Prop where
  tree : lib'.tree = lib.tree
  moves : lib'.moves = lib.moves
  note : ∀ i, { lib'.note i with
    rename := (lib.note i).rename, customCode := (lib.note i).customCode } = lib.note i

namespace Variant

variable {lib lib' : Library}

theorem refl (lib : Library) : Variant lib lib := ⟨rfl, rfl, fun _ => rfl⟩

/-! ## What is said about a declaration -/

/-- Reading what is said about a declaration, where `f` reads neither names nor code. -/
theorem apply_note {β : Type} (h : Variant lib lib') (f : Annotation → β)
    (hf : ∀ a name code, f { a with rename := name, customCode := code } = f a) (i : DeclId) :
    f (lib'.note i) = f (lib.note i) :=
  (hf (lib'.note i) _ _).symm.trans (congrArg f (h.note i))

theorem isIgnored (h : Variant lib lib') : lib'.isIgnored = lib.isIgnored :=
  funext (h.apply_note Annotation.isIgnored fun _ _ _ => rfl)

theorem chosenSuperclass? (h : Variant lib lib') :
    lib'.chosenSuperclass? = lib.chosenSuperclass? :=
  funext (h.apply_note Annotation.superclass fun _ _ _ => rfl)

theorem chosenCtor? (h : Variant lib lib') : lib'.chosenCtor? = lib.chosenCtor? :=
  funext (h.apply_note Annotation.ctor fun _ _ _ => rfl)

theorem keepsOwnName (h : Variant lib lib') (i : DeclId) :
    (lib'.note i).keepsOwnName = (lib.note i).keepsOwnName :=
  h.apply_note Annotation.keepsOwnName (fun _ _ _ => rfl) i

theorem isInstanceMethod (h : Variant lib lib') (i : DeclId) :
    (lib'.note i).isInstanceMethod = (lib.note i).isInstanceMethod :=
  h.apply_note Annotation.isInstanceMethod (fun _ _ _ => rfl) i

/-! ## What is bound, and where -/

theorem isMoved (h : Variant lib lib') : lib'.isMoved = lib.isMoved := by
  funext i
  rw [Library.isMoved, Library.isMoved, movedTo?, movedTo?, h.moves]

theorem isExposed (h : Variant lib lib') : lib'.isExposed = lib.isExposed := by
  funext i
  rw [Library.isExposed, Library.isExposed, h.isIgnored, h.isMoved, h.tree]

theorem exposed (h : Variant lib lib') : lib'.exposed = lib.exposed := by
  funext i
  rw [Library.exposed, Library.exposed, h.isExposed, h.tree]

theorem adopted (h : Variant lib lib') : lib'.adopted = lib.adopted := by
  funext i
  rw [Library.adopted, Library.adopted, h.isIgnored, movedInto, movedInto, h.moves]

/-! ## Types -/

theorem humanizingTypedef? (h : Variant lib lib') :
    lib'.humanizingTypedef? = lib.humanizingTypedef? := by
  funext i
  rw [Library.humanizingTypedef?, Library.humanizingTypedef?, h.keepsOwnName, h.tree]

theorem classType (h : Variant lib lib') : lib'.classType = lib.classType := by
  funext i
  rw [Library.classType, Library.classType, h.humanizingTypedef?, h.tree]

theorem resolve (h : Variant lib lib') : lib'.resolve = lib.resolve := by
  have hname : lib'.resolveName = lib.resolveName := by
    funext scope name
    rw [resolveName, resolveName, h.classType, h.tree]
  funext scope t
  rw [Library.resolve, Library.resolve, hname]

theorem wrappedClass? (h : Variant lib lib') : lib'.wrappedClass? = lib.wrappedClass? := by
  have hclass : lib'.denotesClass = lib.denotesClass := by
    funext i
    rw [denotesClass, denotesClass, h.tree]
  funext t
  rw [Library.wrappedClass?.eq_def, Library.wrappedClass?.eq_def, hclass, h.tree]

theorem slots (h : Variant lib lib') : lib'.slots = lib.slots := by
  funext scope params
  rw [Library.slots, Library.slots, h.resolve]

/-! ## Classes -/

theorem effectiveSuperclasses (h : Variant lib lib') :
    lib'.effectiveSuperclasses = lib.effectiveSuperclasses := by
  funext i
  rw [Library.effectiveSuperclasses, Library.effectiveSuperclasses, h.chosenSuperclass?,
    h.isIgnored, h.tree]

theorem superclass? (h : Variant lib lib') : lib'.superclass? = lib.superclass? := by
  funext i
  rw [Library.superclass?, Library.superclass?, h.effectiveSuperclasses, h.tree]

theorem ctorParams? (h : Variant lib lib') : lib'.ctorParams? = lib.ctorParams? := by
  funext i
  rw [Library.ctorParams?, Library.ctorParams?, h.chosenCtor?, h.isExposed, h.tree]

theorem methods (h : Variant lib lib') : lib'.methods = lib.methods := by
  funext i
  rw [Library.methods, Library.methods, h.tree]

theorem ancestors (h : Variant lib lib') : lib'.ancestors = lib.ancestors := by
  have hamong : ∀ unseen pending,
      lib'.ancestorsAmong unseen pending = lib.ancestorsAmong unseen pending := by
    intro unseen pending
    induction unseen, pending using ancestorsAmong.induct lib with
    | case1 unseen => rw [ancestorsAmong, ancestorsAmong]
    | case2 unseen c rest hc ih =>
      rw [ancestorsAmong, ancestorsAmong, dif_pos hc, dif_pos hc, h.tree, ih]
    | case3 unseen c rest hc ih =>
      rw [ancestorsAmong, ancestorsAmong, dif_neg hc, dif_neg hc, ih]
  funext i
  rw [Library.ancestors, Library.ancestors, hamong, h.tree]

theorem depth (h : Variant lib lib') : lib'.depth = lib.depth := by
  have hamong : ∀ unseen i, lib'.depthAmong unseen i = lib.depthAmong unseen i := by
    intro unseen i
    induction unseen, i using depthAmong.induct lib with
    | case1 unseen i hclass =>
      rw [depthAmong.eq_1, depthAmong.eq_1, h.tree, if_pos hclass, if_pos hclass]
    | case2 unseen i hclass hi ih =>
      rw [depthAmong.eq_1, depthAmong.eq_1, h.tree, if_neg hclass, if_neg hclass, dif_pos hi,
        dif_pos hi, h.effectiveSuperclasses, funext ih]
    | case3 unseen i hclass hi =>
      rw [depthAmong.eq_1, depthAmong.eq_1, h.tree, if_neg hclass, if_neg hclass, dif_neg hi,
        dif_neg hi]
  funext i
  rw [Library.depth, Library.depth, hamong, h.tree]

theorem rank (h : Variant lib lib') : lib'.rank = lib.rank := by
  funext node
  cases node with
  | none => rfl
  | some i => rw [Library.rank, Library.rank, h.depth]

end Variant

end Library

/-! ## Settings -/

namespace Setting

/-- A setting with a variant of the library. -/
structure Variant (g g' : Setting) : Prop where
  library : g.library.Variant g'.library
  sources : g'.sources = g.sources
  includes : g'.includes = g.includes

namespace Variant

variable {g g' : Setting}

theorem tree (h : Variant g g') : g'.library.tree = g.library.tree := h.library.tree

theorem furtherIncludes (h : Variant g g') : g'.furtherIncludes = g.furtherIncludes := by
  rw [Setting.furtherIncludes, Setting.furtherIncludes, h.includes]

theorem isSource (h : Variant g g') : g'.isSource = g.isSource := by
  funext file
  rw [Setting.isSource, Setting.isSource, h.sources]

theorem includesFor (h : Variant g g') : g'.includesFor = g.includesFor := by
  funext i
  rw [Setting.includesFor, Setting.includesFor, headers, headers, h.isSource, h.sources, h.tree]

theorem isFromSources (h : Variant g g') : g'.isFromSources = g.isFromSources := by
  funext i
  induction i using isFromSources.induct g with
  | case1 i d hns ih =>
    rw [isFromSources.eq_1, isFromSources.eq_1, h.tree, if_pos hns, if_pos hns]
    refine List.any_congr rfl fun c => ?_
    by_cases hc : i < c ∧ c < g.library.tree.size
    · rw [dif_pos hc, dif_pos hc, ih c hc]
    · rw [dif_neg hc, dif_neg hc]
  | case2 i d hns hfile =>
    rw [isFromSources.eq_1, isFromSources.eq_1, h.tree, if_neg hns, if_neg hns, h.isSource]
  | case3 i d hns file hfile =>
    rw [isFromSources.eq_1, isFromSources.eq_1, h.tree, if_neg hns, if_neg hns, h.isSource]

theorem namespaceItems (h : Variant g g') : g'.namespaceItems = g.namespaceItems := by
  funext ns
  rw [Setting.namespaceItems, Setting.namespaceItems, h.library.exposed, h.library.adopted,
    h.isFromSources]

/-! ### Steps that yield no Ruby names -/

theorem resolveResult (h : Variant g g') : g'.resolveResult = g.resolveResult := by
  have hneeded : Converter.ofResult? g'.library = Converter.ofResult? g.library := by
    funext t
    rw [Converter.ofResult?, Converter.ofResult?, h.library.wrappedClass?]
  funext scope t s
  show (_, _) = (_, _)
  rw [h.library.resolve, hneeded]

theorem resolveParam (h : Variant g g') : g'.resolveParam = g.resolveParam := by
  have hneeded : Converter.ofParam? g'.library = Converter.ofParam? g.library := by
    funext t
    rw [Converter.ofParam?, Converter.ofParam?, h.library.wrappedClass?]
  funext scope t s
  show (_, _) = (_, _)
  rw [h.library.resolve, hneeded]

theorem forward (h : Variant g g') : g'.forward = g.forward := by
  have hresult : g'.result = g.result := by
    funext scope t
    cases t with
    | none => rfl
    | some t => rw [Setting.result, Setting.result, h.resolveResult]
  have hslots : g'.slots = g.slots := by
    funext scope params
    rw [Setting.slots, Setting.slots, h.resolveParam]
  have hplain : g'.forwardPlain = g.forwardPlain := by
    funext i receiver
    rw [forwardPlain, forwardPlain, hresult, hslots, h.tree]
  have hcallback : g'.forwardCallback = g.forwardCallback := by
    funext i receiver signature
    rw [forwardCallback, forwardCallback, h.tree]
  have hsignature : g'.callbackSignature = g.callbackSignature := by
    funext i callback
    rw [callbackSignature, callbackSignature, h.library.resolve, h.tree]
  funext i receiver
  rw [forward_eq, forward_eq, forwarder, forwarder, hplain, hcallback, hsignature, h.tree]

theorem accessors (h : Variant g g') : g'.accessors = g.accessors := by
  have haccess : g'.access = g.access := by
    funext i cpp ty isStatic isConst
    rw [access, access, h.resolveResult, h.tree]
  funext i cpp
  rw [Setting.accessors, Setting.accessors, haccess, h.tree]

theorem bindCtor (h : Variant g g') : g'.bindCtor = g.bindCtor := by
  funext c params
  cases params with
  | none => rfl
  | some params => rw [Setting.bindCtor, Setting.bindCtor, h.resolveParam]

end Variant

end Setting

end RubyBinding
