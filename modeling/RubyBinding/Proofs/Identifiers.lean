import RubyBinding.Binding.Forward
import RubyBinding.Proofs.Draws
import RubyBinding.Proofs.Emission

/-!
# Names of generated functions

A generated function is named by a *word* that is drawn from the session: its C++ name, squeezed
into letters, digits and underscores, behind a lead that tells what it is for. The block of a
function that takes a callback, and the function that calls the block, have names that are not
drawn; they are made from the drawn one by another lead. So `WellNamed` definitions have different
names as soon as their drawn names differ, and `names_of_calls` follows for every sequence of calls.
-/

namespace RubyBinding

open Code (Definition Wrapper Slot)

/-! ## Words -/

/-- Letters and digits of ASCII, and the underscore. -/
def Text.isWordChar (c : Char) : Bool := Text.isAsciiAlphanumeric c || c == '_'

/-- Whether a text consists of letters and digits of ASCII, and underscores. -/
def Text.IsWord (text : String) : Prop := ∀ c ∈ text.toList, Text.isWordChar c

/-- Whether a text is a C identifier in ASCII: a word that starts with no digit. -/
def Text.IsIdentifier (text : String) : Prop :=
  Text.IsWord text ∧ text.toList.head?.any fun c => !c.isDigit

namespace Text

variable {lead word : String}

-- Given by name, since an instance that goes through all characters may be found instead.
instance : Decidable (IsWord word) := List.decidableBAll _ _

instance : Decidable (IsIdentifier word) := inferInstanceAs (Decidable (_ ∧ _))

theorem IsWord.append (hl : IsWord lead) (hw : IsWord word) : IsWord (lead ++ word) := by
  intro c hc
  rw [String.toList_append, List.mem_append] at hc
  rcases hc with hc | hc
  · exact hl c hc
  · exact hw c hc

theorem IsWord.of_append (h : IsWord (lead ++ word)) : IsWord word := by
  intro c hc
  refine h c ?_
  rw [String.toList_append]
  exact List.mem_append_right _ hc

theorem IsIdentifier.append (hl : IsIdentifier lead) (hw : IsWord word) :
    IsIdentifier (lead ++ word) := by
  obtain ⟨hword, hhead⟩ := hl
  refine ⟨hword.append hw, ?_⟩
  rw [String.toList_append]
  cases hlead : lead.toList with
  | nil => rw [hlead] at hhead; cases hhead
  | cons c rest => rwa [hlead] at hhead

/-- A decimal numeral is a word. -/
theorem isWord_toString (k : Nat) : IsWord (toString k) := by
  intro c hc
  rw [Nat.toString_eq_repr, Nat.toList_repr] at hc
  have hdigit := Nat.isDigit_of_mem_toDigits (by decide) (by decide) hc
  simp only [Char.isDigit, Bool.and_eq_true, decide_eq_true_eq] at hdigit
  simp only [isWordChar, isAsciiAlphanumeric, Bool.or_eq_true, Bool.and_eq_true,
    decide_eq_true_eq]
  exact .inl (.inl (.inl ⟨hdigit.1, hdigit.2⟩))

end Text

open Text (IsWord IsIdentifier)

theorem isWordChar_of_mem_identifierChars (cs : List Char) :
    ∀ c ∈ identifierChars cs, Text.isWordChar c := by
  fun_induction identifierChars cs with
  | case1 => exact fun _ hc => absurd hc List.not_mem_nil
  | case2 r ih => exact List.forall_mem_cons.mpr ⟨rfl, ih⟩
  | case3 r ih =>
    refine List.forall_mem_cons.mpr ⟨rfl, ?_⟩
    refine List.forall_mem_cons.mpr ⟨rfl, ?_⟩
    exact List.forall_mem_cons.mpr ⟨rfl, ih⟩
  | case4 c r _ _ ih =>
    refine List.forall_mem_cons.mpr ⟨?_, ih⟩
    split
    next hc => rw [Text.isWordChar, hc, Bool.true_or]
    next => rfl

/-- **Whatever characters a C++ name contains, its identifier is a word.** -/
theorem isWord_identifier (name : String) : IsWord (identifier name) := by
  intro c hc
  rw [identifier, String.toList_ofList] at hc
  exact isWordChar_of_mem_identifierChars _ c hc

namespace Fresh

theorem isWord_numbered {word : String} (h : IsWord word) (k : Nat) : IsWord (numbered word k) := by
  cases k with
  | zero => exact h
  | succ k =>
    refine (h.append ?_).append (Text.isWord_toString _)
    intro c hc
    cases List.mem_singleton.mp hc
    rfl

/-- A number is put behind the whole name. -/
theorem numbered_append (lead word : String) (k : Nat) :
    numbered (lead ++ word) k = lead ++ numbered word k := by
  cases k with
  | zero => rfl
  | succ k => simp only [numbered, String.append_assoc]

end Fresh

/-! ## Names of definitions -/

namespace Code.Definition

/-- The C++ name that a definition introduces. -/
def name? : Definition → Option String
  | custom _ => none
  | block name => some name
  | wrapper w => some w.name
  | director d => some d.name

/-- The name that was drawn for a definition. None is drawn for a block, nor for the function that
calls it. -/
def drawn? : Definition → Option String
  | wrapper w =>
    match w.body with
    | .callBlock _ => none
    | _ => some w.name
  | director d => some d.name
  | _ => none

/-- The name of a function that calls a block. -/
def yielder? : Definition → Option String
  | wrapper w =>
    match w.body with
    | .callBlock _ => some w.name
    | _ => none
  | _ => none

/-- The name of a variable that holds a block. -/
def block? : Definition → Option String
  | block name => some name
  | _ => none

/-- A definition has one name, of one of three kinds. -/
theorem names_perm (ds : List Definition) :
    (ds.filterMap name?).Perm
      (ds.filterMap drawn? ++ (ds.filterMap yielder? ++ ds.filterMap block?)) := by
  rw [List.perm_iff_count]
  intro n
  induction ds with
  | nil => rfl
  | cons d ds ih =>
    simp only [List.count_append] at ih ⊢
    cases d with
    | custom line => exact ih
    | block name =>
      simp only [List.filterMap_cons, name?, drawn?, yielder?, block?, List.count_cons]
      omega
    | director d =>
      simp only [List.filterMap_cons, name?, drawn?, yielder?, block?, List.count_cons]
      omega
    | wrapper w =>
      simp only [List.filterMap_cons, name?, drawn?, yielder?, block?, List.count_cons]
      cases w.body <;> simp only [List.count_cons] <;> omega

end Code.Definition

/-- Functions that forward calls, with what they need: the drawn names begin with `wrap_`, and each
block belongs to one of them, as does the function that calls it. -/
structure WellNamed (ds : List Definition) : Prop where
  drawn : ∀ n ∈ ds.filterMap Definition.drawn?, ∃ word, n = "wrap_" ++ word ∧ IsWord word
  callbacks : ∃ suffixes : List String,
    ds.filterMap Definition.block? = suffixes.map ("_block_for_" ++ ·) ∧
    ds.filterMap Definition.yielder? = suffixes.map ("do_yield_on_" ++ ·) ∧
    (suffixes.map ("wrap_for_callback_" ++ ·)).Sublist (ds.filterMap Definition.drawn?)

namespace WellNamed

variable {ds es : List Definition}

theorem nil : WellNamed [] :=
  ⟨fun _ hn => absurd hn List.not_mem_nil, [], rfl, rfl, .slnil⟩

theorem append (hd : WellNamed ds) (he : WellNamed es) : WellNamed (ds ++ es) where
  drawn := by
    intro n hn
    rw [List.filterMap_append, List.mem_append] at hn
    rcases hn with hn | hn
    · exact hd.drawn n hn
    · exact he.drawn n hn
  callbacks := by
    obtain ⟨xs, hblocks, hyielders, hsub⟩ := hd.callbacks
    obtain ⟨ys, hblocks', hyielders', hsub'⟩ := he.callbacks
    refine ⟨xs ++ ys, ?_, ?_, ?_⟩
    · rw [List.filterMap_append, List.map_append, hblocks, hblocks']
    · rw [List.filterMap_append, List.map_append, hyielders, hyielders']
    · rw [List.filterMap_append, List.map_append]
      exact hsub.append hsub'

theorem flatMap {α : Type} {f : α → List Definition} {l : List α} (h : ∀ a ∈ l, WellNamed (f a)) :
    WellNamed (l.flatMap f) := by
  induction l with
  | nil => exact nil
  | cons a l ih =>
    rw [List.flatMap_cons]
    obtain ⟨ha, hl⟩ := List.forall_mem_cons.mp h
    exact ha.append (ih hl)

/-- The suffix of a callback is a word, since it ends a drawn name. -/
theorem isWord_suffix (hd : WellNamed ds) {suffix : String}
    (h : "wrap_for_callback_" ++ suffix ∈ ds.filterMap Definition.drawn?) : IsWord suffix := by
  obtain ⟨word, heq, hword⟩ := hd.drawn _ h
  have hrest : word = "for_callback_" ++ suffix := by
    have hlead : "wrap_for_callback_" = "wrap_" ++ "for_callback_" := rfl
    rw [hlead, String.append_assoc] at heq
    exact ((String.append_right_inj _).mp heq).symm
  rw [hrest] at hword
  exact hword.of_append

theorem isIdentifier (hd : WellNamed ds) : ∀ n ∈ ds.filterMap Definition.name?, IsIdentifier n := by
  have lead : ∀ {suffixes : List String} {text : String},
      (suffixes.map ("wrap_for_callback_" ++ ·)).Sublist (ds.filterMap Definition.drawn?) →
      IsIdentifier text → ∀ n ∈ suffixes.map (text ++ ·), IsIdentifier n := by
    intro suffixes text hsub htext n hn
    obtain ⟨suffix, hsuffix, rfl⟩ := List.mem_map.mp hn
    exact htext.append (hd.isWord_suffix (hsub.mem (List.mem_map_of_mem hsuffix)))
  intro n hn
  obtain ⟨suffixes, hblocks, hyielders, hsub⟩ := hd.callbacks
  rw [(Definition.names_perm ds).mem_iff, List.mem_append, List.mem_append, hblocks,
    hyielders] at hn
  rcases hn with hn | hn | hn
  · obtain ⟨word, rfl, hword⟩ := hd.drawn n hn
    exact IsIdentifier.append (by decide) hword
  · exact lead hsub (by decide) n hn
  · exact lead hsub (by decide) n hn

/-- **Definitions whose drawn names differ have different names.** -/
theorem names_nodup (hd : WellNamed ds) (h : (ds.filterMap Definition.drawn?).Nodup) :
    (ds.filterMap Definition.name?).Nodup := by
  obtain ⟨suffixes, hblocks, hyielders, hsub⟩ := hd.callbacks
  have hsuffixes : suffixes.Nodup := .of_map _ (hsub.nodup h)
  have led : ∀ lead : String, (suffixes.map (lead ++ ·)).Nodup := fun lead =>
    hsuffixes.map fun _ _ heq => (String.append_right_inj _).mp heq
  rw [(Definition.names_perm ds).nodup_iff, hblocks, hyielders]
  -- The three kinds of names begin differently.
  refine h.append ((led _).append (led _) ?_) ?_
  · intro n hyielder hblock
    obtain ⟨suffix, -, rfl⟩ := List.mem_map.mp hyielder
    obtain ⟨other, -, heq⟩ := List.mem_map.mp hblock
    have hlists := congrArg String.toList heq
    simp at hlists
  · intro n hdrawn hmade
    obtain ⟨word, rfl, -⟩ := hd.drawn n hdrawn
    rcases List.mem_append.mp hmade with hmade | hmade
    all_goals
      obtain ⟨suffix, -, heq⟩ := List.mem_map.mp hmade
      have hlists := congrArg String.toList heq
      simp at hlists

end WellNamed

/-! ## Drawing names -/

namespace Setting

variable {g : Setting}

theorem need_names (s : Session) (needed : Option Converter) : (s.need needed).names = s.names := by
  cases needed <;> rfl

theorem resolveResult_draws (scope : DeclId) (t : Ty) :
    Run.Draws [] (g.resolveResult scope t) (fun _ => []) fun _ => True :=
  .of_names (fun _ => need_names _ _) fun _ => trivial

theorem resolveParam_draws (scope : DeclId) (t : Ty) :
    Run.Draws [] (g.resolveParam scope t) (fun _ => []) fun _ => True :=
  .of_names (fun _ => need_names _ _) fun _ => trivial

theorem result_draws (scope : DeclId) (result : Option Ty) :
    Run.Draws [] (g.result scope result) (fun _ => []) fun _ => True := by
  cases result with
  | none => exact .pure trivial fun _ => Nat.le_refl _
  | some t => exact resolveResult_draws scope t

theorem slots_draws (scope : DeclId) (params : List (Param × Nat)) :
    Run.Draws [] (g.slots scope params) (fun _ => []) fun _ => True := by
  refine .mono (.mapM_nil (Q := fun _ => True) params fun p _ => ?_) fun _ _ => trivial
  exact .bind (resolveParam_draws scope p.1.ty) fun ty _ => .pure trivial fun _ => Nat.le_refl _

/-- Definitions of functions with these drawn names, in this order. -/
structure Defines (names : List String) (ds : List Definition) : Prop where
  wellNamed : WellNamed ds
  drawn : ds.filterMap Definition.drawn? = names
  functions : ∀ d, .director d ∉ ds

theorem Defines.nil : Defines [] [] :=
  ⟨.nil, rfl, fun _ => List.not_mem_nil⟩

/-- A function of Ruby's is named by what was drawn. -/
theorem drawn?_wrapper {w : Wrapper} (hbody : ∀ block, w.body ≠ .callBlock block) :
    Definition.drawn? (.wrapper w) = some w.name ∧ Definition.yielder? (.wrapper w) = none := by
  unfold Definition.drawn? Definition.yielder?
  cases hw : w.body with
  | callBlock block => exact absurd hw (hbody block)
  | _ => simp only [hw, and_self]

/-- A function that forwards, without any callback. -/
theorem Defines.wrapper {w : Wrapper} {name word : String} (hw : w.name = name)
    (hname : name = "wrap_" ++ word) (hword : IsWord word)
    (hbody : ∀ block, w.body ≠ .callBlock block) : Defines [name] [.wrapper w] := by
  obtain ⟨hdrawn, hyielder⟩ := drawn?_wrapper hbody
  have hnames : [.wrapper w].filterMap Definition.drawn? = [name] := by
    rw [List.filterMap_cons_some hdrawn, List.filterMap_nil, hw]
  refine ⟨⟨?_, [], rfl, List.filterMap_cons_none hyielder, List.nil_sublist _⟩, hnames, by simp⟩
  intro n hn
  rw [hnames, List.mem_singleton] at hn
  exact ⟨word, hn.trans hname, hword⟩

/-- A function that forwards a callback, after the block that it keeps and the function that calls
the block. -/
theorem Defines.callback {w entry : Wrapper} {suffix block : String} (hsuffix : IsWord suffix)
    (hw : w.name = "do_yield_on_" ++ suffix) (hcalls : w.body = .callBlock block)
    (hentry : entry.name = "wrap_for_callback_" ++ suffix)
    (hbody : ∀ block, entry.body ≠ .callBlock block) :
    Defines ["wrap_for_callback_" ++ suffix]
      [.block ("_block_for_" ++ suffix), .wrapper w, .wrapper entry] := by
  obtain ⟨hdrawn, hyielder⟩ := drawn?_wrapper hbody
  have hcalled : Definition.drawn? (.wrapper w) = none ∧
      Definition.yielder? (.wrapper w) = some ("do_yield_on_" ++ suffix) := by
    simp only [Definition.drawn?, Definition.yielder?, hcalls, hw, and_self]
  have hnames : [.block ("_block_for_" ++ suffix), .wrapper w, .wrapper entry].filterMap
      Definition.drawn? = ["wrap_for_callback_" ++ suffix] := by
    rw [List.filterMap_cons_none rfl, List.filterMap_cons_none hcalled.1,
      List.filterMap_cons_some hdrawn, List.filterMap_nil, hentry]
  refine ⟨⟨?_, [suffix], ?_, ?_, ?_⟩, hnames, by simp⟩
  · intro n hn
    rw [hnames, List.mem_singleton] at hn
    refine ⟨"for_callback_" ++ suffix, ?_, Text.IsWord.append (by decide) hsuffix⟩
    rw [hn, ← String.append_assoc]
    rfl
  · rfl
  · rw [List.filterMap_cons_none rfl, List.filterMap_cons_some hcalled.2,
      List.filterMap_cons_none hyielder, List.filterMap_nil]
    rfl
  · rw [hnames]
    exact List.Sublist.refl _

theorem Defines.append {names more : List String} {ds es : List Definition}
    (hd : Defines names ds) (he : Defines more es) : Defines (names ++ more) (ds ++ es) where
  wellNamed := hd.wellNamed.append he.wellNamed
  drawn := by rw [List.filterMap_append, hd.drawn, he.drawn]
  functions := fun d hmem =>
    (List.mem_append.mp hmem).elim (hd.functions d) (he.functions d)

theorem forwardPlain_draws (i : DeclId) (receiver : Receiver) :
    Run.Draws [] (g.forwardPlain i receiver) (fun f => [f.name])
      fun f => Defines [f.name] f.definitions := by
  unfold forwardPlain
  refine .bind (result_draws _ _) fun result _ => ?_
  refine .bind (freshName_draws _) fun name hname => ?_
  refine .bind (slots_draws _ _) fun slots _ => ?_
  obtain ⟨k, hk⟩ := hname
  rw [Fresh.numbered_append] at hk
  refine .pure (.wrapper rfl hk (Fresh.isWord_numbered (isWord_identifier _) k) ?_) fun n => ?_
  · exact fun _ h => nomatch h
  · simp only [List.nil_append, List.append_nil, Nat.le_refl]

theorem forwardCallback_draws (i : DeclId) (receiver : Receiver) (signature : Ty × List Ty) :
    Run.Draws [] (g.forwardCallback i receiver signature) (fun f => [f.name])
      fun f => Defines [f.name] f.definitions := by
  unfold forwardCallback
  refine .bind (freshName_draws _) fun name hname => ?_
  obtain ⟨k, rfl⟩ := hname
  have hsuffix := Fresh.isWord_numbered (isWord_identifier (g.library.tree.qualifiedName i)) k
  rw [Fresh.numbered_append]
  generalize Fresh.numbered (identifier (g.library.tree.qualifiedName i)) k = suffix at hsuffix ⊢
  -- What is left of the drawn name without its lead is the suffix again.
  have hrest : String.ofList ((Text.after? "wrap_for_callback_".toList
      ("wrap_for_callback_" ++ suffix).toList).getD []) = suffix := by
    rw [String.toList_append, Text.after?_append, Option.getD_some, String.ofList_toList]
  dsimp only
  rw [hrest]
  refine .pure ?_ fun n => ?_
  · cases receiver <;> exact .callback hsuffix rfl rfl rfl fun _ h => nomatch h
  · exact count_le_held _ n

theorem forward_draws (i : DeclId) (receiver : Receiver) :
    Gen.Draws [] (g.forward i receiver) (fun f => [f.name])
      fun f => Defines [f.name] f.definitions := by
  rw [forward_eq]
  unfold forwarder
  dsimp only
  split
  · exact .throw _
  · exact .lift (forwardPlain_draws i receiver)
  · split
    · exact .throw _
    · exact .lift (forwardCallback_draws i receiver _)

theorem access_draws (i : DeclId) (cpp : String) (t : Ty) (isStatic isConst : Bool) :
    Run.Draws [] (g.access i cpp t isStatic isConst) (fun a => a.getter :: a.setter.toList)
      fun a => Defines (a.getter :: a.setter.toList) a.definitions := by
  have accessor : ∀ {k : Nat} {name suffix : String} {w : Wrapper},
      name = Fresh.numbered ("wrap_" ++ identifier (g.library.tree.qualifiedName i) ++ suffix) k →
      IsWord suffix → w.name = name → (∀ block, w.body ≠ .callBlock block) →
      Defines [name] [.wrapper w] := by
    intro k name suffix w hname hsuffix hw hbody
    rw [String.append_assoc, Fresh.numbered_append] at hname
    exact .wrapper hw hname (Fresh.isWord_numbered ((isWord_identifier _).append hsuffix) k) hbody
  unfold access
  refine .bind (resolveResult_draws _ _) fun ty _ => ?_
  refine .bind (freshName_draws _) fun getter hgetter => ?_
  obtain ⟨k, hk⟩ := hgetter
  dsimp only
  split
  · refine .pure (accessor hk (by decide) rfl fun _ h => nomatch h) fun n => ?_
    simp only [List.append_nil, Option.toList_none, Nat.le_refl]
  · refine .bind (freshName_draws _) fun setter hsetter => ?_
    obtain ⟨l, hl⟩ := hsetter
    refine .pure ?_ fun n => ?_
    · exact (accessor hk (by decide) rfl fun _ h => by cases h).append
        (accessor hl (by decide) rfl fun _ h => by cases h)
    · simp only [List.append_nil, Option.toList_some, List.count_append, List.count_cons,
        List.count_nil]
      omega

/-- The names of accessors, if there are any. -/
def accessorNames (found : Option Accessors) : List String :=
  found.elim [] fun a => a.getter :: a.setter.toList

/-- The definitions of accessors, if there are any. -/
def accessorDefinitions (found : Option Accessors) : List Definition :=
  found.elim [] Accessors.definitions

theorem accessors_draws (i : DeclId) (cpp : String) :
    Run.Draws [] (g.accessors i cpp) accessorNames
      fun found => Defines (accessorNames found) (accessorDefinitions found) := by
  unfold accessors
  split
  · split
    · exact .pure .nil fun _ => Nat.le_refl _
    · exact .bind (access_draws _ _ _ _ _) fun _ ha => .pure ha (count_le_held _)
  · exact .pure .nil fun _ => Nat.le_refl _

/-! ## Sequences of calls -/

/-- A call that has names drawn. -/
inductive NameCall where
  /-- Draw a name for anything else. -/
  | draw (base : String)
  | forward (i : DeclId) (receiver : Receiver)
  | accessors (i : DeclId) (cpp : String)
  deriving Repr

/-- What a call emits, and the functions among it that it returns the names of. -/
structure Emission where
  functions : List String := []
  definitions : List Definition := []
  deriving Repr

/-- What a call emits. A call that fails emits nothing. -/
def emit (g : Setting) : NameCall → Run Emission
  | .draw base => do
    let _ ← freshName base
    return {}
  | .forward i receiver => do
    match ← (g.forward i receiver).run with
    | .ok f => return ⟨[f.name], f.definitions⟩
    | .error _ => return {}
  | .accessors i cpp => do
    let found ← g.accessors i cpp
    return ⟨accessorNames found, accessorDefinitions found⟩

/-- What a sequence of calls emits. -/
def emitAll (g : Setting) (calls : List NameCall) : Run (List Emission) := calls.mapM g.emit

theorem emit_draws (call : NameCall) :
    Run.Draws [] (g.emit call) Emission.functions fun e => Defines e.functions e.definitions := by
  cases call with
  | draw base =>
    exact .bind (freshName_draws base) fun _ _ => .pure .nil fun _ => Nat.zero_le _
  | forward i receiver =>
    refine .bind (forward_draws i receiver) fun r hr => ?_
    cases r with
    | error e => exact .pure .nil fun _ => Nat.zero_le _
    | ok f => exact .pure (hr f rfl) (count_le_held _)
  | accessors i cpp =>
    exact .bind (accessors_draws i cpp) fun _ hfound => .pure hfound (count_le_held _)

theorem emitAll_draws (calls : List NameCall) :
    Run.Draws [] (g.emitAll calls) (List.flatMap Emission.functions)
      fun es => ∀ e ∈ es, Defines e.functions e.definitions :=
  .mapM calls fun c _ => emit_draws c

/-- **The names of all generated functions and blocks differ, and are C identifiers.** Whatever the
names in a session are, and whichever calls are made in it: all that they emit is named by different
words of letters, digits and underscores, and each name that a call returns is that of a function
which the call emitted. -/
theorem names_of_calls (g : Setting) (calls : List NameCall) (s : Session) :
    let emitted := ((g.emitAll calls).run s).1
    let names := (emitted.flatMap Emission.definitions).filterMap Definition.name?
    names.Nodup ∧ (∀ n ∈ names, IsIdentifier n) ∧
      ∀ e ∈ emitted, e.functions = e.definitions.filterMap Definition.drawn? := by
  obtain ⟨hnodup, hall⟩ := (emitAll_draws (g := g) calls).nodup s
  have hnamed : WellNamed ((((g.emitAll calls).run s).1).flatMap Emission.definitions) :=
    .flatMap fun e he => (hall e he).wellNamed
  refine ⟨hnamed.names_nodup ?_, hnamed.isIdentifier, fun e he => (hall e he).drawn.symm⟩
  rw [List.filterMap_flatMap, List.flatMap_congr fun e he => (hall e he).drawn]
  exact hnodup

end Setting

end RubyBinding
