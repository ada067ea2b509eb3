import Mathlib.Data.List.Forall2
import RubyBinding.Binding.Class

/-!
# Plans that say the same but for names and hand-written code

A relation `R` says what may become of a Ruby name. Statements, directors, regions and drafts are
*alike* if they say the same but for Ruby names, which `R` relates; plans for two libraries are if,
moreover, the regions of a class end with the hand-written code that each library has for it.
-/

namespace RubyBinding

open Code (Statement Definition Director Override Place)

/-! ## Code -/

section Alike

variable (R : String → String → Prop)

/-- Statements that say the same, but for a Ruby name. -/
inductive Code.Statement.Alike : Statement → Statement → Prop
  | same (s : Statement) : Alike s s
  | defineModule {ruby ruby' : String} (h : R ruby ruby') (handle : String)
      (parent : Option String) :
      Alike (.defineModule handle ruby parent) (.defineModule handle ruby' parent)
  | defineClass {ruby ruby' : String} (h : R ruby ruby') (handle cpp : String)
      (superclass parent : Option String) :
      Alike (.defineClass handle cpp superclass parent ruby)
        (.defineClass handle cpp superclass parent ruby')
  | defineEnum {ruby ruby' : String} (h : R ruby ruby') (handle cpp : String)
      (parent : Option String) :
      Alike (.defineEnum handle cpp parent ruby) (.defineEnum handle cpp parent ruby')
  | bind {ruby ruby' : String} (h : R ruby ruby') (place : Place) (target : String) :
      Alike (.bind place ruby target) (.bind place ruby' target)

/-- Overrides that say the same, but for the Ruby method that is asked. -/
structure Code.Override.Alike (o o' : Override) : Prop where
  rest : o' = { o with ruby := o'.ruby }
  ruby : R o.ruby o'.ruby

/-- Directors that say the same, but for the Ruby methods that are asked. -/
structure Code.Director.Alike (d d' : Director) : Prop where
  rest : d' = { d with overrides := d'.overrides }
  overrides : List.Forall₂ (Code.Override.Alike R) d.overrides d'.overrides

inductive Code.Definition.Alike : Definition → Definition → Prop
  | same (d : Definition) : Alike d d
  | director {d d' : Director} (h : d.Alike R d') : Alike (.director d) (.director d')

/-- Regions that say the same, but for Ruby names. -/
structure Region.Alike (r r' : Region) : Prop where
  rest : r' = { r with definitions := r'.definitions, body := r'.body }
  definitions : List.Forall₂ (Code.Definition.Alike R) r.definitions r'.definitions
  body : List.Forall₂ (Code.Statement.Alike R) r.body r'.body

end Alike

/-- The definitions of hand-written code. -/
def CodeLists.definitions (code : CodeLists) : List Definition :=
  code.declarations.map .custom

/-- The statements of hand-written code in the region with a handle. -/
def CodeLists.body (handle : String) (code : CodeLists) : List Statement :=
  code.wrappings.map fun text => .custom ("\t" ++ Text.replaced "<class>" handle text)

/-- A region with hand-written code at its end. -/
def Region.withCode (r : Region) (code : CodeLists) : Region :=
  { r with
    definitions := r.definitions ++ code.definitions
    body := r.body ++ code.body r.handle }

/-- Plans for two libraries that say the same, but for Ruby names and for the hand-written code that
each library has for the class of a region. -/
inductive Plan.Alike (R : String → String → Prop) (lib lib' : Library) : Plan → Plan → Prop
  | region {r r' : Region} {ps ps' : List Plan} (hr : r.Alike R r')
      (hlength : ps.length = ps'.length)
      (hparts : ∀ p p', (p, p') ∈ ps.zip ps' → Alike R lib lib' p p') :
      Alike R lib lib' (.region r ps) (.region r' ps')
  | coded {i : DeclId} {r r' : Region} {ps ps' : List Plan} (hi : r.node = some i)
      (hr : r.Alike R r') (hlength : ps.length = ps'.length)
      (hparts : ∀ p p', (p, p') ∈ ps.zip ps' → Alike R lib lib' p p') :
      Alike R lib lib' (.region (r.withCode (lib.note i).customCode) ps)
        (.region (r'.withCode (lib'.note i).customCode) ps')

/-- Drafts for two libraries that say the same, but for Ruby names and hand-written code. -/
structure Draft.Alike (R : String → String → Prop) (lib lib' : Library) (d d' : Draft) : Prop where
  includes : d'.includes = d.includes
  definitions : List.Forall₂ (Code.Definition.Alike R) d.definitions d'.definitions
  body : List.Forall₂ (Code.Statement.Alike R) d.body d'.body
  parts : List.Forall₂ (Plan.Alike R lib lib') d.parts d'.parts

/-! ## Putting drafts together -/

section Drafts

variable {R : String → String → Prop} {lib lib' : Library} {d d' e e' : Draft}

theorem Code.Definition.alike_all (ds : List Definition) :
    List.Forall₂ (Code.Definition.Alike R) ds ds :=
  List.forall₂_same.mpr fun d _ => .same d

theorem Code.Statement.alike_all (ss : List Statement) :
    List.Forall₂ (Code.Statement.Alike R) ss ss :=
  List.forall₂_same.mpr fun s _ => .same s

namespace Draft

/-- A draft without parts is like itself. -/
theorem Alike.refl (hparts : d.parts = []) : d.Alike R lib lib' d where
  includes := rfl
  definitions := Code.Definition.alike_all _
  body := Code.Statement.alike_all _
  parts := by
    rw [hparts]
    exact .nil

/-- A draft that is one statement. -/
theorem Alike.statement {s s' : Statement} (h : s.Alike R s') :
    (Draft.statement s).Alike R lib lib' (Draft.statement s') :=
  ⟨rfl, .nil, .cons h .nil, .nil⟩

/-- A draft that is a few parts. -/
theorem Alike.ofParts {ps ps' : List Plan} (h : List.Forall₂ (Plan.Alike R lib lib') ps ps') :
    Draft.Alike R lib lib' { parts := ps } { parts := ps' } :=
  ⟨rfl, .nil, .nil, h⟩

theorem Alike.append (h : d.Alike R lib lib' d') (h' : e.Alike R lib lib' e') :
    (d ++ e).Alike R lib lib' (d' ++ e') where
  includes := by
    show d'.includes ++ e'.includes = d.includes ++ e.includes
    rw [h.includes, h'.includes]
  definitions := List.rel_append h.definitions h'.definitions
  body := List.rel_append h.body h'.body
  parts := List.rel_append h.parts h'.parts

theorem Alike.join {ds ds' : List Draft} (h : List.Forall₂ (Draft.Alike R lib lib') ds ds') :
    (Draft.join ds).Alike R lib lib' (Draft.join ds') := by
  induction h with
  | nil => exact .refl rfl
  | cons hd _ ih => exact hd.append ih

theorem join_concat (ds : List Draft) (d : Draft) :
    Draft.join (ds ++ [d]) = Draft.join ds ++ d := by
  induction ds with
  | nil =>
    show Draft.mk (d.includes ++ []) (d.definitions ++ []) (d.body ++ []) (d.parts ++ []) = d
    simp only [List.append_nil]
  | cons e ds ih =>
    show e ++ Draft.join (ds ++ [d]) = (e ++ Draft.join ds) ++ d
    rw [ih]
    show Draft.mk (_ ++ (_ ++ _)) (_ ++ (_ ++ _)) (_ ++ (_ ++ _)) (_ ++ (_ ++ _)) = _
    simp only [← List.append_assoc]
    rfl

/-- The region of alike drafts. -/
theorem Alike.region (h : d.Alike R lib lib' d') (name : String) (node : Option DeclId)
    (handle : String) :
    Region.Alike R ⟨name, node, handle, d.includes, d.definitions, d.body⟩
      ⟨name, node, handle, d'.includes, d'.definitions, d'.body⟩ where
  rest := by rw [h.includes]
  definitions := h.definitions
  body := h.body

theorem Alike.toPlan (h : d.Alike R lib lib' d') (name : String) (node : Option DeclId)
    (handle : String) :
    Plan.Alike R lib lib' (d.toPlan name node handle) (d'.toPlan name node handle) := by
  obtain ⟨hlength, hparts⟩ := List.forall₂_iff_zip.mp h.parts
  exact .region (h.region name node handle) hlength fun p p' hp => hparts hp

/-- The plan of a draft with hand-written code at its end. -/
theorem toPlan_append_code (d : Draft) (code : CodeLists) (name : String)
    (node : Option DeclId) (handle : String) :
    Draft.toPlan (d ++ {
      definitions := CodeLists.definitions code
      body := CodeLists.body handle code }) name node handle =
      .region (Region.withCode ⟨name, node, handle, d.includes, d.definitions, d.body⟩ code)
        d.parts := by
  show Plan.region ⟨name, node, handle, d.includes ++ [], _, _⟩ (d.parts ++ []) = _
  rw [List.append_nil, List.append_nil]
  rfl

theorem Alike.toCodedPlan (h : d.Alike R lib lib' d') (name : String) (i : DeclId)
    (handle : String) :
    Plan.Alike R lib lib'
      (Draft.toPlan (d ++ {
        definitions := CodeLists.definitions (lib.note i).customCode
        body := CodeLists.body handle (lib.note i).customCode }) name (some i) handle)
      (Draft.toPlan (d' ++ {
        definitions := CodeLists.definitions (lib'.note i).customCode
        body := CodeLists.body handle (lib'.note i).customCode }) name (some i) handle) := by
  rw [toPlan_append_code, toPlan_append_code]
  obtain ⟨hlength, hparts⟩ := List.forall₂_iff_zip.mp h.parts
  exact .coded rfl (h.region name (some i) handle) hlength fun p p' hp => hparts hp

end Draft

end Drafts

/-! ## Where no name changes -/

theorem eq_of_forall₂_alike {α : Type} {S : α → α → Prop} (hS : ∀ a b, S a b → a = b)
    {l l' : List α} (h : List.Forall₂ S l l') : l = l' := by
  have heq := h.imp hS
  rwa [List.forall₂_eq_eq_eq] at heq

theorem Code.Statement.Alike.eq {s s' : Statement} (h : s.Alike Eq s') : s = s' := by
  cases h with
  | same s => rfl
  | defineModule h => rw [h]
  | defineClass h => rw [h]
  | defineEnum h => rw [h]
  | bind h => rw [h]

theorem Code.Override.Alike.eq {o o' : Override} (h : o.Alike Eq o') : o = o' := by
  rw [h.rest, ← h.ruby]

theorem Code.Definition.Alike.eq {d d' : Definition} (h : d.Alike Eq d') : d = d' := by
  cases h with
  | same d => rfl
  | director h => rw [h.rest, ← eq_of_forall₂_alike (fun _ _ => Override.Alike.eq) h.overrides]

theorem Region.Alike.eq {r r' : Region} (h : r.Alike Eq r') : r = r' := by
  rw [h.rest, ← eq_of_forall₂_alike (fun _ _ => Code.Definition.Alike.eq) h.definitions,
    ← eq_of_forall₂_alike (fun _ _ => Code.Statement.Alike.eq) h.body]

end RubyBinding
