import RubyBinding.Header.Entry
import RubyBinding.Proofs.Orderly
import RubyBinding.Proofs.Words

/-!
# What entering makes of a text

Of the text of a declaration two things are looked at: whether `=delete` stands somewhere in it, and
whether `=0;` ends it. `gist` keeps no more of what a header says than that, and what is entered is
the same (`enter_gist`). Neither mark can reach over a brace, so what stands between braces in a
text only matters if it has the first mark by itself (`isDeleted_braces`, `endsPure_braces`).
-/

namespace RubyBinding

/-! ## Marks beside a character that they do not have -/

section

variable {α : Type} {w u v : List α} {c : α}

/-- What does not have a character stands on one side of it. -/
theorem infix_append_cons_iff (hne : w ≠ []) (hc : c ∉ w) :
    w <:+: u ++ c :: v ↔ w <:+: u ∨ w <:+: v := by
  constructor
  · intro h
    rcases List.infix_append_iff_ne_nil.mp h with hu | hv | ⟨a, b, -, hb, rfl, -, hpre⟩
    · exact .inl hu
    · rcases List.infix_cons_iff.mp hv with hpre | hv
      · obtain ⟨d, r, rfl⟩ := List.exists_cons_of_ne_nil hne
        exact absurd ((List.cons_prefix_cons.mp hpre).1 ▸ List.mem_cons_self) hc
      · exact .inr hv
    · obtain ⟨d, r, rfl⟩ := List.exists_cons_of_ne_nil hb
      have hd : d = c := (List.cons_prefix_cons.mp hpre).1
      exact absurd (List.mem_append_right a (hd ▸ List.mem_cons_self)) hc
  · rintro (h | h)
    · exact h.trans List.infix_append_left
    · exact (List.infix_cons h).trans List.infix_append_right

/-- What does not have a character and ends a text stands behind it. -/
theorem suffix_append_cons_iff (hc : c ∉ w) : w <:+ u ++ c :: v ↔ w <:+ v := by
  constructor
  · intro h
    rcases List.suffix_or_suffix_of_suffix h (List.suffix_append u (c :: v)) with hw | hv
    · rcases List.suffix_cons_iff.mp hw with rfl | hw
      · exact absurd List.mem_cons_self hc
      · exact hw
    · exact absurd (hv.subset List.mem_cons_self) hc
  · intro h
    exact (h.trans (List.suffix_cons c v)).trans (List.suffix_append u _)

end

namespace Header

/-! ## Texts -/

/-- Whether a text ends as that of a pure declaration may. -/
def endsPure (text : String) : Bool := (Text.before? "=0;".toList (withoutBlanks text)).isSome

theorem isPure_eq (text : String) (default : Option String) :
    isPure text default = ((default.any fun d => Text.trimmed d == "0") || endsPure text) := rfl

/-- A text without blanks has its other characters, in their order. -/
theorem withoutBlanks_append (u v : String) :
    withoutBlanks (u ++ v) = withoutBlanks u ++ withoutBlanks v := by
  simp only [withoutBlanks, Text.flatten_words, String.toList_append, List.filter_append]

theorem withoutBlanks_braces (u m v : String) :
    withoutBlanks (u ++ "\x7b" ++ m ++ "\x7d" ++ v) =
      withoutBlanks u ++ '\x7b' :: (withoutBlanks m ++ '\x7d' :: withoutBlanks v) := by
  have hopen : withoutBlanks "\x7b" = ['\x7b'] := by cbv
  have hclose : withoutBlanks "\x7d" = ['\x7d'] := by cbv
  simp only [withoutBlanks_append, hopen, hclose, List.append_assoc, List.cons_append, List.nil_append]

theorem isDeleted_iff {text : String} :
    isDeleted text ↔ "=delete".toList <:+: withoutBlanks text := Text.hasPart_iff

/-- A deletion stands in front of some braces, between them or behind them. -/
theorem isDeleted_braces (u m v : String) :
    isDeleted (u ++ "\x7b" ++ m ++ "\x7d" ++ v) = (isDeleted u || isDeleted m || isDeleted v) := by
  have hne : "=delete".toList ≠ [] := by decide
  rw [Bool.eq_iff_iff, Bool.or_eq_true, Bool.or_eq_true]
  simp only [isDeleted_iff, withoutBlanks_braces]
  rw [infix_append_cons_iff hne (by decide), infix_append_cons_iff hne (by decide), or_assoc]

/-- What ends a text stands behind the braces in it. -/
theorem endsPure_braces (u m v : String) :
    endsPure (u ++ "\x7b" ++ m ++ "\x7d" ++ v) = endsPure v := by
  rw [Bool.eq_iff_iff]
  simp only [endsPure, Text.isSome_before?_iff, withoutBlanks_braces]
  rw [suffix_append_cons_iff (by decide), suffix_append_cons_iff (by decide)]

/-! ## Gists -/

/-- The marks that a text has. -/
def gistOfText (text : String) : String :=
  (if isDeleted text then "=delete" else "") ++ (if endsPure text then "=0;" else "")

/-- Whether an initialiser is zero. -/
def gistOfDefault (text : String) : String := if Text.trimmed text == "0" then "0" else ""

theorem isDeleted_gistOfText (text : String) : isDeleted (gistOfText text) = isDeleted text := by
  rw [gistOfText]
  cases isDeleted text <;> cases endsPure text <;> cbv

theorem endsPure_gistOfText (text : String) : endsPure (gistOfText text) = endsPure text := by
  rw [gistOfText]
  cases isDeleted text <;> cases endsPure text <;> cbv

theorem trimmed_gistOfDefault (text : String) :
    (Text.trimmed (gistOfDefault text) == "0") = (Text.trimmed text == "0") := by
  rw [gistOfDefault]
  split
  next h => rw [h]; cbv
  next h => rw [Bool.eq_false_iff.mpr h]; cbv

theorem isPure_gist (text : String) (default : Option String) :
    isPure (gistOfText text) (default.map gistOfDefault) = isPure text default := by
  rw [isPure_eq, isPure_eq, endsPure_gistOfText]
  cases default with
  | none => rfl
  | some d => rw [Option.map_some, Option.any_some, Option.any_some, trimmed_gistOfDefault]

mutual

def Definition.gist : Definition → Definition
  | .record isStruct name bases members => .record isStruct name bases (gistMembers members)
  | .enumeration isScoped name values => .enumeration isScoped name values

/-- A declaration with no more of its texts than their gists. -/
def Declaration.gist : Declaration → Declaration
  | .mk none specifiers declarators isField default head body =>
    .mk none specifiers declarators isField (default.map gistOfDefault) (gistOfText (head ++ body)) ""
  | .mk (some d) specifiers declarators isField default head body =>
    .mk (some d.gist) specifiers declarators isField (default.map gistOfDefault)
      (gistOfText (head ++ body)) ""

def Member.gist : Member → Member
  | .label access => .label access
  | .declaration d => .declaration d.gist
  | .typedef none specifiers declarators => .typedef none specifiers declarators
  | .typedef (some d) specifiers declarators => .typedef (some d.gist) specifiers declarators
  | .synonym name spelling => .synonym name spelling

def gistMembers : List Member → List Member
  | [] => []
  | m :: ms => m.gist :: gistMembers ms

end

theorem Declaration.gist_mk (definition : Option Definition) (specifiers : Specifiers)
    (declarators : List Declarator) (isField : Bool) (default : Option String) (head body : String) :
    (Declaration.mk definition specifiers declarators isField default head body).gist =
      .mk (definition.map Definition.gist) specifiers declarators isField
        (default.map gistOfDefault) (gistOfText (head ++ body)) "" := by
  cases definition <;> rw [Declaration.gist] <;> rfl

theorem Member.gist_typedef (definition : Option Definition) (specifiers : Specifiers)
    (declarators : List Declarator) :
    (Member.typedef definition specifiers declarators).gist =
      .typedef (definition.map Definition.gist) specifiers declarators := by
  cases definition <;> rw [Member.gist] <;> rfl

theorem gistMembers_append (ms ns : List Member) :
    gistMembers (ms ++ ns) = gistMembers ms ++ gistMembers ns := by
  induction ms with
  | nil => rw [gistMembers, List.nil_append, List.nil_append]
  | cons m ms ih => rw [List.cons_append, gistMembers, gistMembers, ih, List.cons_append]

theorem gistMembers_toList (o : Option Member) :
    gistMembers o.toList = (o.map Member.gist).toList := by
  cases o with
  | none => rw [Option.toList_none, gistMembers, Option.map_none, Option.toList_none]
  | some m => rw [Option.toList_some, gistMembers, gistMembers, Option.map_some, Option.toList_some]

mutual

def Item.gist : Item → Item
  | .nspace name items => .nspace name (gistItems items)
  | .member m => .member m.gist
  | .group items => .group (gistItems items)

def gistItems : List Item → List Item
  | [] => []
  | i :: is => i.gist :: gistItems is

end

theorem gistItems_append (is js : List Item) :
    gistItems (is ++ js) = gistItems is ++ gistItems js := by
  induction is with
  | nil => rw [gistItems, List.nil_append, List.nil_append]
  | cons i is ih => rw [List.cons_append, gistItems, gistItems, ih, List.cons_append]

theorem gistItems_toList (o : Option Item) : gistItems o.toList = (o.map Item.gist).toList := by
  cases o with
  | none => rw [Option.toList_none, gistItems, Option.map_none, Option.toList_none]
  | some i => rw [Option.toList_some, gistItems, gistItems, Option.map_some, Option.toList_some]

/-! ## Entering -/

theorem nextAccess_gist (m : Member) (access : Access) :
    (match m.gist with
      | .label a => a
      | _ => access) =
    (match m with
      | .label a => a
      | _ => access) := by
  cases m with
  | typedef definition specifiers declarators => cases definition <;> rfl
  | _ => rfl

theorem functionKind?_gist (t : DeclTree) (scope : DeclId) (specifiers : Specifiers)
    (text : String) (default : Option String) :
    functionKind? t scope specifiers (gistOfText text) (default.map gistOfDefault) =
      functionKind? t scope specifiers text default := by
  funext name d s
  simp only [functionKind?, isDeleted_gistOfText, isPure_gist]

theorem enterDeclarators_gist (t : DeclTree) (file : String) (access : Access) (scope : DeclId)
    (specifiers : Specifiers) (isField : Bool) (text : String) (default : Option String)
    (ds : List Declarator) :
    enterDeclarators t file access scope specifiers isField (gistOfText text)
      (default.map gistOfDefault) ds =
    enterDeclarators t file access scope specifiers isField text default ds := by
  induction ds generalizing t with
  | nil => rfl
  | cons d ds ih => simp only [enterDeclarators, declaredKind?, functionKind?_gist, ih]

-- By induction on what is entered. The texts of a declaration come in with its declarators only.
mutual

theorem enterDefinition_gist (t : DeclTree) (file : String) (access : Access) (scope : DeclId)
    (given : Option String) :
    (d : Definition) →
      enterDefinition t file access scope given d.gist = enterDefinition t file access scope given d
  | .record isStruct name bases members => by
    simp only [Definition.gist, enterDefinition, enterMembers_gist]
  | .enumeration isScoped name values => by rw [Definition.gist]

theorem enterDeclaration_gist (t : DeclTree) (file : String) (access : Access) (scope : DeclId) :
    (d : Declaration) →
      enterDeclaration t file access scope d.gist = enterDeclaration t file access scope d
  | .mk none specifiers declarators isField default head body => by
    simp only [Declaration.gist, enterDeclaration, String.append_empty, enterDeclarators_gist]
  | .mk (some d) specifiers declarators isField default head body => by
    simp only [Declaration.gist, enterDeclaration, String.append_empty, enterDeclarators_gist,
      enterDefinition_gist t file access scope none d]

theorem enterMember_gist (t : DeclTree) (file : String) (access : Access) (scope : DeclId) :
    (m : Member) → enterMember t file access scope m.gist = enterMember t file access scope m
  | .label _ => by rw [Member.gist]
  | .declaration d => by
    rw [Member.gist, enterMember, enterMember, enterDeclaration_gist t file access scope d]
  | .typedef none specifiers declarators => by rw [Member.gist]
  | .typedef (some (.record isStruct name bases members)) specifiers declarators => by
    have hd := enterDefinition_gist t file access scope (typedefName? declarators)
      (.record isStruct name bases members)
    rw [Definition.gist] at hd
    rw [Member.gist, Definition.gist, enterMember, enterMember, hd]
  | .typedef (some (.enumeration isScoped name values)) specifiers declarators => by
    rw [Member.gist, Definition.gist]
  | .synonym name spelling => by rw [Member.gist]

theorem enterMembers_gist (t : DeclTree) (file : String) (access : Access) (scope : DeclId) :
    (ms : List Member) →
      enterMembers t file access scope (gistMembers ms) = enterMembers t file access scope ms
  | [] => by rw [gistMembers]
  | m :: ms => by
    have hm := enterMember_gist t file access scope m
    rw [gistMembers]
    unfold enterMembers
    rw [hm, enterMembers_gist _ file _ scope ms]
    exact congrArg (fun next => enterMembers _ file next scope ms) (nextAccess_gist m access)

end

mutual

theorem enterItem_gist (t : DeclTree) (file : String) (scope : DeclId) :
    (i : Item) → enterItem t file scope i.gist = enterItem t file scope i
  | .nspace none items => by rw [Item.gist, enterItem, enterItem]
  | .nspace (some name) items => by
    rw [Item.gist, enterItem, enterItem]
    exact enterItems_gist _ file _ items
  | .member m => by rw [Item.gist, enterItem, enterItem, enterMember_gist]
  | .group items => by
    rw [Item.gist, enterItem, enterItem]
    exact enterItems_gist t file scope items

theorem enterItems_gist (t : DeclTree) (file : String) (scope : DeclId) :
    (is : List Item) → enterItems t file scope (gistItems is) = enterItems t file scope is
  | [] => by rw [gistItems]
  | i :: is => by
    rw [gistItems, enterItems, enterItems, enterItem_gist t file scope i,
      enterItems_gist _ file scope is]

end

/-- What is entered of a header is entered of its gist. -/
theorem enter_gist (t : DeclTree) (file : String) (items : List Item) :
    enter t file (gistItems items) = enter t file items :=
  enterItems_gist t file DeclTree.root items

end Header

end RubyBinding
