import Mathlib
import RubyBinding.Document.Reader
import RubyBinding.Proofs.Nesting
import RubyBinding.Proofs.Walks

/-!
# Documents as texts

A document is read from the value that it is written as (`Document.ofJson?_toJson`): each kind is
read from its own fields whatever members stand around them, because no two fields of a document
share a key (`kind?_congr`), and what is left out of a text is the default that a reader takes. An
enumerator's value is the one field with a bound, 64 bits, and only such values are read
(`Document.fits_of_ofJson?`). Together with the depth to which texts may nest this says exactly
which documents come back from their text (`Document.read?_text_iff`).
-/

namespace RubyBinding

open Json (Value)

/-- Whether all enumerators of a kind have values of 64 bits. -/
def Kind.Fits : Kind → Prop
  | .enumeration _ values => ∀ e ∈ values, ∀ n, e.value = some n → -2 ^ 63 ≤ n ∧ n < 2 ^ 63
  | _ => True

namespace Document

/-! ## Parts of a document -/

mutual

/-- A type is read as it is written, in either form. -/
theorem type?_toJson (form : Form) (t : Ty) : type? form t.toJson = some t := by
  cases t with
  | void => rfl
  | bool => rfl
  | float => rfl
  | double => rfl
  | integer w isSigned => cases w <;> rfl
  | named name => rfl
  | pointer t isConst =>
    have h := type?_toJson form t
    simp [Ty.toJson, Json.single, type?, width?, memberParts?, h, typeFields, once, bool?, typeOf?,
      List.lookup]
  | reference t isConst isRvalue =>
    have h := type?_toJson form t
    simp [Ty.toJson, Json.single, type?, width?, memberParts?, h, typeFields, once, bool?, typeOf?,
      List.lookup]
  | function result ts =>
    have h := type?_toJson form result
    have hs := types?_toJsonList form ts
    simp [Ty.toJson, Json.single, type?, width?, memberParts?, h, hs, typeFields, once, typeOf?,
      List.lookup]

theorem types?_toJsonList (form : Form) (ts : List Ty) :
    types? form (Ty.toJsonList ts) = some ts := by
  cases ts with
  | nil => rfl
  | cons t ts => simp [Ty.toJsonList, types?, type?_toJson form t, types?_toJsonList form ts]

end

theorem param?_toJson (form : Form) (p : Param) : param? form p.toJson = some p := by
  obtain ⟨name, ty⟩ := p
  have hname : name? (Json.ofName name) = some name := by
    cases name <;> rfl
  simp [Param.toJson, param?, record?, optional?, required?, field?, hname, type?_toJson]

theorem base?_toJson (b : Base) : base? b.toJson = some b := by
  obtain ⟨name, access, isVirtual⟩ := b
  have haccess : access? .loose (.string access.word) = some access := by
    cases access <;> rfl
  simp [Base.toJson, base?, record?, optional?, required?, field?, string?, bool?, haccess]

theorem enumerator?_toJson {e : Enumerator}
    (h : ∀ n, e.value = some n → -2 ^ 63 ≤ n ∧ n < 2 ^ 63) : enumerator? e.toJson = some e := by
  obtain ⟨name, value⟩ := e
  have hvalue : number? ((value.map Value.integer).getD .null) = some value := by
    cases value with
    | none => rfl
    | some n => exact if_pos (h n rfl)
  simp [Enumerator.toJson, enumerator?, record?, optional?, required?, field?, string?, hvalue]

/-- An array is read item by item as it is written item by item. -/
theorem items?_map {α : Type} {read : Value → Option α} {write : α → Value} {xs : List α}
    (h : ∀ x ∈ xs, read (write x) = some x) : items? read (.array (xs.map write)) = some xs := by
  rw [items?]
  induction xs with
  | nil => rfl
  | cons x xs ih =>
    rw [List.map_cons, List.mapM_cons, h x List.mem_cons_self,
      ih fun y hy => h y (List.mem_cons_of_mem x hy)]
    rfl

/-- A kind is read from its own fields. -/
theorem kind?_members {k : Kind} (h : k.Fits) : kind? k.members = some k := by
  have hparams : ∀ ps : List Param,
      items? (param? .loose) (.array (ps.map Param.toJson)) = some ps :=
    fun ps => items?_map fun p _ => param?_toJson .loose p
  have hbases : ∀ bs : List Base, items? base? (.array (bs.map Base.toJson)) = some bs :=
    fun bs => items?_map fun b _ => base?_toJson b
  cases k with
  | nspace => rfl
  | record isStruct bases =>
    simp [Kind.members, Kind.fields, Kind.word, kind?, required?, optional?, field?, string?, bool?,
      hbases]
  | function result params =>
    have hfields : (Kind.function result params).fields =
      [("return_type", result.toJson), ("params", .array (params.map Param.toJson))] := rfl
    simp [Kind.members, hfields, Kind.word, kind?, required?, optional?, field?, string?,
      type?_toJson, hparams]
  | method result params flags =>
    have hfields : (Kind.method result params flags).fields =
      [("return_type", result.toJson), ("params", .array (params.map Param.toJson)),
      ("is_static", .bool flags.isStatic), ("is_virtual", .bool flags.isVirtual),
      ("is_pure_virtual", .bool flags.isPure), ("is_const", .bool flags.isConst)] := rfl
    simp [Kind.members, hfields, Kind.word, kind?, required?, optional?, field?, string?, bool?,
      type?_toJson, hparams]
  | ctor params =>
    have hfields : (Kind.ctor params).fields = [("params", .array (params.map Param.toJson))] := rfl
    simp [Kind.members, hfields, Kind.word, kind?, required?, optional?, field?, string?, hparams]
  | field ty isStatic isConst =>
    simp [Kind.members, Kind.fields, Kind.word, kind?, required?, optional?, field?, string?, bool?,
      type?_toJson]
  | enumeration isScoped values =>
    have hvalues : items? enumerator? (.array (values.map Enumerator.toJson)) = some values :=
      items?_map fun e he => enumerator?_toJson (h e he)
    simp [Kind.members, Kind.fields, Kind.word, kind?, required?, optional?, field?, string?, bool?,
      hvalues]
  | typedef underlying =>
    simp [Kind.members, Kind.fields, Kind.word, kind?, required?, optional?, field?, string?,
      type?_toJson]

/-! ## Members -/

section Fields

variable {as bs : List (String × Value)} {key : String}

theorem field?_append_left (h : key ∉ bs.map Prod.fst) :
    field? (as ++ bs) key = field? as key := by
  have hnil : bs.filter (·.1 == key) = [] := by
    rw [List.filter_eq_nil_iff]
    intro m hm heq
    exact h (List.mem_map.mpr ⟨m, hm, beq_iff_eq.mp heq⟩)
  rw [field?, field?, List.filter_append, hnil, List.append_nil]

theorem field?_append_right (h : key ∉ as.map Prod.fst) :
    field? (as ++ bs) key = field? bs key := by
  have hnil : as.filter (·.1 == key) = [] := by
    rw [List.filter_eq_nil_iff]
    intro m hm heq
    exact h (List.mem_map.mpr ⟨m, hm, beq_iff_eq.mp heq⟩)
  rw [field?, field?, List.filter_append, hnil, List.nil_append]

end Fields

/-- The keys of what a kind is read from. -/
def kindKeys : List String :=
  ["kind", "is_struct", "bases", "return_type", "params", "is_static", "is_virtual",
    "is_pure_virtual", "is_const", "ty", "is_scoped", "values", "underlying"]

/-- A kind depends on these fields only. -/
theorem kind?_congr {ms ms' : List (String × Value)}
    (h : ∀ key ∈ kindKeys, field? ms key = field? ms' key) : kind? ms = kind? ms' := by
  simp only [kindKeys, List.forall_mem_cons] at h
  obtain ⟨h1, h2, h3, h4, h5, h6, h7, h8, h9, h10, h11, h12, h13, -⟩ := h
  simp only [kind?, required?, optional?, h1, h2, h3, h4, h5, h6, h7, h8, h9, h10, h11, h12, h13]

theorem mem_kindKeys (k : Kind) : ∀ key ∈ k.members.map Prod.fst, key ∈ kindKeys := by
  cases k <;> simp [Kind.members, Kind.fields, kindKeys]

/-- The members of a document behind those of its kind. -/
def closing (d : Document) : List (String × Value) :=
  [("access", .string d.access.word)] ++
    (match d.file with
      | none => []
      | some f => [("file", .string f)]) ++
    (match d.children with
      | [] => []
      | c :: cs => [("children", .array (c.toJson :: toJsonList cs))])

theorem toJson_eq (d : Document) :
    d.toJson = .object ([("name", .string d.name)] ++ (d.kind.members ++ d.closing)) := by
  obtain ⟨name, kind, access, file, children⟩ := d
  cases file <;> cases children <;> simp [toJson, closing]

theorem keys_closing (d : Document) :
    ∀ key ∈ d.closing.map Prod.fst, key = "access" ∨ key = "file" ∨ key = "children" := by
  obtain ⟨name, kind, access, file, children⟩ := d
  cases file <;> cases children <;> simp [closing]

theorem spellKind_of_ne {m : String × Value} (h : m.1 ≠ "kind") : spellKind m = m := by
  unfold spellKind
  split
  · exact absurd rfl h
  · rfl

theorem not_mem_closing {d : Document} {key : String} (h : key ∈ kindKeys) :
    key ∉ d.closing.map Prod.fst := by
  intro hmem
  rcases keys_closing d key hmem with rfl | rfl | rfl <;> simp [kindKeys] at h

theorem not_mem_members {k : Kind} {key : String} (h : key ∉ kindKeys) :
    key ∉ k.members.map Prod.fst := fun hmem => h (mem_kindKeys k key hmem)

/-- The kind of a document is always given by its word. -/
theorem map_spellKind (d : Document) :
    ([("name", Value.string d.name)] ++ (d.kind.members ++ d.closing)).map spellKind =
      [("name", Value.string d.name)] ++ (d.kind.members ++ d.closing) := by
  have hfields : ∀ m ∈ d.kind.fields, m.1 ≠ "kind" := by
    cases d.kind <;> simp [Kind.fields]
  have hclosing : ∀ m ∈ d.closing, m.1 ≠ "kind" := by
    intro m hm heq
    rcases keys_closing d m.1 (List.mem_map_of_mem hm) with h | h | h <;> simp [h] at heq
  conv_rhs => rw [← List.map_id ([("name", Value.string d.name)] ++ _)]
  refine List.map_congr_left fun m hm => ?_
  rw [Kind.members, List.singleton_append, List.cons_append, List.mem_cons, List.mem_cons,
    List.mem_append] at hm
  rcases hm with rfl | rfl | hm | hm
  · rfl
  · rfl
  · exact spellKind_of_ne (hfields m hm)
  · exact spellKind_of_ne (hclosing m hm)

/-- A kind is read from its fields wherever they stand in a document. -/
theorem kind?_toJson {d : Document} (h : d.kind.Fits) :
    kind? ([("name", Value.string d.name)] ++ (d.kind.members ++ d.closing)) = some d.kind := by
  rw [← kind?_members h]
  refine kind?_congr fun key hkey => ?_
  rw [field?_append_right, field?_append_left (not_mem_closing hkey)]
  intro hmem
  rw [List.mem_singleton.mp hmem] at hkey
  simp [kindKeys] at hkey

theorem childrenOf?_append {as : List (String × Value)} (h : "children" ∉ as.map Prod.fst)
    (bs : List (String × Value)) : childrenOf? (as ++ bs) = childrenOf? bs := by
  induction as with
  | nil => rfl
  | cons m as ih =>
    obtain ⟨k, v⟩ := m
    rw [List.map_cons, List.mem_cons, not_or] at h
    have hk : ¬ k = "children" := fun heq => h.1 heq.symm
    rw [List.cons_append, childrenOf?, ih h.2]
    simp only [if_neg hk]
    cases childrenOf? bs <;> rfl

theorem field?_closing (d : Document) :
    field? d.closing "access" = some (some (.string d.access.word)) ∧
      field? d.closing "file" = some (d.file.map .string) := by
  obtain ⟨name, kind, access, file, children⟩ := d
  cases file <;> cases children <;> simp [closing, field?]

/-- The fields of a document that are not those of its kind. -/
theorem field?_toJson (d : Document) :
    let ms := [("name", Value.string d.name)] ++ (d.kind.members ++ d.closing)
    field? ms "name" = some (some (.string d.name)) ∧
      field? ms "access" = some (some (.string d.access.word)) ∧
        field? ms "file" = some (d.file.map .string) := by
  dsimp only
  refine ⟨?_, ?_, ?_⟩
  · rw [field?_append_left]
    · rfl
    · rw [List.map_append, List.mem_append, not_or]
      refine ⟨not_mem_members (by simp [kindKeys]), fun hmem => ?_⟩
      rcases keys_closing d _ hmem with h | h | h <;> simp at h
  · rw [field?_append_right (by simp), field?_append_right (not_mem_members (by simp [kindKeys]))]
    exact (field?_closing d).1
  · rw [field?_append_right (by simp), field?_append_right (not_mem_members (by simp [kindKeys]))]
    exact (field?_closing d).2

theorem childrenOf?_toJson {d : Document}
    (h : ofJsonList? (toJsonList d.children) = some d.children) :
    (childrenOf? ([("name", Value.string d.name)] ++ (d.kind.members ++ d.closing))).map
      (·.getD []) = some d.children := by
  rw [childrenOf?_append (by simp), childrenOf?_append (not_mem_members (by simp [kindKeys]))]
  obtain ⟨name, kind, access, file, children⟩ := d
  dsimp only at h
  rw [closing, childrenOf?_append]
  · cases children with
    | nil => rfl
    | cons c cs =>
      rw [toJsonList] at h
      simp [childrenOf?, once, h]
  · cases file <;> simp

theorem access?_word (a : Access) : access? .strict (.string a.word) = some a := by
  cases a <;> rfl

/-- A document is read from the value that it is written as, if what is declared in it is. -/
theorem ofJson?_of_children {d : Document} (hkind : d.kind.Fits)
    (h : ofJsonList? (toJsonList d.children) = some d.children) : ofJson? d.toJson = some d := by
  obtain ⟨hname, haccess, hfile⟩ := field?_toJson d
  obtain ⟨children, hchildren, hget⟩ := Option.map_eq_some_iff.mp (childrenOf?_toJson h)
  have hname' : optional? ([("name", Value.string d.name)] ++ (d.kind.members ++ d.closing)) "name"
      "" string? = some d.name := by
    rw [optional?, hname]
    rfl
  have haccess' : optional? ([("name", Value.string d.name)] ++ (d.kind.members ++ d.closing))
      "access" .pub (access? .strict) = some d.access := by
    rw [optional?, haccess]
    exact access?_word d.access
  have hfile' : optional? ([("name", Value.string d.name)] ++ (d.kind.members ++ d.closing)) "file"
      none name? = some d.file := by
    rw [optional?, hfile]
    cases d.file <;> rfl
  rw [toJson_eq, ofJson?, hchildren, map_spellKind, kind?_toJson hkind, hname', haccess', hfile']
  simp only [Option.bind_eq_bind, Option.bind_some, hget]
  cases d
  rfl

mutual

/-- **A document is read from the value that it is written as**, whatever its kinds, names, types,
files and children are. -/
theorem ofJson?_toJson {d : Document} (h : ∀ e ∈ d.heads, e.kind.Fits) :
    ofJson? d.toJson = some d := by
  obtain ⟨name, kind, access, file, children⟩ := d
  rw [heads] at h
  have hkind : kind.Fits := h _ List.mem_cons_self
  refine ofJson?_of_children hkind ?_
  exact ofJsonList?_toJsonList fun e he => h e (List.mem_cons_of_mem _ he)

theorem ofJsonList?_toJsonList {ds : List Document} (h : ∀ e ∈ headsOf ds, e.kind.Fits) :
    ofJsonList? (toJsonList ds) = some ds := by
  cases ds with
  | nil => rfl
  | cons d ds =>
    rw [headsOf] at h
    have hd := ofJson?_toJson fun e he => h e (List.mem_append_left _ he)
    have hds := ofJsonList?_toJsonList fun e he => h e (List.mem_append_right _ he)
    rw [toJsonList, ofJsonList?, hd, hds]
    rfl

end

/-! ## What is read -/

theorem of_optional? {α : Type} {ms : List (String × Value)} {key : String} {default a : α}
    {read : Value → Option α} (h : optional? ms key default read = some a) :
    a = default ∨ ∃ v, read v = some a := by
  rw [optional?, Option.bind_eq_bind, Option.bind_eq_some_iff] at h
  obtain ⟨found, -, h⟩ := h
  cases found with
  | none =>
    cases h
    exact .inl rfl
  | some v => exact .inr ⟨v, h⟩

theorem mem_of_items? {α : Type} {read : Value → Option α} {v : Value} {xs : List α}
    (h : items? read v = some xs) : ∀ x ∈ xs, ∃ w, read w = some x := by
  cases v with
  | array vs =>
    change vs.mapM read = some xs at h
    induction vs generalizing xs with
    | nil =>
      cases h
      exact fun _ hx => nomatch hx
    | cons w ws ih =>
      rw [List.mapM_cons, Option.bind_eq_bind, Option.bind_eq_some_iff] at h
      obtain ⟨y, hy, h⟩ := h
      rw [Option.bind_eq_bind, Option.bind_eq_some_iff] at h
      obtain ⟨ys, hys, h⟩ := h
      cases h
      exact List.forall_mem_cons.mpr ⟨⟨w, hy⟩, ih hys⟩
  | _ => cases h

theorem fits_of_enumerator? {v : Value} {e : Enumerator} (h : enumerator? v = some e) :
    ∀ n, e.value = some n → -2 ^ 63 ≤ n ∧ n < 2 ^ 63 := by
  simp only [enumerator?, Option.bind_eq_bind, Option.bind_eq_some_iff] at h
  obtain ⟨ms, -, name, -, value, hvalue, heq⟩ := h
  cases heq
  rintro n rfl
  rcases of_optional? hvalue with h | ⟨v, hv⟩
  · cases h
  · unfold number? at hv
    split at hv
    · cases hv
    · split at hv
      · next hn =>
        cases hv
        exact hn
      · cases hv
    · cases hv

/-- Only values of 64 bits are read. -/
theorem fits_of_kind? {ms : List (String × Value)} {k : Kind} (h : kind? ms = some k) : k.Fits := by
  cases k with
  | enumeration isScoped values =>
    have hvalues : optional? ms "values" [] (items? enumerator?) = some values := by
      simp only [kind?, Option.bind_eq_bind, Option.bind_eq_some_iff] at h
      obtain ⟨word, -, h⟩ := h
      split at h
      all_goals simp [Option.bind_eq_some_iff] at h
      exact h.2
    intro e he
    rcases of_optional? hvalues with rfl | ⟨v, hv⟩
    · cases he
    · obtain ⟨w, hw⟩ := mem_of_items? hv e he
      exact fits_of_enumerator? hw
  | _ => trivial

mutual

/-- Whatever a document is read from, its enumerators have values of 64 bits. -/
theorem fits_of_ofJson? {v : Value} {d : Document} (h : ofJson? v = some d) :
    ∀ e ∈ d.heads, e.kind.Fits := by
  cases v with
  | object ms =>
    simp only [ofJson?, Option.bind_eq_bind, Option.bind_eq_some_iff] at h
    obtain ⟨children, hchildren, name, -, kind, hkind, access, -, file, -, heq⟩ := h
    cases heq
    rw [heads, List.forall_mem_cons]
    refine ⟨fits_of_kind? hkind, ?_⟩
    cases children with
    | none => exact fun _ he => nomatch he
    | some cs => exact fits_of_childrenOf? hchildren
  | _ => cases h

theorem fits_of_childrenOf? {ms : List (String × Value)} {cs : List Document}
    (h : childrenOf? ms = some (some cs)) : ∀ e ∈ headsOf cs, e.kind.Fits := by
  cases ms with
  | nil => cases h
  | cons m ms =>
    obtain ⟨k, v⟩ := m
    rw [childrenOf?, Option.bind_eq_bind, Option.bind_eq_some_iff] at h
    obtain ⟨rest, hrest, h⟩ := h
    split at h
    · cases v with
      | array vs =>
        change once rest (ofJsonList? vs) = some (some cs) at h
        unfold once at h
        split at h
        · next ds hds =>
          cases h
          exact fits_of_ofJsonList? hds
        · cases h
      | _ => cases h
    · cases h
      exact fits_of_childrenOf? hrest

theorem fits_of_ofJsonList? {vs : List Value} {ds : List Document}
    (h : ofJsonList? vs = some ds) : ∀ e ∈ headsOf ds, e.kind.Fits := by
  cases vs with
  | nil =>
    cases h
    exact fun _ he => nomatch he
  | cons v vs =>
    rw [ofJsonList?, Option.bind_eq_bind, Option.bind_eq_some_iff] at h
    obtain ⟨d, hd, h⟩ := h
    rw [Option.bind_eq_bind, Option.bind_eq_some_iff] at h
    obtain ⟨ds, hds, h⟩ := h
    cases h
    rw [headsOf]
    exact List.forall_mem_append.mpr ⟨fits_of_ofJson? hd, fits_of_ofJsonList? hds⟩

end

/-! ## Texts -/

mutual

theorem isWhole_type (t : Ty) : t.toJson.IsWhole := by
  cases t with
  | integer w isSigned => exact ⟨⟨trivial, trivial⟩, trivial⟩
  | pointer t isConst =>
    rw [Ty.toJson]
    exact ⟨⟨isWhole_type t, trivial, trivial⟩, trivial⟩
  | reference t isConst isRvalue =>
    rw [Ty.toJson]
    exact ⟨⟨isWhole_type t, trivial, trivial, trivial⟩, trivial⟩
  | function result params =>
    rw [Ty.toJson]
    exact ⟨⟨isWhole_type result, areWhole_types params, trivial⟩, trivial⟩
  | named name => exact ⟨trivial, trivial⟩
  | _ => trivial

theorem areWhole_types (ts : List Ty) : Value.AreWhole (Ty.toJsonList ts) := by
  cases ts with
  | nil => trivial
  | cons t ts =>
    rw [Ty.toJsonList]
    exact ⟨isWhole_type t, areWhole_types ts⟩

end

theorem areWhole_map {α : Type} {write : α → Value} {xs : List α}
    (h : ∀ x ∈ xs, (write x).IsWhole) : Value.AreWhole (xs.map write) :=
  Value.areWhole_iff.mpr (List.forall_mem_map.mpr h)

theorem isWhole_params (ps : List Param) : (Value.array (ps.map Param.toJson)).IsWhole := by
  refine areWhole_map fun p _ => ⟨?_, isWhole_type p.ty, trivial⟩
  obtain ⟨name, ty⟩ := p
  cases name <;> trivial

theorem isWhole_enumerator {e : Enumerator}
    (h : ∀ n, e.value = some n → -2 ^ 63 ≤ n ∧ n < 2 ^ 63) : e.toJson.IsWhole := by
  obtain ⟨name, value⟩ := e
  refine ⟨trivial, ?_, trivial⟩
  cases value with
  | none => trivial
  | some n =>
    obtain ⟨hlow, hhigh⟩ := h n rfl
    exact ⟨hlow, by omega⟩

theorem membersAreWhole_kind {k : Kind} (h : k.Fits) : Value.MembersAreWhole k.members := by
  refine ⟨trivial, ?_⟩
  cases k with
  | nspace => trivial
  | record isStruct bases =>
    exact ⟨trivial, areWhole_map fun b _ => ⟨trivial, trivial, trivial, trivial⟩, trivial⟩
  | function result params => exact ⟨isWhole_type result, isWhole_params params, trivial⟩
  | method result params flags =>
    exact ⟨isWhole_type result, isWhole_params params, trivial, trivial, trivial, trivial, trivial⟩
  | ctor params => exact ⟨isWhole_params params, trivial⟩
  | field ty isStatic isConst => exact ⟨isWhole_type ty, trivial, trivial, trivial⟩
  | enumeration isScoped values =>
    exact ⟨trivial, areWhole_map fun e he => isWhole_enumerator (h e he), trivial⟩
  | typedef underlying => exact ⟨isWhole_type underlying, trivial⟩

mutual

/-- All numbers that a document is written with are whole. -/
theorem isWhole_toJson {d : Document} (h : ∀ e ∈ d.heads, e.kind.Fits) : d.toJson.IsWhole := by
  obtain ⟨name, kind, access, file, children⟩ := d
  rw [heads, List.forall_mem_cons] at h
  have hkind := Value.membersAreWhole_iff.mp (membersAreWhole_kind h.1)
  have hclosing : ∀ m ∈ closing ⟨name, kind, access, file, children⟩, m.2.IsWhole := by
    refine List.forall_mem_append.mpr ⟨List.forall_mem_append.mpr ⟨?_, ?_⟩, ?_⟩
    · exact List.forall_mem_singleton.mpr trivial
    · cases file with
      | none => exact fun _ hm => nomatch hm
      | some f => exact List.forall_mem_singleton.mpr trivial
    · cases children with
      | nil => exact fun _ hm => nomatch hm
      | cons c cs => exact List.forall_mem_singleton.mpr (areWhole_toJsonList h.2)
  rw [toJson_eq]
  refine Value.membersAreWhole_iff.mpr (List.forall_mem_append.mpr ⟨?_, ?_⟩)
  · exact List.forall_mem_singleton.mpr trivial
  · exact List.forall_mem_append.mpr ⟨hkind, hclosing⟩

theorem areWhole_toJsonList {ds : List Document} (h : ∀ e ∈ headsOf ds, e.kind.Fits) :
    Value.AreWhole (toJsonList ds) := by
  cases ds with
  | nil => trivial
  | cons d ds =>
    rw [headsOf, List.forall_mem_append] at h
    rw [toJsonList]
    exact ⟨isWhole_toJson h.1, areWhole_toJsonList h.2⟩

end

/-- **A document comes back from its text** exactly if all its enumerators have values of 64 bits
and its text nests arrays and objects no deeper than texts may. -/
theorem read?_text_iff (d : Document) :
    read? d.text = some d ↔
      (∀ e ∈ d.heads, e.kind.Fits) ∧ d.toJson.depth ≤ Json.depthLimit := by
  constructor
  · intro h
    have hfits : ∀ e ∈ d.heads, e.kind.Fits := by
      obtain ⟨v, -, hv⟩ := Option.bind_eq_some_iff.mp h
      exact fits_of_ofJson? hv
    refine ⟨hfits, ?_⟩
    by_contra hdeep
    rw [read?, text, Json.read?_pretty (isWhole_toJson hfits), if_neg hdeep] at h
    cases h
  · rintro ⟨hfits, hdepth⟩
    rw [read?, text, Json.read?_pretty (isWhole_toJson hfits), if_pos hdepth]
    exact ofJson?_toJson hfits

end Document

end RubyBinding
