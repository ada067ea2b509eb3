import RubyBinding.Document
import RubyBinding.Document.Writer
import RubyBinding.Json.Reader

/-!
# Reading node documents

A document is read from a JSON object. Fields that the kind does not know are passed over; a known
field that is missing takes its default if it has one. What is refused: a known field of another
shape or given twice, a missing field without a default, and a text that is no JSON.

The records below a document (parameters, bases, enumerators and the parts of a type) may also be
written as arrays of their fields in order, where fields with a default may be left out at the end.
The kind of a document may also be given by its number among the kinds, and a kind by itself as an
array of its word and its fields.

A value without fields, such as an access level or the type `void`, is its tag, or an object of the
tag and null. Below a kind an empty object may stand for the null (`Form.loose`).
-/

namespace RubyBinding

open Json (Value)

namespace Document

/-! ## Scalars -/

def bool? : Value → Option Bool
  | .bool b => some b
  | _ => none

def string? : Value → Option String
  | .string s => some s
  | _ => none

/-- A string or null. -/
def name? : Value → Option (Option String)
  | .null => some none
  | .string s => some (some s)
  | _ => none

/-- A 64-bit integer or null. -/
def number? : Value → Option (Option Int)
  | .null => some none
  | .integer n => if -Int.pow 2 63 ≤ n ∧ n < Int.pow 2 63 then some (some n) else none
  | _ => none

/-- What may stand for nothing behind the tag of a value without fields. -/
inductive Form where
  /-- Null. -/
  | strict
  /-- Null or an empty object. -/
  | loose
  deriving DecidableEq, Repr, Inhabited

/-- Whether a value stands for nothing. -/
def Form.isNothing : Form → Value → Bool
  | _, .null => true
  | loose, .object [] => true
  | _, _ => false

/-- The tag of a value without fields. -/
def tag? (form : Form) : Value → Option String
  | .string s => some s
  | .object [(s, v)] => if form.isNothing v then some s else none
  | _ => none

def access? (form : Form) (v : Value) : Option Access :=
  match tag? form v with
  | some "public" => some .pub
  | some "protected" => some .prot
  | some "private" => some .priv
  | _ => none

/-- All items of an array, each read by `read`. -/
def items? {α : Type} (read : Value → Option α) : Value → Option (List α)
  | .array vs => vs.mapM read
  | _ => none

/-! ## Records -/

/-- The value of a field: none if it is missing; refused if it is given twice. -/
def field? (members : List (String × Value)) (key : String) : Option (Option Value) :=
  match members.filter (·.1 == key) with
  | [] => some none
  | [(_, v)] => some (some v)
  | _ => none

/-- A field that must be there. -/
def required? {α : Type} (members : List (String × Value)) (key : String)
    (read : Value → Option α) : Option α := do
  match ← field? members key with
  | none => none
  | some v => read v

/-- A field with a default. -/
def optional? {α : Type} (members : List (String × Value)) (key : String) (default : α)
    (read : Value → Option α) : Option α := do
  match ← field? members key with
  | none => some default
  | some v => read v

/-- The members of a record, which may be written as an array of its fields in order. -/
def record? (keys : List String) : Value → Option (List (String × Value))
  | .object ms => some ms
  | .array vs => if vs.length ≤ keys.length then some (keys.zip vs) else none
  | _ => none

/-! ## Types -/

/-- The types without parts. -/
def plainType? : String → Option Ty
  | "void" => some .void
  | "bool" => some .bool
  | "float" => some .float
  | "double" => some .double
  | _ => none

/-- The width that a tag names. -/
def width? : String → Option Width
  | "char" => some .char
  | "short" => some .short
  | "int" => some .int
  | "long" => some .long
  | "long_long" => some .longLong
  | _ => none

/-- What has been read of the parts of a type. -/
structure TypeParts where
  ty : Option Ty := none
  tys : Option (List Ty) := none
  isConst : Option Bool := none
  isRvalue : Option Bool := none

/-- Which part of a type a field holds. -/
inductive TypeField where
  | ty
  | tys
  | isConst
  | isRvalue
  deriving DecidableEq

/-- The fields of the types that have parts of their own, in order. -/
def typeFields : String → List (String × TypeField)
  | "pointer" => [("pointee", .ty), ("is_const", .isConst)]
  | "reference" => [("referent", .ty), ("is_const", .isConst), ("is_rvalue", .isRvalue)]
  | "function" => [("return_type", .ty), ("params", .tys)]
  | _ => []

/-- The type of a tag and its parts. -/
def typeOf? (tag : String) (p : TypeParts) : Option Ty :=
  match tag with
  | "pointer" => do return .pointer (← p.ty) (← p.isConst)
  | "reference" => do return .reference (← p.ty) (← p.isConst) (← p.isRvalue)
  | "function" => do return .function (← p.ty) (← p.tys)
  | _ => none

/-- Enter a value that is read once; a second one is refused. -/
def once {α : Type} : Option α → Option α → Option (Option α)
  | none, some a => some (some a)
  | _, _ => none

mutual

/-- Read a type. -/
def type? (form : Form) : Value → Option Ty
  | .string s => plainType? s
  | .object [(tag, v)] =>
    match tag with
    | "named" => (string? v).map .named
    | _ =>
      match width? tag with
      | some w => do
        let ms ← record? ["signed"] v
        return .integer w (← required? ms "signed" bool?)
      | none =>
        match v with
        | .null => plainType? tag
        | .object [] => if form = .loose then plainType? tag else none
        | .object ms => do typeOf? tag (← memberParts? form (typeFields tag) ms)
        | .array vs => do typeOf? tag (← itemParts? form (typeFields tag) vs)
        | _ => none
  | _ => none

/-- Read the items of an array as types. -/
def types? (form : Form) : List Value → Option (List Ty)
  | [] => some []
  | v :: vs => do return (← type? form v) :: (← types? form vs)

/-- Read the parts of a type from members. -/
def memberParts? (form : Form) (fields : List (String × TypeField)) :
    List (String × Value) → Option TypeParts
  | [] => some {}
  | (k, v) :: ms => do
    let p ← memberParts? form fields ms
    match fields.lookup k with
    | none => some p
    | some .ty => return { p with ty := ← once p.ty (type? form v) }
    | some .tys =>
      match v with
      | .array vs => return { p with tys := ← once p.tys (types? form vs) }
      | _ => none
    | some .isConst => return { p with isConst := ← once p.isConst (bool? v) }
    | some .isRvalue => return { p with isRvalue := ← once p.isRvalue (bool? v) }

/-- Read the parts of a type from an array of them in order. -/
def itemParts? (form : Form) : List (String × TypeField) → List Value → Option TypeParts
  | _, [] => some {}
  | [], _ :: _ => none
  | (_, f) :: fields, v :: vs => do
    let p ← itemParts? form fields vs
    match f with
    | .ty => return { p with ty := ← once p.ty (type? form v) }
    | .tys =>
      match v with
      | .array ws => return { p with tys := ← once p.tys (types? form ws) }
      | _ => none
    | .isConst => return { p with isConst := ← once p.isConst (bool? v) }
    | .isRvalue => return { p with isRvalue := ← once p.isRvalue (bool? v) }

end

/-! ## Kinds -/

def param? (form : Form) (v : Value) : Option Param := do
  let ms ← record? ["name", "ty"] v
  return ⟨← optional? ms "name" none name?, ← required? ms "ty" (type? form)⟩

def base? (v : Value) : Option Base := do
  let ms ← record? ["name", "access", "is_virtual"] v
  return ⟨← required? ms "name" string?, ← optional? ms "access" .pub (access? .loose),
    ← optional? ms "is_virtual" false bool?⟩

def enumerator? (v : Value) : Option Enumerator := do
  let ms ← record? ["name", "value"] v
  return ⟨← required? ms "name" string?, ← optional? ms "value" none number?⟩

/-- Read a kind from the members of an object. -/
def kind? (ms : List (String × Value)) : Option Kind := do
  let flag := fun key => optional? ms key false bool?
  match ← required? ms "kind" string? with
  | "namespace" => return .nspace
  | "class" => return .record (← flag "is_struct") (← optional? ms "bases" [] (items? base?))
  | "function" =>
    return .function (← required? ms "return_type" (type? .loose))
      (← optional? ms "params" [] (items? (param? .loose)))
  | "method" =>
    return .method (← required? ms "return_type" (type? .loose))
      (← optional? ms "params" [] (items? (param? .loose)))
      ⟨← flag "is_static", ← flag "is_virtual", ← flag "is_pure_virtual", ← flag "is_const"⟩
  | "constructor" => return .ctor (← optional? ms "params" [] (items? (param? .loose)))
  | "field" =>
    return .field (← required? ms "ty" (type? .loose)) (← flag "is_static") (← flag "is_const")
  | "enumeration" =>
    return .enumeration (← flag "is_scoped") (← optional? ms "values" [] (items? enumerator?))
  | "typedef" => return .typedef (← required? ms "underlying" (type? .loose))
  | _ => none

/-- The fields of a kind, in order. -/
def kindFields : String → List String
  | "class" => ["is_struct", "bases"]
  | "function" => ["return_type", "params"]
  | "method" =>
    ["return_type", "params", "is_static", "is_virtual", "is_pure_virtual", "is_const"]
  | "constructor" => ["params"]
  | "field" => ["ty", "is_static", "is_const"]
  | "enumeration" => ["is_scoped", "values"]
  | "typedef" => ["underlying"]
  | _ => []

/-- Read a kind that stands by itself: an object, or an array of its word and its fields in
order. -/
def bareKind? : Value → Option Kind
  | .object ms => kind? ms
  | .array (.string word :: vs) => do
    kind? (("kind", .string word) :: (← record? (kindFields word) (.array vs)))
  | _ => none

/-! ## Documents -/

/-- The words for kinds, in the order by which a document may number them. -/
def kindWords : List String :=
  ["namespace", "class", "function", "method", "constructor", "field", "enumeration", "typedef"]

/-- A kind that is given by its number, given by its word. -/
def spellKind : String × Value → String × Value
  | ("kind", .integer n) =>
    if n < 0 then ("kind", .integer n)
    else ("kind", (kindWords[n.toNat]?).elim (.integer n) .string)
  | m => m

mutual

/-- Read a document. -/
def ofJson? : Value → Option Document
  | .object ms => do
    let children ← childrenOf? ms
    return ⟨← optional? ms "name" "" string?, ← kind? (ms.map spellKind),
      ← optional? ms "access" .pub (access? .strict), ← optional? ms "file" none name?,
      children.getD []⟩
  | _ => none

/-- Read the children among the members of an object. -/
def childrenOf? : List (String × Value) → Option (Option (List Document))
  | [] => some none
  | (k, v) :: ms => do
    let rest ← childrenOf? ms
    if k = "children" then
      match v with
      | .array vs => once rest (ofJsonList? vs)
      | _ => none
    else
      return rest

/-- Read several documents. -/
def ofJsonList? : List Value → Option (List Document)
  | [] => some []
  | v :: vs => do return (← ofJson? v) :: (← ofJsonList? vs)

end

/-- Read a document from a text. -/
def read? (text : String) : Option Document := do ofJson? (← Json.read? text)

end Document

/-- Read a tree from the text of a document. -/
def DeclTree.read? (text : String) : Option DeclTree :=
  (Document.read? text).map DeclTree.ofDocument

end RubyBinding
