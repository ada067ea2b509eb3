import RubyBinding.Document
import RubyBinding.Json.Value

/-!
# Node documents as JSON

The JSON form of a document is one object: `name`, `kind`, the fields of the kind, `access`, and
`file` and `children` where there are any, in this order. A type is a string or an object with one
member named for its constructor.
-/

namespace RubyBinding

open Json (Value)

def Access.word : Access → String
  | pub => "public"
  | prot => "protected"
  | priv => "private"

/-- The tag of an integer type. -/
def Width.word : Width → String
  | char => "char"
  | short => "short"
  | int => "int"
  | long => "long"
  | longLong => "long_long"

/-- An object with one member. -/
def Json.single (key : String) (v : Value) : Value := .object [(key, v)]

mutual

/-- The JSON form of a type. -/
def Ty.toJson : Ty → Value
  | .void => .string "void"
  | .bool => .string "bool"
  | .float => .string "float"
  | .double => .string "double"
  | .integer w isSigned => Json.single w.word (.object [("signed", .bool isSigned)])
  | .pointer t isConst =>
    Json.single "pointer" (.object [("pointee", t.toJson), ("is_const", .bool isConst)])
  | .reference t isConst isRvalue =>
    Json.single "reference" (.object
      [("referent", t.toJson), ("is_const", .bool isConst), ("is_rvalue", .bool isRvalue)])
  | .named name => Json.single "named" (.string name)
  | .function result params =>
    Json.single "function" (.object
      [("return_type", result.toJson), ("params", .array (Ty.toJsonList params))])

/-- The JSON forms of a list of types. -/
def Ty.toJsonList : List Ty → List Value
  | [] => []
  | t :: ts => t.toJson :: Ty.toJsonList ts

end

/-- A string, or null where there is none. -/
def Json.ofName : Option String → Value
  | none => .null
  | some s => .string s

def Param.toJson (p : Param) : Value :=
  .object [("name", Json.ofName p.name), ("ty", p.ty.toJson)]

def Base.toJson (b : Base) : Value :=
  .object [("name", .string b.name), ("access", .string b.access.word),
    ("is_virtual", .bool b.isVirtual)]

def Enumerator.toJson (e : Enumerator) : Value :=
  .object [("name", .string e.name), ("value", (e.value.map Value.integer).getD .null)]

namespace Kind

/-- The tag of a kind. -/
def word : Kind → String
  | nspace => "namespace"
  | record _ _ => "class"
  | function _ _ => "function"
  | method _ _ _ => "method"
  | ctor _ => "constructor"
  | field _ _ _ => "field"
  | enumeration _ _ => "enumeration"
  | typedef _ => "typedef"

private def ofParams (ps : List Param) : Value := .array (ps.map Param.toJson)

/-- The fields that are particular to a kind. -/
def fields : Kind → List (String × Value)
  | nspace => []
  | record isStruct bases =>
    [("is_struct", .bool isStruct), ("bases", .array (bases.map Base.toJson))]
  | function result params => [("return_type", result.toJson), ("params", ofParams params)]
  | method result params flags =>
    [("return_type", result.toJson), ("params", ofParams params),
      ("is_static", .bool flags.isStatic), ("is_virtual", .bool flags.isVirtual),
      ("is_pure_virtual", .bool flags.isPure), ("is_const", .bool flags.isConst)]
  | ctor params => [("params", ofParams params)]
  | field ty isStatic isConst =>
    [("ty", ty.toJson), ("is_static", .bool isStatic), ("is_const", .bool isConst)]
  | enumeration isScoped values =>
    [("is_scoped", .bool isScoped), ("values", .array (values.map Enumerator.toJson))]
  | typedef underlying => [("underlying", underlying.toJson)]

/-- The members that describe a kind. -/
def members (k : Kind) : List (String × Value) := ("kind", .string k.word) :: k.fields

end Kind

mutual

/-- The JSON form of a document. -/
def Document.toJson : Document → Value
  | ⟨name, kind, access, file, children⟩ =>
    .object <|
      [("name", .string name)] ++ kind.members ++ [("access", .string access.word)] ++
        (match file with
          | none => []
          | some f => [("file", .string f)]) ++
        (match children with
          | [] => []
          | c :: cs => [("children", .array (c.toJson :: Document.toJsonList cs))])

/-- The JSON forms of several documents. -/
def Document.toJsonList : List Document → List Value
  | [] => []
  | d :: ds => d.toJson :: Document.toJsonList ds

end

/-- A document as text over several lines. -/
def Document.text (d : Document) : String := d.toJson.pretty

/-- Everything declared in a tree, as text. -/
def DeclTree.text (t : DeclTree) : String := (t.toDocument DeclTree.root).text

end RubyBinding
