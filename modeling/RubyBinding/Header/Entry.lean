import RubyBinding.Header.Declarator
import RubyBinding.DeclTree
import RubyBinding.Ty.Spelling

/-!
# Entering a header into a tree

`enter` adds what a header declares to a tree, in the order of the source; every declaration but a
namespace records the header and the access level it has. Passed over are declarations without a
name, templates, destructors and operators, deleted functions, variables, and definitions of members
outside of their class. A class, or an enumeration, that its scope already has by name is not
entered again.
-/

namespace RubyBinding.Header

/-- What follows the last `::` of a name, without blanks around it. -/
def lastSegment (name : String) : String :=
  match DeclTree.splitPath name.toList.reverse with
  | [] => ""
  | s :: _ => String.ofList (Text.trim s.reverse)

/-- Whether a name leads through scopes. -/
def isQualified (name : String) : Bool := Text.hasPart [':', ':'] name.toList

/-- A text without its blanks. -/
def withoutBlanks (text : String) : List Char := (Text.words text.toList).flatten

/-- Note where a declaration was read and the access level it has. -/
def note (t : DeclTree) (file : String) (access : Access) (id : DeclId) : DeclTree :=
  (t.setAccess id access).setFile id file

/-- Declare a name in a scope, and note where it was read. -/
def addNoted (t : DeclTree) (file : String) (access : Access) (scope : DeclId) (name : String)
    (kind : Kind) : DeclId × DeclTree :=
  let (id, t) := t.add scope name kind
  (id, note t file access id)

/-- Whether a scope already has a declaration of a name whose kind satisfies `p`. -/
def alreadyHas (t : DeclTree) (scope : DeclId) (name : String) (p : Kind → Bool) : Bool :=
  (t.named scope name).any fun c => p (t.get c).kind

/-- Whether the text of a function says that it is deleted. -/
def isDeleted (text : String) : Bool := Text.hasPart "=delete".toList (withoutBlanks text)

/-- Whether a declaration says that its methods are pure virtual: its initialiser, or its end, is
`= 0`. -/
def isPure (text : String) (default : Option String) : Bool :=
  (default.any fun d => Text.trimmed d == "0") ||
    (Text.before? "=0;".toList (withoutBlanks text)).isSome

/-- The kind of a function that is declared in a scope; none if it is not entered. -/
def functionKind? (t : DeclTree) (scope : DeclId) (specifiers : Specifiers) (text : String)
    (default : Option String) (name : String) (d : Declared) (s : Signature) : Option Kind :=
  if d.isSpecial || isQualified name || isDeleted text then none
  else
    let around := t.get scope
    if specifiers.base.isNone then
      if around.isRecord && around.name == name then some (.ctor s.params) else none
    else if around.isRecord then
      let pure := isPure text default
      some (.method d.ty s.params
        { isStatic := specifiers.isStatic
          isVirtual := pure || specifiers.isVirtual || s.isOverride
          isPure := pure
          isConst := s.isConst })
    else some (.function d.ty s.params)

/-- The kind of what a declarator declares in a scope; none if it is not entered. -/
def declaredKind? (t : DeclTree) (scope : DeclId) (specifiers : Specifiers) (isField : Bool)
    (text : String) (default : Option String) (name : String) (d : Declared) : Option Kind :=
  match d.signature with
  | some s => functionKind? t scope specifiers text default name d s
  | none =>
    if isField && specifiers.base.isSome then
      let isConst := specifiers.isConst && !(d.ty.isPointer || d.ty.isReference)
      some (.field d.ty specifiers.isStatic isConst)
    else none

/-- Enter what some declarators declare. -/
def enterDeclarators (t : DeclTree) (file : String) (access : Access) (scope : DeclId)
    (specifiers : Specifiers) (isField : Bool) (text : String) (default : Option String) :
    List Declarator → DeclTree
  | [] => t
  | d :: ds =>
    let declared := match specifiers.base with
      | some ty => d.declare ty specifiers.isConst
      | none => d.declare .void false
    let t := match declared.name with
      | none => t
      | some name =>
        match declaredKind? t scope specifiers isField text default name declared with
        | none => t
        | some kind => (addNoted t file access scope name kind).2
    enterDeclarators t file access scope specifiers isField text default ds

/-- Enter the typedefs that some declarators declare for a type. -/
def enterTypedefs (t : DeclTree) (file : String) (access : Access) (scope : DeclId) (ty : Ty)
    (isConst : Bool) : List Declarator → DeclTree
  | [] => t
  | d :: ds =>
    let declared := d.declare ty isConst
    let t := match declared.name with
      | none => t
      | some name => (addNoted t file access scope name (.typedef declared.ty)).2
    enterTypedefs t file access scope ty isConst ds

/-- The name that a typedef gives to a class without a name: its first declarator, if that is a
plain name, and not a qualified one. -/
def typedefName? : List Declarator → Option String
  | .name text :: _ => if isQualified text then none else some text
  | _ => none

/-- Enter an enumeration. -/
def enterEnumeration (t : DeclTree) (file : String) (access : Access) (scope : DeclId)
    (isScoped : Bool) (name : Option String) (values : List Enumerator) : DeclTree :=
  match name with
  | none => t
  | some text =>
    let name := lastSegment text
    if alreadyHas t scope name Kind.isEnumeration then t
    else (addNoted t file access scope name (.enumeration isScoped values)).2

/-- The access level that members of a class have before the first label. -/
def defaultAccess (isStruct : Bool) : Access := if isStruct then .pub else .priv

mutual

/-- Enter a class or an enumeration. A class without a name takes that of the typedef around it. -/
def enterDefinition (t : DeclTree) (file : String) (access : Access) (scope : DeclId)
    (given : Option String) : Definition → DeclTree
  | .record isStruct name bases members =>
    match (name.map lastSegment) <|> given with
    | none => t
    | some name =>
      if alreadyHas t scope name Kind.isRecord then t
      else
        let (id, t) := addNoted t file access scope name (.record isStruct bases)
        enterMembers t file (defaultAccess isStruct) id members
  | .enumeration isScoped name values =>
    enterEnumeration t file access scope isScoped name values

/-- Enter a declaration, after what it defines on the way. -/
def enterDeclaration (t : DeclTree) (file : String) (access : Access) (scope : DeclId) :
    Declaration → DeclTree
  | .mk definition specifiers declarators isField default head body =>
    let t := match definition with
      | none => t
      | some d => enterDefinition t file access scope none d
    enterDeclarators t file access scope specifiers isField (head ++ body) default declarators

/-- Enter one member. A label enters nothing. -/
def enterMember (t : DeclTree) (file : String) (access : Access) (scope : DeclId) :
    Member → DeclTree
  | .label _ => t
  | .declaration d => enterDeclaration t file access scope d
  | .typedef definition specifiers declarators =>
    let t := match definition with
      | some (.record isStruct name bases members) =>
        enterDefinition t file access scope (typedefName? declarators)
          (.record isStruct name bases members)
      | _ => t
    match specifiers.base with
    | none => t
    | some ty => enterTypedefs t file access scope ty specifiers.isConst declarators
  | .synonym name spelling =>
    (addNoted t file access scope name (.typedef (.ofSpelling spelling))).2

/-- Enter the members of a class. A label sets the access level of those after it. -/
def enterMembers (t : DeclTree) (file : String) (access : Access) (scope : DeclId) :
    List Member → DeclTree
  | [] => t
  | m :: ms =>
    let next := match m with
      | .label a => a
      | _ => access
    enterMembers (enterMember t file access scope m) file next scope ms

end

/-- The namespace that the text of a name opens in a scope; each part of it opens one level. -/
def openNamespace (t : DeclTree) (scope : DeclId) : List String → DeclId × DeclTree
  | [] => (scope, t)
  | "" :: parts => openNamespace t scope parts
  | part :: parts =>
    let (id, t) := t.nspace scope part
    openNamespace t id parts

mutual

/-- Enter one item. -/
def enterItem (t : DeclTree) (file : String) (scope : DeclId) : Item → DeclTree
  | .nspace none _ => t
  | .nspace (some name) items =>
    let (id, t) := openNamespace t scope (DeclTree.segments name.toList)
    enterItems t file id items
  | .member m => enterMember t file .pub scope m
  | .group items => enterItems t file scope items

/-- Enter items, one after the other. -/
def enterItems (t : DeclTree) (file : String) (scope : DeclId) : List Item → DeclTree
  | [] => t
  | i :: is => enterItems (enterItem t file scope i) file scope is

end

/-- Enter a header into a tree. -/
def enter (t : DeclTree) (file : String) (items : List Item) : DeclTree :=
  enterItems t file DeclTree.root items

end RubyBinding.Header
