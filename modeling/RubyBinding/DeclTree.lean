import RubyBinding.Decl
import RubyBinding.Text.Blank
import RubyBinding.Naming

/-!
# The tree of declarations

All declarations of a run stand in one array. The first is the global namespace; every other one
has a parent, which was there before it, so that walks towards the root end. Namespaces may be
reopened: `DeclTree.nspace` returns the one that is there.

`lookupAll` finds declarations by qualified name from the global namespace, `resolve?` finds the
type that a name denotes in a scope: the innermost enclosing scope from which the name leads to a
type decides.
-/

namespace RubyBinding

/-- A tree of declarations, in order of their creation. -/
structure DeclTree where
  decls : Array Decl
  deriving Repr, Inhabited

namespace DeclTree

/-- The global namespace. -/
def root : DeclId := 0

/-- The tree in which nothing is declared. -/
def empty : DeclTree := ⟨#[Decl.global]⟩

variable (t : DeclTree)

/-- Number of declarations, the global namespace included. -/
def size : Nat := t.decls.size

/-- Whether only the global namespace is there. -/
def isEmpty : Bool := t.size ≤ 1

/-- All positions, in order of creation. -/
def ids : List DeclId := List.range t.size

/-- The declaration at a position; the bare global namespace if there is none. -/
def get (i : DeclId) : Decl := t.decls[i]?.getD Decl.global

/-- The declarations in a scope, in order. -/
def children (i : DeclId) : List DeclId := (t.get i).children

/-- The namespace or class around a declaration. -/
def parent? (i : DeclId) : Option DeclId := (t.get i).parent

/-- The scope in which a declaration stands; the global namespace stands in itself. -/
def scopeOf (i : DeclId) : DeclId := (t.parent? i).getD root

/-! ## Building -/

/-- Declare something at the end of a scope. Returns its position. -/
def add (parent : DeclId) (name : String) (kind : Kind) : DeclId × DeclTree :=
  let id := t.size
  let decls := t.decls.push { id, name, kind, parent := some parent }
  (id, ⟨decls.modify parent fun d => { d with children := d.children ++ [id] }⟩)

/-- The namespace of a name in a scope, opened if it is not there yet. A namespace without a name
is always a new one. -/
def nspace (parent : DeclId) (name : String) : DeclId × DeclTree :=
  let existing := (t.children parent).find? fun c =>
    (t.get c).isNamespace && (t.get c).name == name
  match existing with
  | some c => if name.isEmpty then t.add parent name .nspace else (c, t)
  | none => t.add parent name .nspace

def setAccess (i : DeclId) (access : Access) : DeclTree :=
  ⟨t.decls.modify i fun d => { d with access }⟩

def setFile (i : DeclId) (file : String) : DeclTree :=
  ⟨t.decls.modify i fun d => { d with file := some file }⟩

/-! ## Scopes -/

/-- A declaration and the scopes around it, from the inside out. -/
def scopes (i : DeclId) : List DeclId :=
  i :: match t.parent? i with
    | none => []
    | some p => if p < i then scopes p else []
termination_by i

/-- Whether a declaration is `outer` or is declared somewhere in it. -/
def isWithin (i outer : DeclId) : Bool := (t.scopes i).contains outer

/-- The names from the outermost scope to a declaration, joined by `::`. The global namespace is
`::`. -/
def qualifiedName (i : DeclId) : String :=
  if i = root then "::"
  else
    let path := (t.scopes i).takeWhile (· != root)
    String.intercalate "::" (path.reverse.map fun j => (t.get j).name)

/-! ## Members -/

/-- The declarations in a scope whose kind satisfies `p`. -/
def membersOf (i : DeclId) (p : Kind → Bool) : List DeclId :=
  (t.children i).filter fun c => p (t.get c).kind

/-- The declarations of a name in a scope. -/
def named (scope : DeclId) (name : String) : List DeclId :=
  (t.children scope).filter fun c => (t.get c).name == name

/-! ## Lookup -/

/-- The pieces of a text between each `::`. -/
def splitPath : List Char → List (List Char)
  | [] => [[]]
  | ':' :: ':' :: r => [] :: splitPath r
  | c :: r => Text.extendHead c (splitPath r)

/-- The segments of a qualified name, without blanks around them. -/
def segments (path : List Char) : List String :=
  (splitPath path).map fun s => String.ofList (Text.trim s)

/-- Follow the segments of a qualified name from a scope. Each segment but the last enters the first
namespace, class or enumeration of its name. -/
def follow (scope : DeclId) : List String → List DeclId
  | [] => [scope]
  | [last] => t.named scope last
  | s :: rest =>
    match (t.named scope s).find? fun c => (t.get c).kind.isScope with
    | some next => follow next rest
    | none => []

/-- The declarations that a path leads to from a scope; the empty path stays there. -/
def lookupFrom (scope : DeclId) (path : List Char) : List DeclId :=
  let path := Text.trim path
  if path.isEmpty then [scope] else t.follow scope (segments path)

/-- All declarations of a qualified name. -/
def lookupAll (name : String) : List DeclId := t.lookupFrom root (dropGlobal name.toList)

/-- The first declaration of a qualified name. -/
def lookup? (name : String) : Option DeclId := (t.lookupAll name).head?

/-- The type that a name denotes in a scope. A name that starts with `::` is looked up from the
global namespace only. -/
def resolve? (scope : DeclId) (name : String) : Option DeclId :=
  match Text.after? [':', ':'] name.toList with
  | some absolute =>
    (t.lookupFrom root (dropGlobal absolute)).find? fun c => (t.get c).kind.isType
  | none =>
    (t.scopes scope).findSome? fun s =>
      (t.lookupFrom s name.toList).find? fun c => (t.get c).kind.isType

/-! ## Classes and typedefs -/

/-- The classes that the bases of a class denote, in order. A base that is no class of the tree is
left out. -/
def superclasses (i : DeclId) : List DeclId :=
  match (t.get i).kind with
  | .record _ bases =>
    (bases.filterMap fun b => t.resolve? (t.scopeOf i) b.name).filter fun c =>
      (t.get c).isRecord
  | _ => []

/-- The declaration that a typedef of a plain name stands for. -/
def typedefTarget? (i : DeclId) : Option DeclId :=
  match (t.get i).kind with
  | .typedef (.named name) => t.resolve? (t.scopeOf i) name
  | _ => none

/-- The same by the declaration itself, which bears its position. -/
def targetOf? (d : Decl) : Option DeclId :=
  match d.kind with
  | .typedef (.named name) => t.resolve? (t.scopeOf d.id) name
  | _ => none

/-- The typedefs that stand for a declaration, by the positions that they bear. -/
def typedefsOf (i : DeclId) : List DeclId :=
  (t.decls.toList.filter fun d => t.targetOf? d = some i).map Decl.id

end DeclTree

end RubyBinding
