import RubyBinding.DeclTree

/-!
# Node documents

A node document is a declaration with everything declared in it, as a tree of its own: the form in
which declarations are exchanged with other programs. `DeclTree.insert` enters a document into a
tree and `DeclTree.toDocument` takes one out. Namespaces of one name merge on entry.
-/

namespace RubyBinding

/-- A declaration together with everything declared in it. -/
structure Document where
  name : String := ""
  kind : Kind
  access : Access := .pub
  file : Option String := none
  children : List Document := []
  deriving Repr, Inhabited

namespace DeclTree

/-- Take over access level and file of a document where they say more than the default. -/
def adopt (t : DeclTree) (id : DeclId) (access : Access) (file : Option String) : DeclTree :=
  let t := if access = .pub then t else t.setAccess id access
  match file with
  | none => t
  | some f => t.setFile id f

/-- Declare a name of a kind in a scope; a namespace that is already there is reused. -/
def declare (t : DeclTree) (parent : DeclId) (name : String) : Kind → DeclId × DeclTree
  | .nspace => t.nspace parent name
  | kind => t.add parent name kind

mutual

/-- Enter a document into a scope. Returns the position of its outermost declaration. -/
def insert (t : DeclTree) (parent : DeclId) : Document → DeclId × DeclTree
  | ⟨name, kind, access, file, children⟩ =>
    let (id, t) := t.declare parent name kind
    (id, insertAll (t.adopt id access file) id children)

/-- Enter documents into a scope, one after the other. -/
def insertAll (t : DeclTree) (parent : DeclId) : List Document → DeclTree
  | [] => t
  | d :: ds => insertAll (t.insert parent d).2 parent ds

end

/-- The tree of a document whose outermost declaration stands for the global namespace. -/
def ofDocument (d : Document) : DeclTree := empty.insertAll root d.children

/-- The document of a declaration. A declaration always comes after the one around it. -/
def toDocument (t : DeclTree) (i : DeclId) : Document :=
  let d := t.get i
  let inside := d.children.filterMap fun c =>
    if _h : i < c ∧ c < t.size then some (toDocument t c) else none
  ⟨d.name, d.kind, d.access, d.file, inside⟩
termination_by t.size - i
decreasing_by exact Nat.sub_lt_sub_left (Nat.lt_trans _h.1 _h.2) _h.1

end DeclTree

end RubyBinding
