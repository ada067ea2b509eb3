import RubyBinding.Decl

/-!
# Syntax of a header

What a header says, before it is entered into a tree of declarations: namespaces, declarations with
their specifiers and declarators, and the classes and enumerations that are defined on the way. Only
what a binding can use is kept. A declarator is kept in the shape it has in the source, from the
outside in, since the type of what it declares is read off that shape.
-/

namespace RubyBinding.Header

mutual

/-- A declarator. The declared name stands innermost, if there is one. -/
inductive Declarator where
  /-- Nothing, or something that gives no name. -/
  | unnamed
  | name (text : String)
  /-- The name of a destructor or an operator. -/
  | special (text : String)
  /-- `*` before, or an array bound after. -/
  | pointer (inner : Declarator)
  /-- `&` or `&&` before. -/
  | reference (isRvalue : Bool) (inner : Declarator)
  /-- Parentheses around. -/
  | grouped (inner : Declarator)
  /-- A parameter list after, with the qualifiers that follow it. -/
  | function (inner : Declarator) (params : List Parameter) (isConst isOverride : Bool)

/-- A parameter: the type it names, whether that is qualified `const`, and its declarator if there
is one. -/
inductive Parameter where
  | mk (base : Option Ty) (isConst : Bool) (declarator : Option Declarator)

end

instance : Inhabited Declarator := ⟨.unnamed⟩

/-- The specifiers of a declaration: the type it names, if it names one, and the qualifiers. -/
structure Specifiers where
  base : Option Ty := none
  isConst : Bool := false
  isStatic : Bool := false
  isVirtual : Bool := false
  deriving Inhabited

mutual

/-- A class or an enumeration with its body. A class without a name can only be named by the typedef
around it. -/
inductive Definition where
  | record (isStruct : Bool) (name : Option String) (bases : List Base) (members : List Member)
  | enumeration (isScoped : Bool) (name : Option String) (values : List Enumerator)

/-- A declaration of functions, variables, fields or methods. -/
inductive Declaration where
  /-- `isField` tells a declaration of class members that has a type and no function body;
  `default` is the text of the first initialiser in it; `head` is its text up to the function body,
  and `body` the text of that. -/
  | mk (definition : Option Definition) (specifiers : Specifiers)
      (declarators : List Declarator) (isField : Bool) (default : Option String)
      (head body : String)

/-- What stands in the body of a class. -/
inductive Member where
  | label (access : Access)
  | declaration (d : Declaration)
  | typedef (definition : Option Definition) (specifiers : Specifiers)
      (declarators : List Declarator)
  /-- A name for a type that is given by its spelling. -/
  | synonym (name spelling : String)

end

/-- What stands at the level of namespaces. -/
inductive Item where
  /-- A namespace with the text of its name; without a name it is hidden. -/
  | nspace (name : Option String) (items : List Item)
  | member (m : Member)
  /-- Items that stand in no scope of their own. -/
  | group (items : List Item)

end RubyBinding.Header
