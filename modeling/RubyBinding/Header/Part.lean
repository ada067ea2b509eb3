import RubyBinding.Grammar.Rule
import RubyBinding.Header.Terminal

/-!
# The parts of a header

What the grammar of headers names. A declarator means something else in a declaration, among the
members of a class, in a typedef and where no name is given, so its forms come in four *families*.

Words, keywords and parts may be written directly where a rule is expected.
-/

namespace RubyBinding.Header

/-- Where a declarator stands. -/
inductive Family where
  /-- In a declaration of functions and variables. -/
  | plain
  /-- Among the members of a class. -/
  | member
  /-- In a typedef. -/
  | typedef
  /-- Where no name is given. -/
  | abstract
  deriving DecidableEq, Hashable, Repr, Inhabited

/-- The parts of a header. -/
inductive Part where
  -- items
  | header | topItem | item | entity | conditionalSection | alternative | elsePart | elifPart
  | elifdefPart | line | functionDefinition | declaration | typedefDeclaration | aliasedType
  | aliases | modifier | specifiers | linkage | gnuAttribute | declspec | based | callModifier
  | pointerModifier | itemList
  -- declarators
  | declarator (f : Family) | grouped (f : Family) | attributed (f : Family) | pointer (f : Family)
  | function (f : Family) | array (f : Family) | reference (f : Family) | binding | functionTail
  | tailQualifiers | refQualifier | exceptions | tailAttributes | trailingType | tailEnd
  | virtualSpecifier | initDeclarator | parameters | parameter | selfParameter
  | optionalParameter | packParameter | packName | functionBody | tryBlock | handler
  -- types
  | storage | qualifier | typeSpecifier | sizedType | sizeWord | placeholder | decltypeType
  | dependentType | enumeration | enumerationBase | enumerators | enumerator
  -- classes
  | classHead | classTail | structType | unionType | classType | className | baseClause | access
  | members | member | field | methodDefinition | defaulted | pureMark | constructorModifier
  | explicitSpecifier | conversionDefinition | conversionDeclaration | conversionName
  | qualifiedConversion | constructorDefinition | constructorTry | constructorDeclaration
  | initialisers | initialiser | friendDeclaration
  -- templates
  | templateDeclaration | templateInstantiation | templateParameters | typeParameter
  | packTypeParameter | optionalTypeParameter | templateParameter | templateType | templateMethod
  | templateFunction | templateArguments
  -- namespaces, and what else stands in them
  | nspace | nspaceAlias | nspacePart | nestedName | usingDeclaration | aliasDeclaration
  | staticAssert | conceptDefinition | emptyDeclaration | statement | topStatement
  -- expressions
  | expression | plainExpression | constant | stringConstant | commaExpression | ternary
  | assignment | pointerExpression | unary | binary | update | typeCast | typeDescriptor
  | sizeExpression | subscript | call | assembly | extended | arguments | memberAccess
  | literalObject | parenthesised | await | newExpression | newBounds | deleteExpression
  | requiresClause | constraint | requiresExpression | lambda | lambdaTail | lambdaSpecifier
  | foldExpression | foldOperator | expansion
  -- names
  | destructorName | dependentName | dependentMethod | dependentTypeName | scopePrefix
  | qualifiedField | qualifiedName | qualifiedType | operatorName
  -- what follows no rule
  | garbled
  deriving DecidableEq, Hashable, Repr, Inhabited

/-- What a header consists of. -/
abbrev Tree := Grammar.Tree Terminal Part

/-- Rules over the parts of a header. -/
abbrev PartRule := Grammar.Rule Terminal Part

instance : Coe Part PartRule := ⟨.part⟩

instance : Coe Terminal PartRule := ⟨.token⟩

instance : Coe String PartRule := ⟨fun text => .token (.literal text)⟩

namespace Part

/-- A choice among keywords or marks. -/
def oneOf (texts : List String) : PartRule := .choice (texts.map fun t => .token (.literal t))

/-- Whether a part is left out of a tree, and only what it consists of kept. -/
def isHidden : Part → Bool
  | topItem | item | entity | alternative | aliasedType | aliases | modifier | specifiers
  | functionTail | tailQualifiers | exceptions | tailAttributes | tailEnd | packName | functionBody
  | handler | sizeWord | enumerationBase | classHead | classTail | member | defaulted | pureMark
  | constructorModifier | initialisers | nspacePart | emptyDeclaration | plainExpression | constant
  | stringConstant | constraint | lambdaTail | lambdaSpecifier | foldOperator | scopePrefix => true
  | _ => false

end Part

end RubyBinding.Header
