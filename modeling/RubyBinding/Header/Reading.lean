import RubyBinding.Header.Declarator
import RubyBinding.Header.Integer
import RubyBinding.Header.Part
import RubyBinding.Ty.Spelling

/-!
# From a tree to syntax

`Parsed.items` gives what a header says, of whatever parts it consists. Templates, friends,
statements and the definitions of conversions say nothing that is kept. Of a conditional section
between declarations all branches are read but those of `#elifdef`; one inside the body of a class
or an enumeration is passed over.

Nothing is read of a part that follows no rule of the grammar (`Part.garbled`); what stands around
it is read as ever.
-/

namespace RubyBinding.Header

/-- The text of a stretch of lexemes. -/
def stretch (ls : Array Lexeme) (start stop : Nat) : String :=
  textOf (ls.extract start stop).toList

namespace Tree

open Grammar.Tree

def part? : Tree → Option Part
  | token _ _ _ => none
  | part p _ _ _ => some p

def children : Tree → List Tree
  | token _ _ _ => []
  | part _ _ _ cs => cs

def text (ls : Array Lexeme) : Tree → String
  | token _ a b => stretch ls a b
  | part _ a b _ => stretch ls a b

def isPart (p : Part) (t : Tree) : Bool := t.part? == some p

def isToken (t : Terminal) : Tree → Bool
  | token u _ _ => u == t
  | part _ _ _ _ => false

/-- Whether a tree is of a part that is written in a certain way. -/
def isSpelled (ls : Array Lexeme) (p : Part) (spelling : String) (t : Tree) : Bool :=
  t.isPart p && t.text ls == spelling

/-- The directive that a line consists of. -/
def directive? : Tree → Option Directive
  | part .line _ _ [token (.directive d) _ _] => some d
  | _ => none

/-- The lines that stand among members or enumerators divide them into sections; this is how many
are open behind a tree if `depth` are in front of it. -/
def depthBehind (depth : Nat) (t : Tree) : Nat :=
  match t.directive? with
  | some .opening => depth + 1
  | some .closing => depth - 1
  | _ => depth

end Tree

open Grammar.Tree

/-- The first child of a part. -/
def child? (p : Part) (ts : List Tree) : Option Tree := ts.find? (Tree.isPart p)

/-! ## Types -/

/-- A text with each run of blanks collapsed to one. -/
def collapsed (text : String) : String :=
  String.intercalate " " ((Text.words text.toList).map String.ofList)

/-- The type that a type specifier names. A class without a name is no type that could be named. -/
def typeNamed (ls : Array Lexeme) (t : Tree) : Option Ty :=
  match t.children with
  | [token .primitive _ _] => some (.ofSpelling (t.text ls))
  | [part p _ _ inner] =>
    if p == .sizedType then some (.ofSpelling (t.text ls))
    else if p == .structType || p == .classType || p == .unionType || p == .enumeration then
      (child? .className inner).map fun name => .named (name.text ls)
    else some (.named (collapsed (t.text ls)))
  | _ => some (.named (collapsed (t.text ls)))

/-- The specifiers among the children of a declaration. -/
def specifiersAmong (ls : Array Lexeme) (ts : List Tree) : Specifiers where
  base := (child? .typeSpecifier ts).bind (typeNamed ls)
  isConst := ts.any (Tree.isSpelled ls .qualifier "const")
  isStatic := ts.any (Tree.isSpelled ls .storage "static")
  isVirtual := ts.any (Tree.isToken (.literal "virtual"))

/-! ## Declarators -/

/-- Whether a tree is that of a declarator that gives a name, or could give one. -/
def isDeclarator : Tree → Bool
  | token t _ _ => t = .word
  | part p _ _ _ =>
    match p with
    | .declarator _ => true
    | .initDeclarator => true
    | .grouped _ => true
    | .pointer _ => true
    | .function _ => true
    | .array _ => true
    | .reference _ => true
    | .qualifiedName => true
    | .operatorName => true
    | .destructorName => true
    | _ => false

/-- Whether a comment stands behind the first token of a part. -/
def hidesNext (ls : Array Lexeme) : List Tree → Bool
  | token _ _ stop :: _ => (ls[stop]?.map Lexeme.hasComment).getD false
  | _ => false

mutual

/-- A declarator. What follows a comment that stands directly behind a reference mark or an opening
parenthesis is not seen, nor is what follows a calling convention in parentheses. -/
def readDeclarator (ls : Array Lexeme) : Tree → Declarator
  | token .word start stop => .name (stretch ls start stop)
  | token _ _ _ => .unnamed
  | part p start stop children =>
    match p with
    | .declarator _ => declaratorAmong ls children
    | .initDeclarator => declaratorAmong ls children
    | .qualifiedName => .name (stretch ls start stop)
    | .operatorName => .special (stretch ls start stop)
    | .destructorName => .special (stretch ls start stop)
    | .pointer _ => .pointer (declaratorAmong ls children)
    | .array .abstract => .unnamed
    | .array _ => .pointer (declaratorAmong ls children)
    | .reference _ =>
      .reference (children.head?.any (Tree.isToken (.literal "&&")))
        (if hidesNext ls children then .unnamed else declaratorAmong ls children)
    | .grouped _ =>
      .grouped (if hidesNext ls children || (child? .callModifier children).isSome then .unnamed
        else declaratorAmong ls children)
    | .function _ =>
      .function (declaratorAmong ls children) (parametersAmong ls children)
        (children.any (Tree.isSpelled ls .qualifier "const"))
        (children.any (Tree.isPart .virtualSpecifier))
    | _ => .unnamed

/-- The first declarator among the children of a part. -/
def declaratorAmong (ls : Array Lexeme) : List Tree → Declarator
  | [] => .unnamed
  | t :: ts => if isDeclarator t then readDeclarator ls t else declaratorAmong ls ts

/-- The parameters in the first parameter list among the children of a part. -/
def parametersAmong (ls : Array Lexeme) : List Tree → List Parameter
  | [] => []
  | part .parameters _ _ children :: _ => readParameters ls children
  | _ :: ts => parametersAmong ls ts

/-- The parameters of a list. A pack of parameters is none of them. -/
def readParameters (ls : Array Lexeme) : List Tree → List Parameter
  | [] => []
  | part .parameter _ _ children :: ts => readParameter ls children :: readParameters ls ts
  | part .optionalParameter _ _ children :: ts => readParameter ls children :: readParameters ls ts
  | _ :: ts => readParameters ls ts

/-- A parameter, by what it consists of. -/
def readParameter (ls : Array Lexeme) (ts : List Tree) : Parameter :=
  let s := specifiersAmong ls ts
  .mk s.base s.isConst (if ts.any isDeclarator then some (declaratorAmong ls ts) else none)

end

/-! ## Enumerations and bases -/

/-- The enumerators in the body of an enumeration, outside of conditional sections. -/
def readEnumerators (ls : Array Lexeme) (depth : Nat) : List Tree → List Enumerator
  | [] => []
  | t :: ts =>
    let rest := readEnumerators ls (t.depthBehind depth) ts
    if t.isPart .enumerator && depth = 0 then
      let name := t.children.head?.map (Tree.text ls)
      let value := (child? .expression t.children).bind fun e => integer? (e.text ls).toList
      ⟨name.getD "", value⟩ :: rest
    else rest

/-- An enumeration by its children; none if it has no body. -/
def readEnumeration (ls : Array Lexeme) (ts : List Tree) : Option Definition :=
  (child? .enumerators ts).map fun body =>
    .enumeration (ts.any (Tree.isToken (.literal "class")) || ts.any (Tree.isToken (.literal "struct")))
      ((child? .className ts).map (Tree.text ls)) (readEnumerators ls 0 body.children)

/-- The access level that a keyword names. -/
def accessOf (keyword : String) : Access :=
  match keyword with
  | "public" => .pub
  | "protected" => .prot
  | _ => .priv

/-- The bases in a clause. Access and `virtual` hold for the name behind them. -/
def readBases (ls : Array Lexeme) (default : Access) (access : Option Access) (isVirtual : Bool) :
    List Tree → List Base
  | [] => []
  | t :: ts =>
    if t.isPart .access then readBases ls default (some (accessOf (t.text ls))) isVirtual ts
    else if t.isToken (.literal "virtual") then readBases ls default access true ts
    else if t.isPart .className then
      ⟨t.text ls, access.getD default, isVirtual⟩ :: readBases ls default none false ts
    else readBases ls default access isVirtual ts

/-! ## Declarations -/

/-- What a field is initialised with: a list in braces, or what follows the mark. -/
def initialiserAmong : List Tree → Option Tree
  | [] => none
  | t :: ts =>
    if t.isToken .block then some t
    else if t.isToken (.literal "=") then ts.head?
    else initialiserAmong ts

/-- Where the function body begins among the children of a definition. -/
def bodyStart? : List Tree → Option Nat
  | [] => none
  | token .body start _ :: _ => some start
  | part .tryBlock start _ _ :: _ => some start
  | part .constructorTry start _ _ :: _ => some start
  | _ :: ts => bodyStart? ts

/-- A declaration of a stretch of lexemes, with what it defines on the way. -/
def declarationOf (ls : Array Lexeme) (definition : Option Definition) (isField : Bool)
    (start stop : Nat) (ts : List Tree) : Declaration :=
  let middle := (bodyStart? ts).getD stop
  let body := String.join ((ls.extract middle stop).toList.map fun l => l.gap ++ l.text)
  .mk definition (specifiersAmong ls ts) ((ts.filter isDeclarator).map (readDeclarator ls)) isField
    (if isField then (initialiserAmong ts).map (Tree.text ls) else none)
    (stretch ls start middle) body

/-- Whether the name of a class is that of a template. -/
def isTemplateName (t : Tree) : Bool := t.children.any (Tree.isPart .templateType)

mutual

/-- The class or enumeration that a type specifier defines. -/
def readDefinition (ls : Array Lexeme) : Tree → Option Definition
  | token _ _ _ => none
  | part p _ _ children =>
    match p with
    | .typeSpecifier => definitionAmong ls children
    | .structType => readRecord ls true children
    | .classType => readRecord ls false children
    | .enumeration => readEnumeration ls children
    | _ => none

/-- The first definition among the children of a declaration. -/
def definitionAmong (ls : Array Lexeme) : List Tree → Option Definition
  | [] => none
  | t :: ts => (readDefinition ls t).or (definitionAmong ls ts)

/-- A class by its children; none if it has no body or specialises a template. -/
def readRecord (ls : Array Lexeme) (isStruct : Bool) (ts : List Tree) : Option Definition :=
  let name := child? .className ts
  if name.any isTemplateName then none
  else
    let bases := (child? .baseClause ts).map Tree.children
    let default : Access := if isStruct then .pub else .priv
    (membersAmong ls ts).map fun members =>
      .record isStruct (name.map (Tree.text ls))
        ((bases.map (readBases ls default none false)).getD []) members

/-- The members in the body of a class; none if there is no body. -/
def membersAmong (ls : Array Lexeme) : List Tree → Option (List Member)
  | [] => none
  | part .members _ _ children :: _ => some (readMembers ls 0 children)
  | _ :: ts => membersAmong ls ts

/-- Members, those outside of conditional sections. -/
def readMembers (ls : Array Lexeme) (depth : Nat) : List Tree → List Member
  | [] => []
  | t :: ts =>
    let rest := readMembers ls (t.depthBehind depth) ts
    if depth = 0 then (readMember ls t).toList ++ rest else rest

/-- A member of a class or a declaration outside of classes; none where nothing of it is kept. -/
def readMember (ls : Array Lexeme) : Tree → Option Member
  | token _ _ _ => none
  | part p start stop children =>
    match p with
    | .access => some (.label (accessOf (stretch ls start stop)))
    | .field =>
      some (.declaration (declarationOf ls (definitionAmong ls children) true start stop children))
    | .declaration =>
      some (.declaration (declarationOf ls (definitionAmong ls children) false start stop children))
    | .functionDefinition =>
      some (.declaration (declarationOf ls (definitionAmong ls children) false start stop children))
    | .methodDefinition =>
      some (.declaration (declarationOf ls (definitionAmong ls children) false start stop children))
    | .constructorDefinition =>
      some (.declaration (declarationOf ls none false start stop children))
    | .constructorDeclaration =>
      some (.declaration (declarationOf ls none false start stop children))
    -- a type by itself
    | .typeSpecifier =>
      some (.declaration (.mk (definitionAmong ls children) {} [] false none
        (stretch ls start stop) ""))
    | .typedefDeclaration =>
      some (.typedef (definitionAmong ls children) (specifiersAmong ls children)
        ((children.filter isDeclarator).map (readDeclarator ls)))
    | .aliasDeclaration =>
      match children.find? (Tree.isToken .word), child? .typeDescriptor children with
      | some name, some spelling => some (.synonym (name.text ls) (spelling.text ls))
      | _, _ => none
    | _ => none

end

/-! ## Items -/

/-- The name of a namespace among its children. -/
def namespaceName (ls : Array Lexeme) (ts : List Tree) : Option String :=
  (ts.find? fun t => t.isToken .word || t.isPart .nestedName).map (Tree.text ls)

mutual

/-- An item; none where nothing of it is kept. -/
def readItem (ls : Array Lexeme) : Tree → Option Item
  | token _ _ _ => none
  | part p start stop children =>
    match p with
    | .nspace => some (.nspace (namespaceName ls children) (readItems ls children))
    | .itemList => some (.group (readItems ls children))
    | .linkage => some (.group (readItems ls children))
    | .conditionalSection => some (.group (readItems ls children))
    | .elsePart => some (.group (readItems ls children))
    | .elifPart => some (.group (readItems ls children))
    -- only classes have fields and access levels
    | .field => none
    | .access => none
    | p => (readMember ls (part p start stop children)).map .member

/-- Items, one after the other. -/
def readItems (ls : Array Lexeme) : List Tree → List Item
  | [] => []
  | t :: ts => (readItem ls t).toList ++ readItems ls ts

end

/-- A header as the grammar divides it: what it consists of, over its lexemes. -/
structure Parsed where
  lexemes : Array Lexeme
  trees : List Tree

/-- What a header says. -/
def Parsed.items (p : Parsed) : List Item := readItems p.lexemes p.trees

end RubyBinding.Header
