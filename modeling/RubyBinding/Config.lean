import RubyBinding.Library.Find
import RubyBinding.Binding.Extension
import RubyBinding.Output

/-!
# Configurations

A configuration says what an extension is called, which headers it is made from and how, and what is
to be different about single declarations. `Config.fault?` finds what no run could make sense of,
`Config.annotate` turns the wishes about declarations into annotations of a library.
-/

namespace RubyBinding

/-- A wish about a function or an enumeration. -/
structure DeclConfig where
  name : String
  ignore : Bool := false
  rename : Option String := none
  deriving Repr, Inhabited

/-- Wishes about a class. -/
structure ClassConfig extends DeclConfig where
  superclass : Option String := none
  /-- The position of a constructor among those that the class declares. -/
  ctor : Option Nat := none
  keepsOwnName : Bool := false
  /-- What is to be moved into the class. -/
  adopted : List String := []
  /-- Functions that are to become methods of the class's objects. -/
  instanceMethods : List String := []
  customCode : List CustomCode := []
  deriving Repr, Inhabited

/-- An explicit module. -/
structure ModuleConfig where
  name : String
  nspace : Option String := none
  modules : List ModuleConfig := []
  deriving Repr, Inhabited

/-- What reads the headers. -/
inductive ParserKind where
  | builtin
  /-- A command that prints a document. -/
  | external
  deriving DecidableEq, Repr, Inhabited

structure ParserConfig where
  kind : ParserKind := .builtin
  command : Option String := none
  arguments : List String := []
  deriving Repr, Inhabited

/-- What an extension is made from, and how. -/
structure Config where
  name : String
  /-- The namespace that is bound at the top level. -/
  nspace : Option String := none
  layout : Layout := .multiple
  outputDir : Option String := none
  headers : List String
  includePaths : List String := []
  /-- Further headers for every generated file. -/
  includes : List String := []
  /-- Flags for an external parser. -/
  flags : List String := []
  parser : ParserConfig := {}
  modules : List ModuleConfig := []
  classes : List ClassConfig := []
  functions : List DeclConfig := []
  enums : List DeclConfig := []
  /-- The directory that paths are relative to. -/
  root : String := ""
  deriving Repr, Inhabited

/-- What is wrong with a configuration. -/
inductive ConfigFault where
  | badName (name : String)
  | noHeaders
  | noCommand
  deriving DecidableEq, Repr

def ConfigFault.message : ConfigFault → String
  | badName name => "extension name " ++ ticked name ++ " is not a valid C identifier"
  | noHeaders => "at least one header is required in `sources.headers`"
  | noCommand => "`parser.kind = \"external\"` requires `parser.command`"

/-- Letters, digits and underscores, of which the first is no digit. All of them are ASCII. -/
def isCIdentifier (name : String) : Bool :=
  match name.toList with
  | [] => false
  | c :: cs => (c.isAlpha || c == '_') && cs.all fun d => d.isAlphanum || d == '_'

namespace Config

variable (c : Config)

/-- What is wrong with a configuration, if anything is. -/
def fault? : Option ConfigFault :=
  if !isCIdentifier c.name then some (.badName c.name)
  else if c.headers.isEmpty then some .noHeaders
  else if c.parser.kind = .external && c.parser.command.isNone then some .noCommand
  else none

/-! ## Paths -/

/-- A path of the configuration, from the directory that a run starts in. -/
def resolve (path : String) : String := Path.join c.root path

def headerPaths : List String := c.headers.map c.resolve

/-- The directories that an external parser searches. -/
def searchPaths : List String := c.includePaths.map c.resolve

/-- The directory that files are written to. -/
def outputPath : String := c.resolve (c.outputDir.getD "generated")

/-- The arguments of an external parser: its own, the search paths, the flags, the headers. -/
def parserArguments : List String :=
  c.parser.arguments ++ c.searchPaths.map ("-I" ++ ·) ++ c.flags ++ c.headerPaths

/-- What is configured for a class. -/
def findClass? (name : String) : Option ClassConfig := c.classes.find? fun k => k.name == name

end Config

/-! ## Annotating -/

namespace DeclConfig

/-- Ignore a declaration or rename it; what is ignored needs no name. -/
def apply (k : DeclConfig) (lib : Library) (i : DeclId) : Library :=
  if k.ignore then lib.ignore i
  else match k.rename with
    | some name => lib.rename i name
    | none => lib

/-- Apply a wish about a function to all its overloads. -/
def applyToFunction (lib : Library) (k : DeclConfig) : Except AnnotationError Library := do
  let i ← lib.findFunction k.name
  return (lib.overloads i).foldl k.apply lib

/-- Apply a wish about an enumeration. -/
def applyToEnumeration (lib : Library) (k : DeclConfig) : Except AnnotationError Library := do
  return k.apply lib (← lib.findEnumeration k.name)

end DeclConfig

namespace ClassConfig

/-- Everything that has a name. -/
def declarations (lib : Library) (name : String) : Except AnnotationError (List DeclId) :=
  match lib.tree.lookupAll name with
  | [] => .error (.notFound "declaration" name)
  | found => .ok found

/-- Apply the wishes about a class. All names are looked up before anything is changed. -/
def apply (lib : Library) (k : ClassConfig) : Except AnnotationError Library := do
  let adopted ← k.adopted.mapM (declarations lib)
  let instanceMethods ← k.instanceMethods.mapM fun name => do
    return lib.overloads (← lib.findFunction name)
  let i ← lib.findClass k.name
  if k.ignore then return lib.ignore i
  let lib := k.rename.elim lib (lib.rename i)
  let lib ← k.superclass.elim (.ok lib) (lib.useSuperclass i)
  let lib ← k.ctor.elim (.ok lib) (lib.useCtor i)
  let lib := if k.keepsOwnName then lib.keepOwnName i else lib
  let lib ← adopted.flatten.foldlM (fun lib m => lib.moveTo m i) lib
  let lib ← instanceMethods.flatten.foldlM (fun lib m => lib.includeAsInstanceMethod i m) lib
  return k.customCode.foldl (fun lib code => lib.addCustomCode i code) lib

end ClassConfig

mutual

/-- The module that is configured. -/
def ModuleConfig.spec (lib : Library) : ModuleConfig → Except AnnotationError ModuleSpec
  | ⟨name, nspace, modules⟩ => do
    let ns ← match nspace with
      | some n => do pure (some (← lib.findNamespace n))
      | none => pure none
    return ⟨name, ns, ← ModuleConfig.specs lib modules⟩

def ModuleConfig.specs (lib : Library) :
    List ModuleConfig → Except AnnotationError (List ModuleSpec)
  | [] => .ok []
  | m :: ms => do
    let first ← m.spec lib
    return first :: (← ModuleConfig.specs lib ms)

end

namespace Config

variable (c : Config)

/-- Annotate a library as configured. -/
def annotate (lib : Library) : Except AnnotationError Library := do
  let lib ← c.functions.foldlM DeclConfig.applyToFunction lib
  let lib ← c.enums.foldlM DeclConfig.applyToEnumeration lib
  c.classes.foldlM ClassConfig.apply lib

/-- The setting of a run. -/
def setting (lib : Library) : Setting := ⟨lib, c.headerPaths, c.includes⟩

end Config

end RubyBinding
