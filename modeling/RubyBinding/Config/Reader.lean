import RubyBinding.Config
import RubyBinding.Toml.Reader

/-!
# Configurations as TOML

A configuration is read from a TOML document. Keys that mean nothing are passed over; a known key
with a value of another shape is refused, and so is a missing key that has no default. A record may
also be written as an array of its values in order, and a choice between words also as a table
whose only key is the word.
-/

namespace RubyBinding.Config

open Toml (Value)

/-- The members of a record. -/
abbrev Fields := List (String × Value)

/-! ## Values -/

def string? : Value → Option String
  | .string s => some s
  | _ => none

def bool? : Value → Option Bool
  | .boolean b => some b
  | _ => none

def index? : Value → Option Nat
  | .integer n => if 0 ≤ n then some n.toNat else none
  | _ => none

/-- All items of an array. -/
def items? {α : Type} (read : Value → Option α) : Value → Option (List α)
  | .array vs => vs.mapM read
  | _ => none

/-- A word that stands for a choice. -/
def word? : Value → Option String
  | .string s => some s
  | .table [(s, .table [])] => some s
  | .table [(s, .array [])] => some s
  | _ => none

/-- The members of a record with these keys. A point in time has none of them. -/
def fields? (keys : List String) : Value → Option Fields
  | .table ms => some ms
  | .array vs => some (keys.zip vs)
  | .moment _ => some []
  | _ => none

/-- A value that has to be there. -/
def required? {α : Type} (fs : Fields) (key : String) (read : Value → Option α) : Option α :=
  (fs.lookup key).bind read

/-- A value that has a default. -/
def withDefault? {α : Type} (fs : Fields) (key : String) (default : α) (read : Value → Option α) :
    Option α :=
  match fs.lookup key with
  | none => some default
  | some v => read v

/-- A value that may be missing. -/
def optional? {α : Type} (fs : Fields) (key : String) (read : Value → Option α) :
    Option (Option α) :=
  withDefault? fs key none fun v => (read v).map some

/-- An array that may be missing. -/
def list? {α : Type} (fs : Fields) (key : String) (read : Value → Option α) : Option (List α) :=
  withDefault? fs key [] (items? read)

/-! ## Records -/

def layout? (v : Value) : Option Layout :=
  match word? v with
  | some "single" => some .single
  | some "multiple" => some .multiple
  | _ => none

def parserKind? (v : Value) : Option ParserKind :=
  match word? v with
  | some "tree-sitter" => some .builtin
  | some "external" => some .external
  | _ => none

def parser? (v : Value) : Option ParserConfig := do
  let fs ← fields? ["kind", "command", "args"] v
  return {
    kind := ← withDefault? fs "kind" .builtin parserKind?
    command := ← optional? fs "command" string?
    arguments := ← list? fs "args" string? }

def customCode? (v : Value) : Option CustomCode := do
  let fs ← fields? ["declaration", "wrapping"] v
  return ⟨← required? fs "declaration" string?, ← required? fs "wrapping" string?⟩

def declOf? (fs : Fields) : Option DeclConfig := do
  return {
    name := ← required? fs "name" string?
    ignore := ← withDefault? fs "ignore" false bool?
    rename := ← optional? fs "rename" string? }

def decl? (v : Value) : Option DeclConfig := do
  declOf? (← fields? ["name", "ignore", "rename"] v)

def class? (v : Value) : Option ClassConfig := do
  let fs ← fields? ["name", "ignore", "rename", "superclass", "constructor",
    "disable_typedef_lookup", "include", "instance_methods", "custom_code"] v
  return {
    toDeclConfig := ← declOf? fs
    superclass := ← optional? fs "superclass" string?
    ctor := ← optional? fs "constructor" index?
    keepsOwnName := ← withDefault? fs "disable_typedef_lookup" false bool?
    adopted := ← list? fs "include" string?
    instanceMethods := ← list? fs "instance_methods" string?
    customCode := ← list? fs "custom_code" customCode? }

mutual

def module? : Value → Option ModuleConfig
  | .table ms => do
    let name ← required? ms "name" string?
    let nspace ← optional? ms "namespace" string?
    return ⟨name, nspace, ← submodules? ms⟩
  | .array vs => do
    let ms := ["name", "namespace"].zip vs
    let name ← required? ms "name" string?
    let nspace ← optional? ms "namespace" string?
    return ⟨name, nspace, ← thirdItem? 2 vs⟩
  | _ => none

/-- The modules inside a module that is written as a table. -/
def submodules? : List (String × Value) → Option (List ModuleConfig)
  | [] => some []
  | (key, v) :: ms => if key = "module" then modules? v else submodules? ms

/-- The modules inside a module that is written as an array. -/
def thirdItem? : Nat → List Value → Option (List ModuleConfig)
  | _, [] => some []
  | 0, v :: _ => modules? v
  | n + 1, _ :: vs => thirdItem? n vs

/-- An array of modules. -/
def modules? : Value → Option (List ModuleConfig)
  | .array vs => eachModule? vs
  | _ => none

def eachModule? : List Value → Option (List ModuleConfig)
  | [] => some []
  | v :: vs => do
    let first ← module? v
    return first :: (← eachModule? vs)

end

/-- The configuration that a document describes. -/
def ofFields? (fs : Fields) : Option Config := do
  let extension ← fields? ["name", "namespace", "writer", "working_dir"] (← fs.lookup "extension")
  let sources ← fields? ["headers", "include_paths", "includes", "cxxflags"] (← fs.lookup "sources")
  return {
    name := ← required? extension "name" string?
    nspace := ← optional? extension "namespace" string?
    layout := ← withDefault? extension "writer" .multiple layout?
    outputDir := ← optional? extension "working_dir" string?
    headers := ← required? sources "headers" (items? string?)
    includePaths := ← list? sources "include_paths" string?
    includes := ← list? sources "includes" string?
    flags := ← list? sources "cxxflags" string?
    parser := ← withDefault? fs "parser" {} parser?
    modules := ← withDefault? fs "module" [] modules?
    classes := ← list? fs "class" class?
    functions := ← list? fs "function" decl?
    enums := ← list? fs "enum" decl? }

/-- The configuration that a text describes, with its paths relative to `root`. -/
def read? (text root : String) : Option Config := do
  let c ← ofFields? (← Toml.read? text)
  return { c with root }

end RubyBinding.Config
