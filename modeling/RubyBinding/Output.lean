import RubyBinding.Binding.Extension
import RubyBinding.Plan.Layout

/-!
# Output files

An extension becomes one C++ file, or a file for its entry point, a header and a file for each of
its parts, and a header and a file for the pointer conversions. In the second layout each part has a
function `register_stem`, which the entry point calls where the part's own block would stand.
-/

namespace RubyBinding

/-- How an extension is spread over files. -/
inductive Layout where
  | single
  | multiple
  deriving DecidableEq, Repr, Inhabited

/-- A file to be written, named relative to the output directory. -/
structure OutputFile where
  name : String
  contents : String
  deriving DecidableEq, Repr, Inhabited

namespace OutputFile

/-- A file with its first line, which says where it comes from. -/
def ofBody (name body : String) : OutputFile :=
  ⟨name, "// This file generated by rubric\n" ++ body ++ "\n"⟩

def headerName (stem : String) : String := "_" ++ stem ++ ".rb.hpp"

def sourceName (stem : String) : String := "_" ++ stem ++ ".rb.cpp"

/-- The line that includes a generated header. -/
def includeHeader (stem : String) : String := "#include \"" ++ headerName stem ++ "\""

/-- The macro that keeps a header from being read twice. -/
def guardName (stem : String) : String :=
  "__RICE_GENERATED_" ++ String.ofList (stem.toList.dropWhile (· == '_')) ++ "_HPP__"

/-- A header, guarded against being read twice. -/
def header (stem : String) (guarded : List String) : OutputFile :=
  let macroName := guardName stem
  ofBody (headerName stem) (String.intercalate "\n"
    (["#ifndef " ++ macroName, "#define " ++ macroName] ++ guarded ++ ["", "#endif"]))

end OutputFile

/-- The function that registers a part. -/
def registerName (stem : String) : String := "register_" ++ stem

/-- The stem of the files for pointer conversions. -/
def converterStem : String := "rbpp_custom"

/-- The definitions of conversions, each followed by a blank line. -/
def Converter.definitionLines (converters : List Converter) : List String :=
  converters.flatMap fun c => c.definition ++ [""]

namespace Setting

variable (g : Setting)

/-- The lines that include the library's headers. -/
def sourceIncludes : List String := g.sources.map fun h => "#include \"" ++ h ++ "\""

/-- The files for pointer conversions. -/
def converterFiles (converters : List Converter) : List OutputFile :=
  let header := OutputFile.header converterStem
    (["", "#include <rice/Object.hpp>", "#include <rice/Data_Object.hpp>",
      "#include <rice/Data_Type.hpp>"] ++ g.sourceIncludes ++ g.furtherIncludes ++ [""] ++
      converters.flatMap Converter.prototype)
  let source := String.intercalate "\n" ([OutputFile.includeHeader converterStem, ""] ++
    Converter.definitionLines converters)
  [header, .ofBody (OutputFile.sourceName converterStem)
    (String.ofList (Text.trimEnd source.toList))]

/-- The line that makes conversions known, if there are any. -/
def converterInclude (converters : List Converter) : List String :=
  if converters.isEmpty then [] else [OutputFile.includeHeader converterStem]

/-- The header and the file of a part. -/
def partFiles (converters : List Converter) (stem : String) (p : Plan) :
    Except GenError (List OutputFile) := do
  let register := "void " ++ registerName stem ++ "()"
  let includes := [OutputFile.includeHeader stem] ++ g.furtherIncludes ++
    converterInclude converters ++ p.includes
  let block ← p.block g.library
  return [OutputFile.header stem ["", register ++ ";"],
    .ofBody (OutputFile.sourceName stem) (Plan.unitText includes p.definitionLines
      ([register ++ " \x7b"] ++ block ++ ["\x7d"]))]

/-- The only file of an extension. -/
def singleFile (e : Extension) (converters : List Converter) :
    Except GenError (List OutputFile) := do
  let forConverters := if converters.isEmpty then [] else ["#include <rice/Data_Object.hpp>"]
  let block ← e.plan.block g.library
  return [.ofBody (e.name ++ ".rb.cpp") (Plan.unitText (e.plan.includes ++ forConverters)
    (Converter.definitionLines converters ++ e.plan.definitionLines) block)]

/-- A part with the stem of its files; code that was registered by hand has none. -/
inductive Entry where
  | lines (node : Option DeclId) (code : List String)
  | part (stem : String) (p : Plan)

/-- What the entry point writes for a part. -/
def Entry.call : Entry → List String
  | lines _ code => code
  | part stem _ => ["\t" ++ registerName stem ++ "();"]

def Entry.node : Entry → Option DeclId
  | lines node _ => node
  | part _ p => p.node

/-- Parts with stems that tell their files apart. -/
def entries (fresh : Fresh) : List Plan → List Entry
  | [] => []
  | .code node code :: ps => .lines node code :: entries fresh ps
  | .region r parts :: ps =>
    let (stem, fresh) := fresh.pick (identifier r.name)
    .part stem (.region r parts) :: entries fresh ps

/-- The files of an extension whose parts have files of their own. -/
def multipleFiles (e : Extension) (converters : List Converter) :
    Except GenError (List OutputFile) := do
  let entries := entries {} e.parts
  let ofParts ← entries.mapM fun
    | .part stem p => g.partFiles converters stem p
    | .lines _ _ => return []
  let stems := entries.filterMap fun
    | .part stem _ => some stem
    | .lines _ _ => none
  let ordered ← g.library.byDepth Entry.node entries
  let includes := e.root.includes ++ stems.map OutputFile.includeHeader ++
    converterInclude converters
  let block := splice e.root.bodyLines (ordered.flatMap Entry.call)
  let main := OutputFile.ofBody (e.name ++ ".rb.cpp")
    (Plan.unitText includes e.root.definitionLines block)
  return [main] ++ ofParts.flatten ++
    (if converters.isEmpty then [] else g.converterFiles converters)

/-- The files of an extension, given the conversions that its code needs. -/
def render (layout : Layout) (e : Extension) (converters : List Converter) :
    Except GenError (List OutputFile) :=
  match layout with
  | .single => g.singleFile e converters
  | .multiple => g.multipleFiles e converters

/-- Generate the files of an extension in a run of its own. -/
def generate (layout : Layout) (name : String) (ns : Option DeclId) (modules : List ModuleSpec) :
    Except GenError (List OutputFile) :=
  match (g.extension name ns modules).run.run {} with
  | (.error e, _) => .error e
  | (.ok e, s) => g.render layout e s.converters

end Setting

end RubyBinding
