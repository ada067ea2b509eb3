import RubyBinding.Config.Reader
import RubyBinding.Document.Reader
import RubyBinding.Header.Entry
import RubyBinding.Host
import RubyBinding.Text.Bytes

/-!
# Projects

A project is a configuration at work: its headers are read, here or by a command that prints a
document, the declarations are annotated, and the extension is generated and written. Nothing is
written unless everything could be generated.
-/

namespace RubyBinding

/-- Why a run ended early. -/
inductive ProjectError where
  | unreadableConfig (path : String)
  | malformedConfig
  | invalidConfig (fault : ConfigFault)
  | unreadableHeader (path : String)
  | parserNotStarted (commandLine : String)
  | parserFailed (commandLine : String) (ending : Ending) (report : String)
  /-- The output of a parser is no document. -/
  | malformedDocument
  /-- An annotation was refused. -/
  | refused (e : AnnotationError)
  /-- No code was generated. -/
  | notGenerated (e : GenError)
  | notWritten (path : String)
  deriving DecidableEq, Repr

def ProjectError.message : ProjectError → String
  | unreadableConfig path => "failed to read config file: " ++ path
  | malformedConfig => "failed to parse TOML config"
  | invalidConfig fault => "config validation error: " ++ fault.message
  | unreadableHeader path => "failed to read header " ++ path
  | parserNotStarted commandLine => "failed to run parser " ++ ticked commandLine
  | parserFailed commandLine ending _ =>
    "parser " ++ ticked commandLine ++ " failed (" ++ ending.text ++ ")"
  | malformedDocument => "failed to parse parser output"
  | refused e => e.message
  | notGenerated e => e.message
  | notWritten path => "failed to write " ++ path

/-- A configuration, and what a caller wants instead of what it says. -/
structure Project where
  config : Config
  layout? : Option Layout := none
  output? : Option String := none
  deriving Repr, Inhabited

namespace Project

/-- The project of a configuration text. -/
def ofText (text root : String) : Except ProjectError Project :=
  match Config.read? text root with
  | none => .error .malformedConfig
  | some config =>
    match config.fault? with
    | some fault => .error (.invalidConfig fault)
    | none => .ok { config }

variable (p : Project)

def layout : Layout := p.layout?.getD p.config.layout

/-- The directory that files are written to. -/
def outputPath : String := p.output?.getD p.config.outputPath

/-- Annotate declarations and generate the files for them. -/
def files (t : DeclTree) : Except ProjectError (List OutputFile) := do
  let config := p.config
  let prepare : Except AnnotationError (Library × Option DeclId × List ModuleSpec) := do
    let lib ← config.annotate { tree := t }
    let ns ← match config.nspace with
      | some name => do pure (some (← lib.findNamespace name))
      | none => pure none
    return (lib, ns, ← ModuleConfig.specs lib config.modules)
  let (lib, ns, modules) ← prepare.mapError .refused
  ((config.setting lib).generate p.layout config.name ns modules).mapError .notGenerated

section Hosted

variable {m : Type → Type} [Monad m] (host : Host m)

/-- The project of a configuration file, whose paths are relative to the file's directory. -/
def load (path : String) : ExceptT ProjectError m Project := do
  match ← (host.readText path : m _) with
  | none => throw (.unreadableConfig path)
  | some text => ofText text (Path.parent path)

/-- Read a header into a tree. -/
def readHeader (t : DeclTree) (path : String) : ExceptT ProjectError m DeclTree := do
  match ← (host.readText path : m _) with
  | none => throw (.unreadableHeader path)
  | some source => return Header.enter t path (host.divide source).items

/-- The declarations of several headers. -/
def readHeaders (paths : List String) : ExceptT ProjectError m DeclTree :=
  paths.foldlM (readHeader host) .empty

/-- The declarations that a command prints. -/
def runParser (command : String) (arguments : List String) : ExceptT ProjectError m DeclTree := do
  let commandLine := String.intercalate " " (command :: arguments)
  match ← (host.runCommand command arguments : m _) with
  | none => throw (.parserNotStarted commandLine)
  | some outcome =>
    if outcome.ending != .exited 0 then
      let report := Text.trimmed (Text.ofBytesLossy outcome.err)
      throw (.parserFailed commandLine outcome.ending report)
    match (Text.ofBytes? outcome.out).bind DeclTree.read? with
    | some t => return t
    | none => throw .malformedDocument

/-- The declarations of a project. -/
def parse : ExceptT ProjectError m DeclTree :=
  match p.config.parser.kind, p.config.parser.command with
  | .external, some command => runParser host command p.config.parserArguments
  | _, _ => readHeaders host p.config.headerPaths

/-- Generate the files of a project. -/
def generate : ExceptT ProjectError m (List OutputFile) := do p.files (← p.parse host)

/-- Write files into a directory. Returns their paths. -/
def write (dir : String) (files : List OutputFile) : ExceptT ProjectError m (List String) := do
  if !(← (host.makeDirs dir : m _)) then throw (.notWritten dir)
  files.mapM fun f => do
    let path := Path.join dir f.name
    if !(← (host.writeText path f.contents : m _)) then throw (.notWritten path)
    return path

/-- Generate the files of a project and write them. Returns their paths. -/
def run : ExceptT ProjectError m (List String) := do
  write host p.outputPath (← p.generate host)

end Hosted

end Project

end RubyBinding
