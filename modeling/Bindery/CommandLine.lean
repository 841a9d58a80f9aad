import Bindery.CommandLine.Arguments
import Bindery.Compilation
import Bindery.Diagnostic.Rendered
import Bindery.Settings.Config
/-!
# The command line

Reads the settings, compiles the modules and reports. The result depends on files only through a function that reads
them, so that it can be run on any collection of files. The exit code is 0 for success, 1 when settings or modules
cannot be read, and 2 for errors in the modules or in the command line itself.
-/
namespace Bindery

/-- What reading a file gives. -/
inductive FileText where
  | text (content : String)
  | missing
  | unreadable
  deriving DecidableEq, Repr

def FileText.content? : FileText → Option String
  | .text content => some content
  | _ => none

/-- What a run leaves behind: the exit code, the lines of standard output and of standard error, and the line that
counts the errors. -/
structure Outcome where
  exitCode : UInt32
  output : List String := []
  complaints : List String := []
  found : Option String := none
  deriving DecidableEq, Repr

namespace CommandLine

def helpLines : List String :=
  ["zinc - semantic binder for syntax dumps", "", "Usage: zinc [OPTIONS] [MODULE]...", "", "Arguments:",
    "  [MODULE]...  Syntax dumps to bind, one module per file", "", "Options:",
    "  -p, --project <PROJECT>              Path to zinc.json",
    "      --pointer-width <POINTER_WIDTH>  Target pointer size in bits [possible values: 32, 64]",
    "      --entry-name <ENTRY_NAME>        Name of each module's entry-point function",
    "      --threads <THREADS>              Worker threads for post-binding verification",
    "      --max-errors <MAX_ERRORS>        Stop reporting after this many errors",
    "      --summary                        Print a summary line for each bound module",
    "  -v, --verbose                        Log binder activity (`ZINC_LOG` overrides)",
    "  -h, --help                           Print help",
    "  -V, --version                        Print version"]

/-- The outcome when nothing is compiled. -/
def stopped : Stop → Outcome
  | .usage => { exitCode := 2, complaints := ["error: invalid arguments", "", "For more information, try '--help'."] }
  | .help => { exitCode := 0, output := helpLines }
  | .version => { exitCode := 0, output := ["zinc 0.1.0"] }

def failed (message : String) : Outcome := { exitCode := 1, complaints := [s!"Error: {message}"] }

/-- The line of a module's summary. -/
def summaryLine (summary : ModuleSummary) : String :=
  s!"{summary.name}: {summary.statements} statements, {summary.functions} functions, {summary.nodes} nodes"

def foundLine (count : Nat) : String :=
  let ending := if count = 1 then "." else "s."
  s!"Found {count} error{ending}"

/-- The outcome of a compilation. -/
def report (args : Arguments) (paths : List String) (compilation : Compilation) : Outcome :=
  let complaints := compilation.log.entries.map fun diagnostic => (Rendered.of paths diagnostic).describe
  if compilation.succeeded then
    { exitCode := 0, complaints, output := if args.summary then compilation.summaries.map summaryLine else [] }
  else { exitCode := 2, complaints, found := some (foundLine compilation.log.errorCount) }

/-- The path of the settings file. -/
def settingsPath (project : Option String) : String := project.getD "zinc.json"

/-- The settings, and the path of the file that they come from. Without a project file the one in the working directory
is taken, if there is one. -/
def settings (project : Option String) (file : FileText) : Except String (Config × Option String) :=
  let path := settingsPath project
  match project, file with
  | none, .missing => .ok ({}, none)
  | _, .text content =>
    match Config.read content with
    | .ok config => .ok (config, some path)
    | .error .malformed => .error "invalid zinc.json"
    | .error (.invalid fault) => .error fault.message
  | _, _ => .error s!"failed to read {path}"

variable {m : Type → Type} [Monad m]

/-- Reads modules one after the other, up to the first that cannot be read. -/
def readModules (read : String → m FileText) : List String → Nat → m (Except String (List Source))
  | [], _ => return .ok []
  | path :: rest, file => do
    match ← read path with
    | .text content =>
      let sources ← readModules read rest (file + 1)
      return sources.map (⟨path, ModuleDef.ofText file content⟩ :: ·)
    | _ => return .error s!"failed to read {path}"

/-- Compiles what arguments ask for with settings. -/
def compile (read : String → m FileText) (args : Arguments) (config : Config) (path : Option String) : m Outcome := do
  let options := config.options.merge args.options
  let paths := if args.modules.isEmpty then (path.map config.modulePaths).getD [] else args.modules
  if paths.isEmpty then return failed "no input modules; pass syntax dumps or list them in zinc.json"
  match ← readModules read paths 0 with
  | .error message => return failed message
  | .ok sources =>
    match Compilation.ofSources options sources with
    | .error error => return failed error.message
    | .ok compilation => return report args paths compilation

/-- Runs a command line. -/
def run (read : String → m FileText) (words : List String) : m Outcome := do
  match Arguments.parse words with
  | .error stop => return stopped stop
  | .ok args =>
    match settings args.project (← read (settingsPath args.project)) with
    | .error message => return failed message
    | .ok (config, path) => compile read args config path

end CommandLine

end Bindery
