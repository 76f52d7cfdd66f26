/-
A run of the program: settings and sources are loaded, the sources are
analyzed as one text, diagnostics and issues go to the log, and the
document asked for is written. Nothing is written unless all else went
well.

- `Arguments.run`: a run on a file tree.
- `execute`: a run from its command line to its exit code.
-/
import SchemaAtlas.Color.Css
import SchemaAtlas.CommandLine.Arguments
import SchemaAtlas.CommandLine.Configuration
import SchemaAtlas.CommandLine.Log
import SchemaAtlas.Config.Toml
import SchemaAtlas.Example
import SchemaAtlas.Session

namespace SchemaAtlas

/-- What a run finds around it. -/
structure Environment where
  tree : FileTree
  /-- Where the system keeps the program's configuration. -/
  systemConfig : Option String
  now : Moment
  /-- How configuration files are read. -/
  readConfig : ConfigReader := Config.ofToml?
  /-- How colors are read. -/
  readColor : ColorReader := Css.reader
  /-- How documents are printed. -/
  printJson : Json.Printer := Json.indented
  /-- Why the standard output takes nothing, if it does not. -/
  outputFault : Option IoFault := none

/-- What a run leaves behind. -/
structure RunOutcome where
  /-- Why the run failed, if it did. -/
  failure : Option Failure
  tree : FileTree
  /-- The file that was written, if one was. -/
  written : Option String
  /-- What went to the standard output. -/
  output : String
  log : List LogRecord

-- ==================================================== loading

/-- Why sources could not be read. -/
def IoFault.failure (f : IoFault) : Failure :=
  ⟨.io, f.message⟩

/-- The files named, as source files. -/
def readSources (tree : FileTree) (paths : List String) : Except IoFault (List SourceFile) :=
  paths.mapM fun path => (tree.readText path).map fun s => ⟨path, s.toList⟩

/-- A source text and its analysis. -/
structure Analyzed where
  source : Text
  analysis : Analysis

namespace Arguments

/-- The text to analyze. -/
def source (a : Arguments) (tree : FileTree) : Except IoFault Text :=
  if a.useExample then .ok exampleSource.toList
  else (readSources tree a.files).map SourceFile.join

/-- Loads settings and sources, and analyzes. -/
def analyze (a : Arguments) (env : Environment) : Except Failure Analyzed := do
  let config ← (Config.load env.readConfig env.readColor env.tree a.config
    env.systemConfig).mapError ConfigurationFault.failure
  let source ← (a.source env.tree).mapError IoFault.failure
  let session : Session := { config }
  let analysis ← (session.analyze env.readColor source env.now).1
  return ⟨source, analysis⟩

end Arguments

-- ==================================================== log

namespace LogRecord

/-- The record that opens an execution. -/
def launched (filter : LogFilter) : LogRecord :=
  plain .info "Starting SchemaGraph" [("log_level", filter.name)]

/-- The record that closes an execution that went well. -/
def completed : LogRecord :=
  plain .info "Completed successfully" []

/-- The record that opens a run. -/
def started (a : Arguments) : LogRecord :=
  plain .info "Analyzing schemas"
    [("files", Nat.repr a.files.length),
     ("example", if a.useExample then "true" else "false"),
     ("output_path", a.output)]

/-- The record about a diagnostic. -/
def diagnosed (source : Text) (d : Diagnostic) : LogRecord :=
  ⟨.warn, .report (.ofDiagnostic source d), []⟩

/-- The record about an issue. -/
def found (i : Issue) : LogRecord :=
  plain (.ofSeverity i.severity) i.display [("schema", i.subject)]

/-- The record of the counters. -/
def summed (s : Summary) : LogRecord :=
  plain .info "Summary"
    [("schemas", Nat.repr s.schemas),
     ("relationships", Nat.repr s.relationships),
     ("errors", Nat.repr s.errors),
     ("warnings", Nat.repr s.warnings),
     ("infos", Nat.repr s.infos)]

/-- The record about the file written. -/
def written (path : String) : LogRecord :=
  plain .info "Analysis exported successfully" [("output_file", path)]

/-- The record about a failure. -/
def failed (f : Failure) : LogRecord :=
  ⟨.error, .report (.ofFailure f), []⟩

end LogRecord

/-- The records about an analysis. -/
def Analyzed.log (a : Analyzed) : List LogRecord :=
  a.analysis.diagnostics.map (LogRecord.diagnosed a.source)
    ++ a.analysis.issues.map LogRecord.found
    ++ [LogRecord.summed a.analysis.summary]

-- ==================================================== running

namespace Arguments

/-- Writes a document where the arguments say; `log` are the records so
far. -/
def deliver (a : Arguments) (env : Environment) (log : List LogRecord) (document : String) :
    RunOutcome :=
  if a.output = "-" then
    match env.outputFault with
    | some f => ⟨some f.failure, env.tree, none, "", log⟩
    | none => ⟨none, env.tree, none, document ++ "\n", log⟩
  else
    match env.tree.write a.output document.toUTF8 with
    | .error f => ⟨some f.failure, env.tree, none, "", log⟩
    | .ok tree => ⟨none, tree, some a.output, "", log ++ [.written a.output]⟩

/-- A run. An analysis is logged before its document is printed. -/
def run (a : Arguments) (env : Environment) : RunOutcome :=
  let opening := [LogRecord.started a]
  match a.analyze env with
  | .error f => ⟨some f, env.tree, none, "", opening⟩
  | .ok analyzed =>
      let log := opening ++ analyzed.log
      match analyzed.analysis.print env.printJson a.format with
      | .error f => ⟨some f, env.tree, none, "", log⟩
      | .ok document => a.deliver env log document

end Arguments

-- ==================================================== process

/-- What the process of a run shows to the outside. -/
structure Execution where
  exitCode : UInt8
  tree : FileTree
  /-- The file that was written, if one was. -/
  written : Option String
  /-- What goes to the standard output. -/
  output : String
  /-- Lines for the standard error in front of the log. -/
  notices : List String
  /-- The records that the log level lets through. -/
  log : List LogRecord

/-- The answer to the question for the version. -/
def versionText : String :=
  "schemagraph-cli 0.1.0\n"

/-- The answer to the question for help. -/
def helpText : String :=
  String.intercalate "\n"
    ["Usage: schemagraph [OPTIONS] [FILES]...",
     "",
     "Arguments:",
     "  [FILES]...  Schema source files, analyzed together as one project",
     "",
     "Options:",
     "      --example            Analyze the built-in example schemas instead of files",
     "  -o, --output <OUTPUT>    Path to the output JSON file, or - for standard output",
     "  -f, --format <FORMAT>    Document to write: export, graph or layout",
     "  -c, --config <CONFIG>    Path to configuration file (TOML)",
     "      --log-level <LEVEL>  Log level: off, error, warn, info, debug or trace",
     "  -h, --help               Print help",
     "  -V, --version            Print version",
     ""]

namespace ArgumentStop

/-- The stop in words. -/
def message : ArgumentStop → String
  | helpWanted => helpText
  | versionWanted => versionText
  | unknownArgument => "error: unexpected argument"
  | invalidValue => "error: invalid or missing value for an option"
  | tooManyValues => "error: unexpected value for an option that takes none"
  | conflict => "error: an argument cannot be used twice or together with another"
  | missingArgument => "error: files or --example are required"

/-- The process that ends with this stop. A question is answered on the
standard output; everything else is an error of usage. -/
def execution (stop : ArgumentStop) (tree : FileTree) : Execution :=
  match stop with
  | helpWanted | versionWanted => ⟨0, tree, none, stop.message, [], []⟩
  | _ => ⟨2, tree, none, "", [stop.message], []⟩

end ArgumentStop

/-- A run from its command line, the program's name aside. An unknown
log level is replaced by `warn`, which is told. -/
def execute (argv : List String) (env : Environment) : Execution :=
  match Arguments.read argv with
  | .error stop => stop.execution env.tree
  | .ok a =>
      let (filter, notices) := match LogFilter.ofName? a.logLevel with
        | some filter => (filter, [])
        | none =>
            (some .warn, ["Invalid log level: " ++ a.logLevel ++ ". Using 'warn' instead."])
      let r := a.run env
      let log :=
        LogRecord.launched filter :: r.log ++ [r.failure.elim .completed LogRecord.failed]
      { exitCode := if r.failure.isNone then 0 else 1
        tree := r.tree
        written := r.written
        output := r.output
        notices
        log := log.filter fun record => filter.shows record.level }

end SchemaAtlas
