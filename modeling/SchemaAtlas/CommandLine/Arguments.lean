/-
Arguments of the command line. Options are written `--name value`,
`--name=value`, `-n value`, `-nvalue` or `-n=value`; a lone hyphen is a
value, and everything behind `--` is a file.

The arguments are read left to right. A value that follows its option
as an argument of its own is looked at only when the next argument
turns out to be known, or at the end; an argument that is not known
stops the reading at once.
-/
import SchemaAtlas.Document

namespace SchemaAtlas

-- ==================================================== names

/-- Options that take a value. -/
inductive ArgumentOption
  | output
  | format
  | config
  | logLevel
  deriving DecidableEq, Repr

/-- Options that take none. -/
inductive ArgumentSwitch
  | useExample
  | help
  | version
  deriving DecidableEq, Repr

/-- What a name on the command line stands for. -/
inductive ArgumentName
  | option (o : ArgumentOption)
  | switch (s : ArgumentSwitch)
  deriving DecidableEq, Repr

namespace ArgumentName

/-- The meaning of a long name. -/
def ofLong? : String → Option ArgumentName
  | "output" => some (.option .output)
  | "format" => some (.option .format)
  | "config" => some (.option .config)
  | "log-level" => some (.option .logLevel)
  | "example" => some (.switch .useExample)
  | "help" => some (.switch .help)
  | "version" => some (.switch .version)
  | _ => none

/-- The meaning of a short name. -/
def ofShort? : Char → Option ArgumentName
  | 'o' => some (.option .output)
  | 'f' => some (.option .format)
  | 'c' => some (.option .config)
  | 'h' => some (.switch .help)
  | 'V' => some (.switch .version)
  | _ => none

end ArgumentName

/-- The document a format name asks for. -/
def DocumentKind.ofFormat? : String → Option DocumentKind
  | "export" => some .report
  | "graph" => some .graph
  | "layout" => some .layout
  | _ => none

-- ==================================================== results

/-- Why the reading of arguments stops. -/
inductive ArgumentStop
  | helpWanted
  | versionWanted
  | unknownArgument
  | invalidValue
  | tooManyValues
  /-- Given twice, or together with what excludes it. -/
  | conflict
  | missingArgument
  deriving DecidableEq, Repr

/-- What a run is told to do. -/
structure Arguments where
  files : List String := []
  /-- Analyze the example in place of files. -/
  useExample : Bool := false
  /-- The file to write, or a hyphen for the standard output. -/
  output : String := "schema-analysis.json"
  format : DocumentKind := .report
  config : Option String := none
  logLevel : String := "info"
  deriving DecidableEq, Repr

namespace Arguments

-- ==================================================== reading

/-- An option whose value, if it came, was not looked at yet. -/
structure Pending where
  option : ArgumentOption
  value : Option String
  deriving DecidableEq, Repr

/-- Arguments read so far, and the options among them. -/
structure Partial where
  arguments : Arguments
  given : List ArgumentName
  pending : Option Pending
  deriving DecidableEq, Repr

namespace Partial

/-- Nothing read. -/
def start : Partial :=
  ⟨{}, [], none⟩

/-- Counts a name as given. No name may be given twice. -/
def give (p : Partial) (name : ArgumentName) : Except ArgumentStop Partial :=
  if p.given.contains name then .error .conflict
  else .ok { p with given := name :: p.given }

/-- The arguments with an option set. -/
def set (a : Arguments) (o : ArgumentOption) (value : String) : Except ArgumentStop Arguments :=
  match o with
  | .output => .ok { a with output := value }
  | .config => .ok { a with config := some value }
  | .logLevel => .ok { a with logLevel := value }
  | .format =>
      match DocumentKind.ofFormat? value with
      | some kind => .ok { a with format := kind }
      | none => .error .invalidValue

/-- Takes an option with its value. -/
def accept (p : Partial) (o : ArgumentOption) (value : String) : Except ArgumentStop Partial := do
  let p ← p.give (.option o)
  let arguments ← set p.arguments o value
  return { p with arguments }

/-- Looks at the pending option, if there is one. -/
def settle (p : Partial) : Except ArgumentStop Partial :=
  match p.pending with
  | none => .ok p
  | some ⟨_, none⟩ => .error .invalidValue
  | some ⟨o, some value⟩ => { p with pending := none }.accept o value

/-- Takes an option with its value, once the one before is settled. -/
def attach (p : Partial) (o : ArgumentOption) (value : String) : Except ArgumentStop Partial := do
  let p ← p.settle
  p.accept o value

/-- Takes an option whose value is still to come. -/
def await (p : Partial) (o : ArgumentOption) : Except ArgumentStop Partial := do
  let p ← p.settle
  return { p with pending := some ⟨o, none⟩ }

/-- Takes a switch. -/
def turnOn (p : Partial) (s : ArgumentSwitch) : Except ArgumentStop Partial := do
  let p ← p.settle
  match s with
  | .help => throw .helpWanted
  | .version => throw .versionWanted
  | .useExample =>
      let p ← p.give (.switch .useExample)
      return { p with arguments := { p.arguments with useExample := true } }

/-- Takes a file. -/
def addFile (p : Partial) (file : String) : Except ArgumentStop Partial := do
  let p ← p.settle
  return { p with arguments := { p.arguments with files := p.arguments.files ++ [file] } }

-- ==================================================== one argument

/-- Takes a long name, with the value behind its equals sign if there is
one. -/
def long (p : Partial) (name : String) (value : Option String) : Except ArgumentStop Partial :=
  match ArgumentName.ofLong? name, value with
  | none, _ => .error .unknownArgument
  | some (.switch s), none => p.turnOn s
  | some (.switch _), some _ => .error .tooManyValues
  | some (.option o), some value => p.attach o value
  | some (.option o), none => p.await o

/-- Takes a run of short names. What follows the name of an option is
its value. -/
def short (p : Partial) : Text → Except ArgumentStop Partial
  | [] => .ok p
  | c :: cs =>
      match ArgumentName.ofShort? c with
      | none => .error .unknownArgument
      | some (.switch s) => do (← p.turnOn s).short cs
      | some (.option o) =>
          match cs with
          | [] => p.await o
          | '=' :: value => p.attach o (String.ofList value)
          | value => p.attach o (String.ofList value)

/-- Takes an argument that is no name: the value of the option in front
of it, or a file. -/
def plain (p : Partial) (argument : String) : Except ArgumentStop Partial :=
  match p.pending with
  | some ⟨o, none⟩ => .ok { p with pending := some ⟨o, some argument⟩ }
  | _ => p.addFile argument

/-- Takes one argument in front of a double hyphen. -/
def take (p : Partial) (argument : String) : Except ArgumentStop Partial :=
  match argument.toList with
  | '-' :: '-' :: name =>
      match name.dropWhile (· ≠ '=') with
      | _ :: value =>
          p.long (String.ofList (name.takeWhile (· ≠ '='))) (some (String.ofList value))
      | [] => p.long (String.ofList name) none
  | '-' :: c :: names => p.short (c :: names)
  | _ => p.plain argument

-- ==================================================== all arguments

/-- Takes the arguments in turn and settles the last one. -/
def takeAll (p : Partial) : List String → Except ArgumentStop Partial
  | [] => p.settle
  | "--" :: files => do (← files.foldlM addFile p).settle
  | argument :: rest => do (← p.take argument).takeAll rest

end Partial

/-- Reads the arguments of a command line, the program's name aside.
There must be files or the example, and not both. -/
def read (argv : List String) : Except ArgumentStop Arguments := do
  let a := (← Partial.start.takeAll argv).arguments
  if a.useExample then
    if a.files.isEmpty then return a else throw .conflict
  else if a.files.isEmpty then throw .missingArgument
  else return a

end Arguments

end SchemaAtlas
