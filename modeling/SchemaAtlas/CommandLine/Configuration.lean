/-
Finding the settings of a run. A file named on the command line must be
there. Otherwise the file `schemagraph/config.toml` in the working
directory is taken, else the system's file, else the defaults. A file
that was found and cannot be used is an error; the search does not go
on behind it.
-/
import SchemaAtlas.Config.Basic
import SchemaAtlas.Failure
import SchemaAtlas.FileTree

namespace SchemaAtlas

/-- Why no settings were loaded. -/
inductive ConfigurationFault
  | missing (path : String)
  | unreadable (f : IoFault)
  | malformed
  | unusable (f : ConfigFault)

namespace ConfigurationFault

/-- The fault as a failure of the run. -/
def failure : ConfigurationFault → Failure
  | missing path => ⟨.config, "Missing configuration file: " ++ path⟩
  | unreadable f => ⟨.io, f.message⟩
  | malformed => ⟨.config, "Failed to parse TOML configuration"⟩
  | unusable f => ⟨.config, "Validation error: " ++ f.message⟩

end ConfigurationFault

/-- A reader of configuration files: the settings in a file's text, if
it can be read. -/
abbrev ConfigReader := Text → Option Config

namespace Config

/-- The configuration file of a project. -/
def localFile : String := "schemagraph/config.toml"

/-- The file that settings are loaded from, if any. -/
def file? (tree : FileTree) (chosen system : Option String) : Option String :=
  match chosen with
  | some path => some path
  | none => (localFile :: system.toList).find? tree.exists?

/-- The settings in a file that is there. -/
def loadFile (read : ConfigReader) (readColor : ColorReader) (tree : FileTree) (path : String) :
    Except ConfigurationFault Config := do
  let text ← (tree.readText path).mapError .unreadable
  match read text.toList with
  | none => throw .malformed
  | some c =>
      (c.validate readColor).mapError .unusable
      return c

/-- The settings of a run. -/
def load (read : ConfigReader) (readColor : ColorReader) (tree : FileTree)
    (chosen system : Option String) : Except ConfigurationFault Config :=
  match file? tree chosen system with
  | none => .ok {}
  | some path =>
      if tree.exists? path then loadFile read readColor tree path else .error (.missing path)

end Config

end SchemaAtlas
