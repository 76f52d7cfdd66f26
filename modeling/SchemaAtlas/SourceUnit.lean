/-
Source units. Several files can be analyzed as one text when each is
preceded by a marker line, `// FILE: name`. Each unit is scanned by
itself; `SourceUnit.split` takes the text apart and `SourceFile.join`
puts files together.
-/
import SchemaAtlas.Text.Blank
import SchemaAtlas.Text.Line

namespace SchemaAtlas

/-- A piece of the input that is scanned as one file. Text in front of
the first marker line has no name. -/
structure SourceUnit where
  name : Option String
  text : Text
  /-- Bytes of the input in front of the unit's text. -/
  start : Nat
  deriving DecidableEq, Repr

namespace SourceUnit

/-- What a marker line begins with, up to white space. -/
def marker : Text :=
  "// FILE:".toList

/-- The name that a marker line gives, if the line is one. -/
def markerName? (line : Text) : Option Text :=
  match marker.isPrefixOf? (Text.trimStart line) with
  | some r => if Text.trim r = [] then none else some (Text.trim r)
  | none => none

/-- Whether a unit counts: text without a name does only if it is not
blank. -/
def isKept (u : SourceUnit) : Bool :=
  u.name.isSome || !u.text.isAllBlank

/-- The units of a run of lines. The first one bears the given name and
begins at byte `start`; the lines begin at byte `here`. -/
def splitLines (name : Option String) (start here : Nat) :
    List Text → SourceUnit × List SourceUnit
  | [] => (⟨name, [], start⟩, [])
  | l :: ls =>
      let next := here + l.width
      match markerName? l with
      | some n =>
          let later := splitLines (some (String.ofList n)) next next ls
          (⟨name, [], start⟩, later.1 :: later.2)
      | none =>
          let later := splitLines name start next ls
          ({ later.1 with text := l ++ later.1.text }, later.2)

/-- The units of an input, in order. -/
def split (input : Text) : List SourceUnit :=
  let units := splitLines none 0 0 input.lines
  (units.1 :: units.2).filter isKept

end SourceUnit

-- ==================================================== joining

/-- A file to be analyzed together with others. -/
structure SourceFile where
  path : String
  content : Text
  deriving DecidableEq, Repr

namespace SourceFile

/-- The content with a line break at its end. -/
def closedContent (f : SourceFile) : Text :=
  if f.content.getLast? = some '\n' then f.content else f.content ++ ['\n']

/-- One input made of files, each behind its marker line. -/
def join (files : List SourceFile) : Text :=
  files.flatMap fun f =>
    SourceUnit.marker ++ ' ' :: f.path.toList ++ '\n' :: f.closedContent

end SourceFile

end SchemaAtlas
