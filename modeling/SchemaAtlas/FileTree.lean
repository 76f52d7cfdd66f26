/-
File trees: files and directories under one root, seen from a working
directory. A path is followed name by name; every name but the last
must be that of a directory. A name may be a symbolic link, and the
system may refuse to follow a name, to read a file or to write one.

- `FileTree.resolve`: the location a path leads to, there or not.
- `FileTree.readText`, `FileTree.write`: a whole file read or replaced.
-/
import SchemaAtlas.OrderedMap
import SchemaAtlas.Text.Basic

namespace SchemaAtlas

/-- A place in a file tree: the names on the way from the root. -/
abbrev Location := List String

/-- Why a file cannot be read or written. -/
inductive IoFault
  | notFound
  | notADirectory
  | isADirectory
  | nameTooLong
  | zeroByteInName
  | notUtf8
  /-- Anything else, as the system puts it. -/
  | system (message : String)
  deriving DecidableEq, Repr

/-- The fault in the words of the system. -/
def IoFault.message : IoFault → String
  | notFound => "No such file or directory (os error 2)"
  | notADirectory => "Not a directory (os error 20)"
  | isADirectory => "Is a directory (os error 21)"
  | nameTooLong => "File name too long (os error 36)"
  | zeroByteInName => "file name contained an unexpected NUL byte"
  | notUtf8 => "stream did not contain valid UTF-8"
  | system message => message

-- ==================================================== paths

/-- The names of a path. Slashes in a row, or at an end, have empty
names between them. -/
def pathNames : Text → List Text
  | [] => [[]]
  | c :: cs =>
      if c = '/' then [] :: pathNames cs
      else
        match pathNames cs with
        | [] => [[c]]
        | n :: ns => (c :: n) :: ns

-- ==================================================== trees

/-- What is done to a file. -/
inductive Access
  | reading
  | writing
  deriving DecidableEq, Repr

/-- Files by location, the directories known besides those that hold
something, and the location that relative paths start from. -/
structure FileTree where
  files : OrderedMap Location ByteArray
  directories : List Location
  workingDirectory : Location
  /-- Where a name leads that stands for a location: there, to the end of
  a symbolic link, or nowhere. -/
  link : Location → Except IoFault Location := .ok
  /-- Why the system refuses access to a location, if it does. -/
  refusal : Access → Location → Option IoFault := fun _ _ => none

namespace FileTree

/-- The tree of nothing but a working directory. -/
def empty (workingDirectory : Location) : FileTree :=
  { files := .empty, directories := [], workingDirectory }

/-- Whether a directory stands at a location. -/
def isDirectory (t : FileTree) (l : Location) : Bool :=
  l.isEmpty || l.isPrefixOf t.workingDirectory || t.directories.any l.isPrefixOf
    || t.files.keys.any fun f => l.isPrefixOf f && l ≠ f

/-- Follows one name of a path. -/
def follow (t : FileTree) (l : Location) (name : Text) : Except IoFault Location :=
  if t.files.contains l then .error .notADirectory
  else if !t.isDirectory l then .error .notFound
  else if name = [] ∨ name = ['.'] then .ok l
  else if name = ['.', '.'] then .ok l.dropLast
  else if 255 < name.width then .error .nameTooLong
  else t.link (l ++ [String.ofList name])

/-- The location a path leads to. What stands there, if anything, is
not asked. -/
def resolve (t : FileTree) (path : Text) : Except IoFault Location :=
  if path.contains '\x00' then .error .zeroByteInName
  else if path.isEmpty then .error .notFound
  else if 4096 ≤ path.width then .error .nameTooLong
  else
    (pathNames path).foldlM t.follow
      (if path.head? = some '/' then [] else t.workingDirectory)

-- ==================================================== reading

/-- Whether a path leads to a file or a directory. -/
def exists? (t : FileTree) (path : String) : Bool :=
  match t.resolve path.toList with
  | .ok l => t.files.contains l || t.isDirectory l
  | .error _ => false

/-- What the file holds that a path leads to, be it readable or not. -/
def contents? (t : FileTree) (path : String) : Option ByteArray :=
  match t.resolve path.toList with
  | .ok l => t.files.get? l
  | .error _ => none

/-- The bytes read from the file at a location. -/
def bytesAt (t : FileTree) (l : Location) : Except IoFault ByteArray :=
  if t.files.contains l || t.isDirectory l then
    match t.refusal .reading l, t.files.get? l with
    | some f, _ => .error f
    | none, some bytes => .ok bytes
    | none, none => .error .isADirectory
  else .error .notFound

/-- The bytes of a file. -/
def read (t : FileTree) (path : String) : Except IoFault ByteArray := do
  t.bytesAt (← t.resolve path.toList)

/-- The text of a file. -/
def readText (t : FileTree) (path : String) : Except IoFault String := do
  let bytes ← t.read path
  match String.fromUTF8? bytes with
  | some s => return s
  | none => throw .notUtf8

-- ==================================================== writing

/-- The location itself, if the system lets a file be written there. -/
def writable (t : FileTree) (l : Location) : Except IoFault Location :=
  if t.isDirectory l then .error .isADirectory
  else if !t.isDirectory l.dropLast then .error .notFound
  else
    match t.refusal .writing l with
    | some f => .error f
    | none => .ok l

/-- The location a file is written to. A path that ends with a slash
names a directory. -/
def target (t : FileTree) (path : Text) : Except IoFault Location :=
  if path.getLast? = some '/' then
    let named := (path.reverse.dropWhile (· = '/')).reverse
    if named.isEmpty then .error .isADirectory
    else t.resolve named >>= fun _ => .error .isADirectory
  else t.resolve path >>= t.writable

/-- The tree with a file replaced, or added to its directory. -/
def write (t : FileTree) (path : String) (bytes : ByteArray) : Except IoFault FileTree := do
  let l ← t.target path.toList
  return { t with files := t.files.insert l bytes }

-- ==================================================== filling

/-- The names that lead from the root to what a path names, without
asking what is there. -/
def locate (t : FileTree) (path : Text) : Location :=
  (pathNames path).foldl
    (fun l name =>
      if name = [] ∨ name = ['.'] then l
      else if name = ['.', '.'] then l.dropLast
      else l ++ [String.ofList name])
    (if path.head? = some '/' then [] else t.workingDirectory)

/-- The tree with a file where a path leads, and directories on the way. -/
def withFile (t : FileTree) (path : String) (bytes : ByteArray) : FileTree :=
  { t with files := t.files.insert (t.locate path.toList) bytes }

/-- The tree with a directory where a path leads. -/
def withDirectory (t : FileTree) (path : String) : FileTree :=
  { t with directories := t.directories ++ [t.locate path.toList] }

/-- The tree with a link from one path to another. -/
def withLink (t : FileTree) (path target : String) : FileTree :=
  match t.resolve path.toList with
  | .ok l =>
      { t with link := fun k => if k = l then .ok (t.locate target.toList) else t.link k }
  | .error _ => t

/-- The tree with access refused to what a path names. -/
def withRefusal (t : FileTree) (access : Access) (path : String) (f : IoFault) : FileTree :=
  { t with refusal := fun a k =>
      if a = access ∧ k = t.locate path.toList then some f else t.refusal a k }

end FileTree

end SchemaAtlas
