/-
The program: what a run could look at is taken from the disk, the run
is carried out on that, and what it left behind is shown and written.
-/
import SchemaAtlas.CommandLine.Run
import Std.Time.DateTime.Timestamp

namespace SchemaAtlas

-- ==================================================== looking

/-- The paths on the way to a path, itself included. -/
def waysTo (path : String) : List String :=
  let names := pathNames path.toList
  (List.range names.length).map fun n =>
    String.ofList (List.intercalate ['/'] (names.take (n + 1)))

/-- Adds the file at a place to a tree. -/
def lookInto (tree : FileTree) (place : String) : IO FileTree := do
  try
    return tree.withFile place (← IO.FS.readBinFile place)
  catch f =>
    return (tree.withFile place .empty).withRefusal .reading place (.system f.toString)

/-- Adds what stands at a path to a tree: where the path leads, and the
directory or file that is there. -/
def look (tree : FileTree) (path : String) : IO FileTree := do
  if path.isEmpty then return tree
  try
    let place ← IO.FS.realPath path
    let tree := tree.withLink path place.toString
    if ← place.isDir then return tree.withDirectory place.toString
    lookInto tree place.toString
  catch _ => return tree

/-- The paths that a run with these arguments may look at. -/
def Arguments.paths (a : Arguments) : List String :=
  Config.localFile :: a.output :: a.config.toList ++ a.files

/-- The file of the system's configuration directory. -/
def systemConfig : IO (Option String) := do
  match ← IO.getEnv "XDG_CONFIG_HOME" with
  | some directory =>
      if directory.startsWith "/" then return some (directory ++ "/" ++ Config.localFile)
  | none => pure ()
  return (← IO.getEnv "HOME").map fun home => home ++ "/.config/" ++ Config.localFile

/-- The present moment. -/
def present : IO Moment := do
  let now ← Std.Time.Timestamp.now
  return ⟨now.val.second.val, now.val.nano.val.toNat⟩

/-- What a run with these arguments finds. -/
def survey (argv : List String) : IO Environment := do
  let start := FileTree.empty
    (((pathNames (← IO.currentDir).toString.toList).filter (· ≠ [])).map String.ofList)
  let system ← systemConfig
  let paths := match Arguments.read argv with
    | .ok a => a.paths ++ system.toList
    | .error _ => []
  let tree ← (paths.flatMap waysTo).foldlM look start
  return { tree, systemConfig := system, now := ← present }

-- ==================================================== leaving

/-- Writes the file that an execution wrote. -/
def save (e : Execution) : IO Unit := do
  match e.written with
  | none => return
  | some path =>
      match e.tree.contents? path with
      | some bytes => IO.FS.writeBinFile path bytes
      | none => return

end SchemaAtlas

/-- Runs the program with the arguments of its command line. -/
def main (argv : List String) : IO UInt32 := do
  let e := SchemaAtlas.execute argv (← SchemaAtlas.survey argv)
  for line in e.notices do
    IO.eprintln line
  for record in e.log do
    IO.eprintln record.shown
  IO.print e.output
  try
    SchemaAtlas.save e
    return e.exitCode.toUInt32
  catch f =>
    IO.eprintln f.toString
    return 1
