/-
The sources of a run. The files named are read in turn and joined into
one text; the first that cannot be read ends the reading. Taken apart
again, the text has one unit for each file: under the file's path, with
its content, and at the place where the content stands in the text.

- `readSources_eq_ok_iff`, `readSources_eq_error_iff`: reading.
- `SourceFile.getElem?_unitsFrom`: the units of joined files, one by one.
- `SourceFile.split_readSources`: the whole.
-/
import SchemaAtlas.CommandLine.Run
import SchemaAtlas.Proofs.Failure
import SchemaAtlas.Proofs.SourceFile

namespace SchemaAtlas

/-- A file tree holds a source file: under its path stands its content. -/
def FileTree.Holds (tree : FileTree) (f : SourceFile) : Prop :=
  tree.readText f.path = .ok (String.ofList f.content)

-- ==================================================== reading

/-- What is read are the files of the paths, in their order. -/
theorem readSources_eq_ok_iff {tree : FileTree} {paths : List String} {files : List SourceFile} :
    readSources tree paths = .ok files ↔
      files.map SourceFile.path = paths ∧ ∀ f ∈ files, tree.Holds f := by
  unfold readSources
  rw [Except.mapM_eq_ok_iff]
  constructor
  · intro h
    induction h with
    | nil => exact ⟨rfl, List.forall_mem_nil _⟩
    | cons hf _ ih =>
        obtain ⟨s, hs, rfl⟩ := Except.map_eq_ok_iff.1 hf
        refine ⟨congrArg₂ List.cons rfl ih.1, List.forall_mem_cons.2 ⟨?_, ih.2⟩⟩
        rw [FileTree.Holds, String.ofList_toList]
        exact hs
  · rintro ⟨rfl, h⟩
    rw [List.forall₂_map_left_iff, List.forall₂_same]
    intro f hf
    exact Except.map_eq_ok_iff.2 ⟨_, h f hf, by rw [String.toList_ofList]⟩

/-- The first file that cannot be read is at fault. -/
theorem readSources_eq_error_iff {tree : FileTree} {paths : List String} {f : IoFault} :
    readSources tree paths = .error f ↔
      ∃ before path behind, paths = before ++ path :: behind ∧
        (∀ p ∈ before, ∃ s, tree.readText p = .ok s) ∧ tree.readText path = .error f := by
  have hreads : ∀ p, (∃ file : SourceFile,
      ((tree.readText p).map fun s => ⟨p, s.toList⟩) = .ok file) ↔
        ∃ s, tree.readText p = .ok s := by
    intro p
    simp only [Except.map_eq_ok_iff]
    exact ⟨fun ⟨_, s, hs, _⟩ => ⟨s, hs⟩, fun ⟨s, hs⟩ => ⟨_, s, hs, rfl⟩⟩
  unfold readSources
  simp only [Except.mapM_eq_error_iff, hreads, Except.map_eq_error_iff]

-- ==================================================== units

namespace SourceFile

theorem length_unitsFrom (here : Nat) (files : List SourceFile) :
    (unitsFrom here files).length = files.length := by
  induction files generalizing here with
  | nil => rfl
  | cons f fs ih => rw [unitsFrom, List.length_cons, ih, List.length_cons]

/-- A unit begins behind the files in front and its own marker line. -/
theorem getElem?_unitsFrom (here : Nat) (before : List SourceFile) (f : SourceFile)
    (behind : List SourceFile) :
    (unitsFrom here (before ++ f :: behind))[before.length]? =
      some ⟨some f.path, f.closedContent, here + Text.width (join before ++ f.markerLine)⟩ := by
  induction before generalizing here with
  | nil => rfl
  | cons b bs ih =>
      rw [List.cons_append, unitsFrom, List.length_cons, List.getElem?_cons_succ, ih, join_cons]
      simp only [Text.width_append, Nat.add_assoc]

/-- The content of a file stands behind the files in front and its own
marker line. -/
theorem join_split (before : List SourceFile) (f : SourceFile) (behind : List SourceFile) :
    join (before ++ f :: behind) =
      join before ++ f.markerLine ++ f.closedContent ++ join behind := by
  have happend : join (before ++ f :: behind) = join before ++ join (f :: behind) :=
    List.flatMap_append
  rw [happend, join_cons]
  simp only [List.append_assoc]

/-- Files that a tree holds, with paths of one line and nothing to trim
and with contents without a marker line, are read, joined, and taken
apart into one unit for each of them, in their order. The unit of a file
is named by its path, its text is the content with a line break at its
end, and it begins where that text stands in the joined text: behind the
files in front and the marker line of the file. -/
theorem split_readSources {tree : FileTree} {files : List SourceFile}
    (hheld : ∀ f ∈ files, tree.Holds f) (hplain : ∀ f ∈ files, f.IsPlain) :
    ∃ input, (readSources tree (files.map path)).map join = .ok input ∧
      (SourceUnit.split input).length = files.length ∧
      ∀ before f behind, files = before ++ f :: behind →
        ∃ front rest, front = join before ++ f.markerLine ∧
          input = front ++ f.closedContent ++ rest ∧
          (SourceUnit.split input)[before.length]? =
            some ⟨some f.path, f.closedContent, Text.width front⟩ := by
  have hread : readSources tree (files.map path) = .ok files :=
    readSources_eq_ok_iff.2 ⟨rfl, hheld⟩
  have hsplit : SourceUnit.split (join files) = unitsFrom 0 files := split_join hplain
  refine ⟨join files, by rw [hread]; rfl, ?_, ?_⟩
  · rw [hsplit, length_unitsFrom]
  · rintro before f behind rfl
    refine ⟨_, join behind, rfl, join_split before f behind, ?_⟩
    rw [hsplit, getElem?_unitsFrom, Nat.zero_add]

/-- Three files: one ends without a line break behind a marker line
without a name, one is empty, and one has a blank in its path. -/
def threeFiles : List SourceFile :=
  [⟨"a.js", "// FILE:\nconst A".toList⟩, ⟨"empty.js", []⟩, ⟨"ö b.js", "é\r\n".toList⟩]

/-- The tree that holds the three files. -/
def threeFilesTree : FileTree :=
  threeFiles.foldl (fun t f => t.withFile f.path (String.ofList f.content).toUTF8)
    (.empty ["work"])

theorem split_readSources_threeFiles :
    (∀ f ∈ threeFiles, threeFilesTree.Holds f) ∧ (∀ f ∈ threeFiles, f.IsPlain) ∧
      ∃ input, (readSources threeFilesTree (threeFiles.map path)).map join = .ok input ∧
        (SourceUnit.split input).length = 3 ∧
        (SourceUnit.split input)[0]? = some ⟨some "a.js", "// FILE:\nconst A\n".toList, 14⟩ ∧
        (SourceUnit.split input)[1]? = some ⟨some "empty.js", ['\n'], 49⟩ ∧
        (SourceUnit.split input)[2]? = some ⟨some "ö b.js", "é\r\n".toList, 67⟩ := by
  have hheld : ∀ f ∈ threeFiles, threeFilesTree.Holds f :=
    List.forall_mem_cons.2 ⟨rfl, List.forall_mem_cons.2 ⟨rfl, List.forall_mem_singleton.2 rfl⟩⟩
  have hplain : ∀ f ∈ threeFiles, f.IsPlain := by
    refine List.forall_mem_cons.2 ⟨?_, List.forall_mem_cons.2 ⟨?_, List.forall_mem_singleton.2 ?_⟩⟩
    · exact ⟨by decide, by decide, by decide, by decide⟩
    · exact ⟨by decide, by decide, by decide, by decide⟩
    · exact ⟨by decide, by decide, by decide, by decide⟩
  obtain ⟨input, hinput, hlength, hunits⟩ := split_readSources hheld hplain
  obtain ⟨_, _, rfl, -, hfirst⟩ := hunits [] threeFiles[0] [threeFiles[1], threeFiles[2]] rfl
  obtain ⟨_, _, rfl, -, hsecond⟩ := hunits [threeFiles[0]] threeFiles[1] [threeFiles[2]] rfl
  obtain ⟨_, _, rfl, -, hthird⟩ := hunits [threeFiles[0], threeFiles[1]] threeFiles[2] [] rfl
  refine ⟨hheld, hplain, input, hinput, hlength, hfirst.trans ?_, hsecond.trans ?_, hthird.trans ?_⟩
  · decide +kernel
  · decide +kernel
  · decide +kernel

end SourceFile

end SchemaAtlas
