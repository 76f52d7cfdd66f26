/-
A run is all or nothing. It fails for one of three causes, each lying
outside the analysis: the file where the search for settings ended gives
none, a source file cannot be read as text, or the document cannot be
written. A run that fails leaves all files alone. A run that does not
has changed one file at most, the one its output names; and what stands
there now was computed before the write, so an output may be one of the
sources.

Between loading and writing nothing fails: settings that apply have
passed the check, such settings analyze every text, and the printer
takes every document. How colors are read and documents are printed is
up to the environment; what is relied on is `Environment.Reliable`.

- `Arguments.FailureCause`: why a run fails.
- `Arguments.AsksFor`, `Arguments.Delivered`: what a run leaves behind
  that does not.
- `Arguments.run_allOrNothing`: the whole.
-/
import SchemaAtlas.Proofs.CommandLine.Configuration
import SchemaAtlas.Proofs.CommandLine.Sources

namespace SchemaAtlas

/-- What a run relies on in its readers and its printer. -/
structure Environment.Reliable (env : Environment) : Prop where
  /-- The default colors, six hexadecimal digits each, can be read. -/
  colors : ({} : EdgeColors).KnownTo env.readColor
  /-- Every document can be printed: a printer refuses keys that are no
  texts and parts that know no text of theirs, and a document has
  neither. -/
  prints : ∀ v, ∃ text, env.printJson v = .ok text

/-- The reader of style sheets and the indenting printer can be relied
on. -/
theorem Environment.reliable_of_css {env : Environment} (hcolor : env.readColor = Css.reader)
    (hprint : env.printJson = Json.indented) : env.Reliable where
  colors m := by
    rw [hcolor]
    cases m with
    | foreignKey => exact ⟨_, rfl⟩
    | embedded => exact ⟨_, rfl⟩
  prints v := by
    rw [hprint]
    exact ⟨_, rfl⟩

namespace Arguments

variable {a : Arguments} {env : Environment} {f : Failure}

-- ==================================================== sources

/-- The text a run analyzes. -/
inductive Sources (a : Arguments) (tree : FileTree) : Text → Prop
  | builtin (hexample : a.useExample = true) : Sources a tree exampleSource.toList
  | joined {files : List SourceFile} (hexample : a.useExample = false)
      (hpaths : files.map SourceFile.path = a.files) (hheld : ∀ file ∈ files, tree.Holds file) :
      Sources a tree (SourceFile.join files)

/-- The first source file that cannot be read as text. -/
inductive SourceFault (a : Arguments) (tree : FileTree) : IoFault → Prop
  | unreadable {before behind : List String} {path : String} {fault : IoFault}
      (hexample : a.useExample = false) (hfiles : a.files = before ++ path :: behind)
      (hbefore : ∀ p ∈ before, ∃ s, tree.readText p = .ok s)
      (hread : tree.readText path = .error fault) : SourceFault a tree fault

theorem source_eq_ok_iff {tree : FileTree} {input : Text} :
    a.source tree = .ok input ↔ a.Sources tree input := by
  unfold source
  cases hexample : a.useExample with
  | true =>
      constructor
      · intro h
        obtain rfl := Except.ok.inj h
        exact .builtin hexample
      · intro h
        cases h with
        | builtin => rfl
        | joined hno => rw [hexample] at hno; cases hno
  | false =>
      rw [if_neg Bool.false_ne_true, Except.map_eq_ok_iff]
      constructor
      · rintro ⟨files, hfiles, rfl⟩
        obtain ⟨hpaths, hheld⟩ := readSources_eq_ok_iff.1 hfiles
        exact .joined hexample hpaths hheld
      · intro h
        cases h with
        | builtin hyes => rw [hexample] at hyes; cases hyes
        | joined _ hpaths hheld =>
            exact ⟨_, readSources_eq_ok_iff.2 ⟨hpaths, hheld⟩, rfl⟩

/-- There is no other text to analyze. -/
theorem Sources.unique {tree : FileTree} {input input' : Text} (h : a.Sources tree input)
    (h' : a.Sources tree input') : input = input' :=
  Except.ok.inj ((source_eq_ok_iff.2 h).symm.trans (source_eq_ok_iff.2 h'))

theorem source_eq_error_iff {tree : FileTree} {fault : IoFault} :
    a.source tree = .error fault ↔ a.SourceFault tree fault := by
  unfold source
  cases hexample : a.useExample with
  | true =>
      constructor
      · intro h
        cases h
      · intro h
        cases h with
        | unreadable hno => rw [hexample] at hno; cases hno
  | false =>
      rw [if_neg Bool.false_ne_true, Except.map_eq_error_iff, readSources_eq_error_iff]
      constructor
      · rintro ⟨before, path, behind, hfiles, hbefore, hread⟩
        exact .unreadable hexample hfiles hbefore hread
      · rintro ⟨_, hfiles, hbefore, hread⟩
        exact ⟨_, _, _, hfiles, hbefore, hread⟩

-- ==================================================== the analysis

/-- The settings that apply to a run. -/
def Settings (a : Arguments) (env : Environment) (c : Config) : Prop :=
  Config.Applies env.readConfig env.readColor env.tree a.config env.systemConfig c

/-- No two settings apply. -/
theorem Settings.unique {c c' : Config} (h : a.Settings env c) (h' : a.Settings env c') :
    c = c' :=
  Except.ok.inj ((Config.load_eq_ok_iff.2 h).symm.trans (Config.load_eq_ok_iff.2 h'))

theorem analyze_eq_ok_iff {x : Analyzed} :
    a.analyze env = .ok x ↔
      ∃ c, a.Settings env c ∧ a.Sources env.tree x.source ∧
        c.analyze env.readColor x.source env.now = .ok x.analysis := by
  unfold analyze
  simp only [Except.bind_eq_ok_iff, Except.mapError_eq_ok_iff, Config.load_eq_ok_iff,
    source_eq_ok_iff]
  constructor
  · rintro ⟨c, hsettings, input, hsources, analysis, hanalysis, h⟩
    cases h
    exact ⟨c, hsettings, hsources, hanalysis⟩
  · rintro ⟨c, hsettings, hsources, hanalysis⟩
    exact ⟨c, hsettings, x.source, hsources, x.analysis, hanalysis, rfl⟩

/-- Settings that apply analyze every text. -/
theorem Settings.exists_analysis {c : Config} (henv : env.Reliable) (h : a.Settings env c)
    (input : Text) : ∃ analysis, c.analyze env.readColor input env.now = .ok analysis :=
  Config.exists_analysis (Config.Applies.validate henv.colors h) input env.now

/-- With settings and sources at hand a run gets its analysis. -/
theorem exists_analyzed {c : Config} {input : Text} (henv : env.Reliable)
    (hsettings : a.Settings env c) (hsources : a.Sources env.tree input) :
    ∃ analysis, c.analyze env.readColor input env.now = .ok analysis ∧
      a.analyze env = .ok ⟨input, analysis⟩ := by
  obtain ⟨analysis, hanalysis⟩ := hsettings.exists_analysis henv input
  exact ⟨analysis, hanalysis, analyze_eq_ok_iff.2 ⟨c, hsettings, hsources, hanalysis⟩⟩

/-- No analysis fails: what fails is the loading before it. -/
theorem analyze_eq_error_iff (henv : env.Reliable) :
    a.analyze env = .error f ↔
      (∃ path fault, Config.FoundAt env.tree a.config env.systemConfig path ∧
        Config.RefusedBy env.readConfig env.readColor env.tree path fault ∧ fault.failure = f) ∨
        ∃ c fault, a.Settings env c ∧ a.SourceFault env.tree fault ∧ fault.failure = f := by
  unfold analyze
  simp only [Except.bind_eq_error_iff, Except.mapError_eq_error_iff, Except.mapError_eq_ok_iff,
    Config.load_eq_ok_iff, Config.load_eq_error_iff, source_eq_ok_iff, source_eq_error_iff]
  constructor
  · rintro (⟨fault, ⟨path, hfound, hrefused⟩, rfl⟩ |
      ⟨c, hsettings, ⟨fault, hfault, rfl⟩ | ⟨input, -, h | ⟨_, -, h⟩⟩⟩)
    · exact Or.inl ⟨path, fault, hfound, hrefused, rfl⟩
    · exact Or.inr ⟨c, fault, hsettings, hfault, rfl⟩
    · obtain ⟨analysis, hanalysis⟩ := Settings.exists_analysis henv hsettings input
      cases hanalysis.symm.trans h
    · cases h
  · rintro (⟨path, fault, hfound, hrefused, rfl⟩ | ⟨c, fault, hsettings, hfault, rfl⟩)
    · exact Or.inl ⟨fault, ⟨path, hfound, hrefused⟩, rfl⟩
    · exact Or.inr ⟨c, hsettings, Or.inl ⟨fault, hfault, rfl⟩⟩

-- ==================================================== the document

/-- The document that the arguments ask for. -/
inductive AsksFor (a : Arguments) (x : Analysis) : Json.Value → Prop
  | report (hformat : a.format = .report) : AsksFor a x x.reportDocument
  | graph (hformat : a.format = .graph) : AsksFor a x x.graphDocument
  | layout (hformat : a.format = .layout) : AsksFor a x x.layout.document

theorem asksFor_iff {x : Analysis} {v : Json.Value} :
    a.AsksFor x v ↔ v = x.document a.format := by
  constructor
  · intro h
    cases h with
    | report hformat => rw [hformat]; rfl
    | graph hformat => rw [hformat]; rfl
    | layout hformat => rw [hformat]; rfl
  · rintro rfl
    cases hformat : a.format with
    | report => exact .report hformat
    | graph => exact .graph hformat
    | layout => exact .layout hformat

/-- What is printed is the document asked for. -/
theorem print_eq_ok_iff {x : Analysis} {printJson : Json.Printer} {text : String} :
    x.print printJson a.format = .ok text ↔
      ∃ v, a.AsksFor x v ∧ printJson v = .ok text := by
  simp only [asksFor_iff, exists_eq_left]
  exact Except.mapError_eq_ok_iff

theorem exists_printed (henv : env.Reliable) (a : Arguments) (x : Analysis) :
    ∃ text, x.print env.printJson a.format = .ok text := by
  obtain ⟨text, htext⟩ := henv.prints (x.document a.format)
  exact ⟨text, Except.mapError_eq_ok_iff.2 htext⟩

-- ==================================================== the output

/-- Nothing can be written where the arguments say. -/
inductive OutputFault (a : Arguments) (env : Environment) : IoFault → Prop
  | standard {fault : IoFault} (houtput : a.output = "-") (hfault : env.outputFault = some fault) :
      OutputFault a env fault
  | file {fault : IoFault} (houtput : a.output ≠ "-")
      (htarget : env.tree.target a.output.toList = .error fault) : OutputFault a env fault

/-- A text went where the arguments say. -/
inductive Placed (a : Arguments) (env : Environment) (text : String) : RunOutcome → Prop
  /-- To the standard output: all files are as they were. -/
  | standard {r : RunOutcome} (houtput : a.output = "-") (htree : r.tree = env.tree)
      (hshown : r.output = text ++ "\n") : Placed a env text r
  /-- To a file: it holds the text and nothing else. At every other
  place stands what stood there, and so it does where any path leads
  that does not lead to the file. No directory came or went. -/
  | file {r : RunOutcome} {place : Location} (houtput : a.output ≠ "-")
      (hplace : env.tree.target a.output.toList = .ok place)
      (hwritten : r.tree.contents? a.output = some text.toUTF8)
      (hfiles : ∀ l, l ≠ place → r.tree.files.get? l = env.tree.files.get? l)
      (hpaths : ∀ p : String, env.tree.resolve p.toList ≠ .ok place →
        r.tree.contents? p = env.tree.contents? p)
      (hdirectories : ∀ l, r.tree.isDirectory l = env.tree.isDirectory l) :
      Placed a env text r

/-- The document asked for, of an analysis, was printed and went where
the arguments say. -/
inductive Delivered (a : Arguments) (env : Environment) (x : Analysis) (r : RunOutcome) : Prop
  | intro (v : Json.Value) (text : String) (hasked : a.AsksFor x v)
      (hprinted : env.printJson v = .ok text) (hplaced : a.Placed env text r)

theorem deliver_of_fault {fault : IoFault} (h : a.OutputFault env fault) (log : List LogRecord)
    (text : String) :
    a.deliver env log text = ⟨some fault.failure, env.tree, none, "", log⟩ := by
  unfold deliver
  cases h with
  | standard houtput hfault => rw [if_pos houtput, hfault]
  | file houtput htarget => rw [if_neg houtput, FileTree.write_eq_error_iff.2 htarget]

/-- What is written leaves the rest of the tree alone. -/
theorem Placed.of_write {text : String} {r : RunOutcome} (houtput : a.output ≠ "-")
    (h : env.tree.write a.output text.toUTF8 = .ok r.tree) : a.Placed env text r := by
  obtain ⟨place, hplace, hfiles⟩ := FileTree.get?_write h
  obtain ⟨place', hplace', hcontents⟩ := FileTree.contents?_write h
  cases hplace.symm.trans hplace'
  obtain ⟨-, hleads, -⟩ := FileTree.target_eq_ok_iff.1 hplace
  refine .file houtput hplace ?_ ?_ ?_ (FileTree.isDirectory_write h)
  · rw [hcontents, if_pos hleads]
  · intro l hl
    rw [hfiles, if_neg hl.symm]
  · intro p hp
    rw [hcontents, if_neg hp]

theorem deliver_of_no_fault (h : ∀ fault, ¬ a.OutputFault env fault) (log : List LogRecord)
    (text : String) :
    (a.deliver env log text).failure = none ∧ a.Placed env text (a.deliver env log text) := by
  unfold deliver
  by_cases houtput : a.output = "-"
  · rw [if_pos houtput]
    cases hfault : env.outputFault with
    | some fault => exact absurd (.standard houtput hfault) (h fault)
    | none => exact ⟨rfl, .standard houtput rfl rfl⟩
  · rw [if_neg houtput]
    cases hwrite : env.tree.write a.output text.toUTF8 with
    | error fault =>
        exact absurd (.file houtput (FileTree.write_eq_error_iff.1 hwrite)) (h fault)
    | ok u => exact ⟨rfl, .of_write houtput hwrite⟩

/-- With the indenting printer a file that was written holds the document
asked for, indented. -/
theorem Delivered.contents? {x : Analysis} {r : RunOutcome} (h : a.Delivered env x r)
    (hprint : env.printJson = Json.indented) (houtput : a.output ≠ "-") :
    r.tree.contents? a.output = some (x.render a.format).toUTF8 := by
  obtain ⟨v, text, hasked, hprinted, hplaced⟩ := h
  obtain rfl := asksFor_iff.1 hasked
  rw [hprint] at hprinted
  cases hprinted
  cases hplaced with
  | standard hstandard => exact absurd hstandard houtput
  | file _ _ hwritten => exact hwritten

-- ==================================================== the run

/-- Why a run fails. -/
inductive FailureCause (a : Arguments) (env : Environment) : Failure → Prop
  /-- The file where the search for settings ended gives none. -/
  | settings {path : String} {fault : ConfigurationFault}
      (hfound : Config.FoundAt env.tree a.config env.systemConfig path)
      (hrefused : Config.RefusedBy env.readConfig env.readColor env.tree path fault) :
      FailureCause a env fault.failure
  /-- Settings are at hand, but a source file cannot be read as text. -/
  | source {c : Config} {fault : IoFault} (hsettings : a.Settings env c)
      (hsource : a.SourceFault env.tree fault) : FailureCause a env fault.failure
  /-- Settings and sources are at hand, but the output takes nothing. -/
  | output {c : Config} {input : Text} {fault : IoFault} (hsettings : a.Settings env c)
      (hsources : a.Sources env.tree input) (houtput : a.OutputFault env fault) :
      FailureCause a env fault.failure

theorem run_of_error (h : a.analyze env = .error f) :
    (a.run env).failure = some f ∧ (a.run env).tree = env.tree := by
  unfold run
  rw [h]
  exact ⟨rfl, rfl⟩

theorem run_of_refusal {x : Analyzed} (hx : a.analyze env = .ok x)
    (h : x.analysis.print env.printJson a.format = .error f) :
    (a.run env).failure = some f ∧ (a.run env).tree = env.tree := by
  unfold run
  rw [hx]
  dsimp only
  rw [h]
  exact ⟨rfl, rfl⟩

/-- A run that has printed its document delivers it. -/
theorem run_of_printed {x : Analyzed} {text : String} (hx : a.analyze env = .ok x)
    (h : x.analysis.print env.printJson a.format = .ok text) :
    a.run env = a.deliver env ([LogRecord.started a] ++ x.log) text := by
  unfold run
  rw [hx]
  dsimp only
  rw [h]

theorem run_of_fault {x : Analyzed} {text : String} {fault : IoFault}
    (hx : a.analyze env = .ok x) (hprinted : x.analysis.print env.printJson a.format = .ok text)
    (h : a.OutputFault env fault) :
    (a.run env).failure = some fault.failure ∧ (a.run env).tree = env.tree := by
  rw [run_of_printed hx hprinted, deliver_of_fault h]
  exact ⟨rfl, rfl⟩

theorem run_of_no_fault {x : Analyzed} {text : String} (hx : a.analyze env = .ok x)
    (hprinted : x.analysis.print env.printJson a.format = .ok text)
    (h : ∀ fault, ¬ a.OutputFault env fault) :
    (a.run env).failure = none ∧ a.Delivered env x.analysis (a.run env) := by
  obtain ⟨v, hasked, hv⟩ := print_eq_ok_iff.1 hprinted
  rw [run_of_printed hx hprinted]
  obtain ⟨hnone, hplaced⟩ := deliver_of_no_fault h ([LogRecord.started a] ++ x.log) text
  exact ⟨hnone, v, text, hasked, hv, hplaced⟩

/-- Past its analysis a run fails as its output does. -/
theorem failure_run_iff_of_analyzed {x : Analyzed} (henv : env.Reliable)
    (hx : a.analyze env = .ok x) :
    (a.run env).failure = some f ↔ ∃ fault, a.OutputFault env fault ∧ fault.failure = f := by
  obtain ⟨text, hprinted⟩ := exists_printed henv a x.analysis
  constructor
  · intro h
    by_contra hno
    have hnone : ∀ fault, ¬ a.OutputFault env fault := by
      intro fault hfault
      have hf := (run_of_fault hx hprinted hfault).1.symm.trans h
      exact hno ⟨fault, hfault, Option.some.inj hf⟩
    cases (run_of_no_fault hx hprinted hnone).1.symm.trans h
  · rintro ⟨fault, hfault, rfl⟩
    exact (run_of_fault hx hprinted hfault).1

/-- A run fails and leaves the files alone, or it delivers. -/
theorem run_cases (a : Arguments) (env : Environment) :
    (∃ f, (a.run env).failure = some f ∧ (a.run env).tree = env.tree) ∨
      ∃ x, a.analyze env = .ok x ∧ (a.run env).failure = none ∧
        a.Delivered env x.analysis (a.run env) := by
  cases hx : a.analyze env with
  | error f => exact Or.inl ⟨f, run_of_error hx⟩
  | ok x =>
      cases hprinted : x.analysis.print env.printJson a.format with
      | error f => exact Or.inl ⟨f, run_of_refusal hx hprinted⟩
      | ok text =>
          by_cases h : ∃ fault, a.OutputFault env fault
          · obtain ⟨fault, hfault⟩ := h
            exact Or.inl ⟨_, run_of_fault hx hprinted hfault⟩
          · exact Or.inr ⟨x, rfl, run_of_no_fault hx hprinted (not_exists.1 h)⟩

theorem tree_run_of_failure (h : (a.run env).failure ≠ none) : (a.run env).tree = env.tree := by
  rcases run_cases a env with ⟨_, -, htree⟩ | ⟨_, -, hnone, -⟩
  · exact htree
  · exact absurd hnone h

/-- A run fails for its causes, and for nothing else. -/
theorem failure_run_iff (henv : env.Reliable) :
    (a.run env).failure = some f ↔ a.FailureCause env f := by
  constructor
  · intro h
    cases hx : a.analyze env with
    | error f' =>
        cases (run_of_error hx).1.symm.trans h
        rcases (analyze_eq_error_iff henv).1 hx with
          ⟨path, fault, hfound, hrefused, rfl⟩ | ⟨c, fault, hsettings, hfault, rfl⟩
        · exact .settings hfound hrefused
        · exact .source hsettings hfault
    | ok x =>
        obtain ⟨fault, hfault, rfl⟩ := (failure_run_iff_of_analyzed henv hx).1 h
        obtain ⟨c, hsettings, hsources, -⟩ := analyze_eq_ok_iff.1 hx
        exact .output hsettings hsources hfault
  · intro h
    cases h with
    | settings hfound hrefused =>
        have hx := (analyze_eq_error_iff henv).2 (Or.inl ⟨_, _, hfound, hrefused, rfl⟩)
        exact (run_of_error hx).1
    | source hsettings hsource =>
        have hx := (analyze_eq_error_iff henv).2 (Or.inr ⟨_, _, hsettings, hsource, rfl⟩)
        exact (run_of_error hx).1
    | output hsettings hsources houtput =>
        obtain ⟨analysis, -, hx⟩ := exists_analyzed henv hsettings hsources
        exact (failure_run_iff_of_analyzed henv hx).2 ⟨_, houtput, rfl⟩

/-- A file where the search for settings ended and that gives none ends
the run. -/
theorem failure_run_of_refusedBy {path : String} {fault : ConfigurationFault}
    (henv : env.Reliable) (hfound : Config.FoundAt env.tree a.config env.systemConfig path)
    (hrefused : Config.RefusedBy env.readConfig env.readColor env.tree path fault) :
    (a.run env).failure = some fault.failure :=
  (failure_run_iff henv).2 (.settings hfound hrefused)

-- ==================================================== the whole

/-- What a run may leave behind. -/
structure AllOrNothing (a : Arguments) (env : Environment) (r : RunOutcome) : Prop where
  /-- After a failure the files are as they were. -/
  unchanged : r.failure ≠ none → r.tree = env.tree
  /-- The run fails for its causes, and for nothing else. -/
  causes : ∀ f, r.failure = some f ↔ a.FailureCause env f
  /-- The search for settings does not go on behind the file where it
  ended. -/
  refused : ∀ path fault, Config.FoundAt env.tree a.config env.systemConfig path →
    Config.RefusedBy env.readConfig env.readColor env.tree path fault →
      r.failure = some fault.failure
  /-- A file named for the settings that is not there is an error. -/
  missing : ∀ path, a.config = some path → env.tree.exists? path = false →
    r.failure = some ⟨.config, "Missing configuration file: " ++ path⟩
  /-- So is a file of the project that gives no settings. -/
  project : a.config = none → env.tree.exists? Config.localFile = true →
    (∀ c, ¬ Config.GivenBy env.readConfig env.readColor env.tree Config.localFile c) →
    ∃ fault, Config.RefusedBy env.readConfig env.readColor env.tree Config.localFile fault ∧
      r.failure = some fault.failure
  /-- With settings and sources at hand there is an analysis, its document
  is printed, and only the output can fail. -/
  analyzed : ∀ c input, a.Settings env c → a.Sources env.tree input →
    (∃ analysis, c.analyze env.readColor input env.now = .ok analysis ∧
      ∃ text, analysis.print env.printJson a.format = .ok text) ∧
      ∀ f, r.failure = some f ↔ ∃ fault, a.OutputFault env fault ∧ fault.failure = f
  /-- A run that does not fail delivers the document asked for, about
  the sources as they were before. -/
  delivered : r.failure = none → ∃ c input analysis, a.Settings env c ∧
    a.Sources env.tree input ∧ c.analyze env.readColor input env.now = .ok analysis ∧
    a.Delivered env analysis r

/-- For all arguments, in every environment that can be relied on. -/
theorem run_allOrNothing (a : Arguments) (env : Environment) (henv : env.Reliable) :
    AllOrNothing a env (a.run env) where
  unchanged := tree_run_of_failure
  causes _ := failure_run_iff henv
  refused _ _ := failure_run_of_refusedBy henv
  missing _ hchosen hmissing :=
    failure_run_of_refusedBy henv (.named hchosen) (.missing hmissing)
  project hchosen hthere hgives := by
    rcases Config.givenBy_or_refusedBy env.readConfig env.readColor env.tree
        Config.localFile with ⟨c, hc⟩ | ⟨fault, hfault⟩
    · exact absurd hc (hgives c)
    · exact ⟨fault, hfault, failure_run_of_refusedBy henv (.project hchosen hthere) hfault⟩
  analyzed c input hsettings hsources := by
    obtain ⟨analysis, hanalysis, hx⟩ := exists_analyzed henv hsettings hsources
    exact ⟨⟨analysis, hanalysis, exists_printed henv a analysis⟩,
      fun f => failure_run_iff_of_analyzed henv hx⟩
  delivered h := by
    rcases run_cases a env with ⟨_, hf, -⟩ | ⟨x, hx, -, hdelivered⟩
    · cases hf.symm.trans h
    · obtain ⟨c, hsettings, hsources, hanalysis⟩ := analyze_eq_ok_iff.1 hx
      exact ⟨c, x.source, x.analysis, hsettings, hsources, hanalysis, hdelivered⟩

/-- With settings, sources and an output at hand a run delivers. -/
theorem AllOrNothing.exists_delivered {r : RunOutcome} {c : Config} {input : Text}
    (h : AllOrNothing a env r) (hsettings : a.Settings env c)
    (hsources : a.Sources env.tree input) (houtput : ∀ fault, ¬ a.OutputFault env fault) :
    r.failure = none ∧ ∃ analysis, c.analyze env.readColor input env.now = .ok analysis ∧
      a.Delivered env analysis r := by
  have hnone : r.failure = none := by
    rw [Option.eq_none_iff_forall_ne_some]
    intro f hf
    obtain ⟨fault, hfault, -⟩ := ((h.analyzed c input hsettings hsources).2 f).1 hf
    exact houtput fault hfault
  obtain ⟨c', input', analysis, hc, hinput, hanalysis, hdelivered⟩ := h.delivered hnone
  obtain rfl := hc.unique hsettings
  obtain rfl := hinput.unique hsources
  exact ⟨hnone, analysis, hanalysis, hdelivered⟩

-- ==================================================== two runs

/-- A source file with a schema that refers to a missing one. -/
def looseSource : SourceFile :=
  ⟨"a.js", "const A = Schema(\x7b b: \x7b ref: 'B' \x7d \x7d);\n".toList⟩

/-- A project of one source file, and no settings. -/
def looseProject : FileTree :=
  (FileTree.empty ["work"]).withFile "a.js" (String.ofList looseSource.content).toUTF8

/-- Settings with a color that cannot be read. -/
def greySettings : String :=
  "[style]\nforeign_key_color = \"grey\"\n"

/-- The same project with these settings. -/
def greyProject : FileTree :=
  looseProject.withFile Config.localFile greySettings.toUTF8

/-- What a run finds that finds nothing but a project. -/
def surroundings (tree : FileTree) : Environment where
  tree
  systemConfig := none
  now := ⟨0, 0⟩

/-- Arguments whose output is the source file. -/
def overwriting : Arguments where
  files := ["a.js"]
  output := "a.js"
  format := .graph

/-- The settings are well formed but for their color. -/
theorem refusedBy_greyProject :
    Config.RefusedBy Config.ofToml? Css.reader greyProject Config.localFile
      (.unusable (.color .foreignKey ⟨"grey", "unknown color identifier"⟩)) := by
  have htext : greyProject.readText Config.localFile = .ok greySettings := by decide +kernel
  have hsettings : (Config.ofToml? greySettings.toList).map
      (fun c => (c.spacing.fault?.isNone, c.colors.foreignKey)) = some (true, "grey") := by
    decide +kernel
  obtain ⟨c, hread, hc⟩ := Option.map_eq_some_iff.1 hsettings
  obtain ⟨hspacing, hcolor⟩ := Prod.mk.inj hc
  refine .unusable htext hread ?_
  have hgrey : Css.reader "grey" = .error "unknown color identifier" := by decide +kernel
  have hforeignKey : c.colors.color Css.reader .foreignKey =
      .error (.color .foreignKey ⟨"grey", "unknown color identifier"⟩) := by
    rw [EdgeColors.color, EdgeColors.text, hcolor, Color.read, hgrey]
    rfl
  rw [Config.validate, Option.isNone_iff_eq_none.1 hspacing, hforeignKey]
  rfl

/-- Where there are no settings the defaults apply. -/
theorem settings_looseProject : overwriting.Settings (surroundings looseProject) {} := by
  refine .byDefault fun path h => ?_
  cases h with
  | named h => cases h
  | project _ hthere => exact absurd hthere (by decide +kernel)
  | platform _ _ h => cases h

theorem sources_looseProject :
    overwriting.Sources looseProject (SourceFile.join [looseSource]) := by
  refine .joined rfl rfl (List.forall_mem_singleton.2 ?_)
  show looseProject.readText "a.js" = .ok (String.ofList looseSource.content)
  decide +kernel

/-- A source is a file that can be written. -/
theorem not_outputFault_looseProject (fault : IoFault) :
    ¬ overwriting.OutputFault (surroundings looseProject) fault := by
  have htarget : looseProject.target "a.js".toList = .ok ["work", "a.js"] := by decide +kernel
  intro h
  cases h with
  | standard h => exact absurd h (by decide)
  | file _ h => cases htarget.symm.trans h

/-- A color that cannot be read ends a run, and its source stays as it
was. Without it the run puts in the place of its source the graph of
what the source was before. -/
theorem run_allOrNothing_overwriting :
    ((overwriting.run (surroundings greyProject)).failure =
          some ⟨.config, "Validation error: Invalid foreign key color in config: " ++
            "invalid color `grey`: unknown color identifier"⟩ ∧
        (overwriting.run (surroundings greyProject)).tree = greyProject) ∧
      ∃ analysis, ({} : Config).analyze Css.reader (SourceFile.join [looseSource]) ⟨0, 0⟩ =
          .ok analysis ∧
        (overwriting.run (surroundings looseProject)).failure = none ∧
        (overwriting.run (surroundings looseProject)).tree.contents? "a.js" =
          some (analysis.render .graph).toUTF8 := by
  have henv : ∀ tree, (surroundings tree).Reliable := fun _ =>
    Environment.reliable_of_css rfl rfl
  constructor
  · have hrun := run_allOrNothing overwriting (surroundings greyProject) (henv greyProject)
    have hfailure := hrun.refused _ _ (.project rfl (by decide +kernel)) refusedBy_greyProject
    refine ⟨?_, hrun.unchanged (by rw [hfailure]; exact Option.some_ne_none _)⟩
    rw [hfailure]
    decide +kernel
  · have hrun := run_allOrNothing overwriting (surroundings looseProject) (henv looseProject)
    obtain ⟨hnone, analysis, hanalysis, hdelivered⟩ := hrun.exists_delivered
      settings_looseProject sources_looseProject not_outputFault_looseProject
    exact ⟨analysis, hanalysis, hnone, hdelivered.contents? rfl (by decide)⟩

end Arguments

end SchemaAtlas
