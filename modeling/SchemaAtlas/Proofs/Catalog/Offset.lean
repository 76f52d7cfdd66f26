/-
Units where they stand. The scanner counts tokens from the start of a
unit's text and moves every place it writes down to the unit's place in
the input. So the unit has the findings of its text scanned alone, each
of them moved as a whole (`SourceUnit.scan_eq_shift`): the shape of a
declaration or a call is read off the tokens, which are the same, and
each span that a finding is made of is moved once. Merging a unit's
findings moves none of them again (`Catalog.add_eq`).

- `Finding.shift`: a finding as a whole, moved.
- `Finding.all_eq_map_shift`: the findings at the unit's tokens.
- `SourceUnit.scan_eq_shift`: all of a unit's findings.
-/
import SchemaAtlas.Catalog.Scan

namespace SchemaAtlas

-- ==================================================== findings

namespace Finding

/-- The finding moved right by `n` bytes. -/
def shift (n : Nat) : Finding → Finding
  | declaration d => declaration (d.shift n)
  | registration r => registration (r.shift n)
  | warning w => warning (w.shift n)

variable (u : SourceUnit)

theorem ofDeclaration_eq_map_shift (ts : List PlacedToken) :
    ofDeclaration u ts = (ofDeclaration (.alone u.name u.text) ts).map (shift u.start) := by
  unfold ofDeclaration
  cases Shape.header? ts with
  | none => rfl
  | some h =>
      dsimp only
      cases Shape.closeBraces 0 h.behind <;> rfl

theorem ofModel_eq_map_shift (before : List PlacedToken) (word : Span) (ts : List PlacedToken) :
    ofModel u before word ts =
      (ofModel (.alone u.name u.text) before word ts).map (shift u.start) := by
  unfold ofModel
  cases Shape.call? ts with
  | none => rfl
  | some c =>
      dsimp only
      cases Shape.schemaArgument? c.behind <;> rfl

theorem at?_eq_map_shift (before : List PlacedToken) (t : PlacedToken) (ts : List PlacedToken) :
    at? u before t ts = (at? (.alone u.name u.text) before t ts).map (shift u.start) := by
  unfold at?
  split
  · split
    · exact ofDeclaration_eq_map_shift u ts
    · rfl
  · exact ofModel_eq_map_shift u before t.span ts
  · rfl

/-- The findings at a unit's tokens are those of its text alone, moved. -/
theorem all_eq_map_shift (before ts : List PlacedToken) :
    all u before ts = (all (.alone u.name u.text) before ts).map (shift u.start) := by
  induction ts generalizing before with
  | nil => rfl
  | cons t ts ih =>
      rw [all, all, at?_eq_map_shift, ih]
      cases at? (.alone u.name u.text) before t ts <;> rfl

/-- One kind of finding, picked out before or after the move. -/
theorem filterMap_eq_map_shift {α : Type} {part : Finding → Option α} {move : α → α}
    (h : ∀ f, part (shift u.start f) = (part f).map move) (ts : List PlacedToken) :
    (all u [] ts).filterMap part =
      ((all (.alone u.name u.text) [] ts).filterMap part).map move := by
  have hpart : part ∘ shift u.start = fun f => (part f).map move := funext h
  rw [all_eq_map_shift, List.filterMap_map, List.map_filterMap, hpart]

end Finding

-- ==================================================== units

/-- The lexer counts from the start of the text. -/
theorem UnitScan.warnings_of (name : Option String) (text : Text) :
    (of name text).warnings = lexWarnings (tokenize text) ++
      (Finding.all (.alone name text) [] (significant (tokenize text))).filterMap
        Finding.warning? :=
  congrArg (· ++ _) (Warning.collect_zero [] (lexWarnings (tokenize text)))

namespace SourceUnit

variable (u : SourceUnit)

/-- A unit has the findings of its text scanned alone, moved to the
unit's place. -/
theorem scan_eq_shift : u.scan = (UnitScan.of u.name u.text).shift u.start := by
  have hdeclarations : u.scan.declarations =
      (UnitScan.of u.name u.text).declarations.map (·.shift u.start) := by
    refine Finding.filterMap_eq_map_shift u ?_ _
    intro f
    cases f <;> rfl
  have hregistrations : u.scan.registrations =
      (UnitScan.of u.name u.text).registrations.map (·.shift u.start) := by
    refine Finding.filterMap_eq_map_shift u ?_ _
    intro f
    cases f <;> rfl
  have hwarnings : u.scan.warnings =
      (UnitScan.of u.name u.text).warnings.map (·.shift u.start) := by
    rw [UnitScan.warnings_of, List.map_append]
    refine congrArg (_ ++ ·) (Finding.filterMap_eq_map_shift u ?_ _)
    intro f
    cases f <;> rfl
  rw [UnitScan.shift, ← hdeclarations, ← hregistrations, ← hwarnings]

theorem declarations_scan :
    u.scan.declarations = (UnitScan.of u.name u.text).declarations.map (·.shift u.start) :=
  congrArg UnitScan.declarations u.scan_eq_shift

theorem registrations_scan :
    u.scan.registrations = (UnitScan.of u.name u.text).registrations.map (·.shift u.start) :=
  congrArg UnitScan.registrations u.scan_eq_shift

theorem warnings_scan :
    u.scan.warnings = (UnitScan.of u.name u.text).warnings.map (·.shift u.start) :=
  congrArg UnitScan.warnings u.scan_eq_shift

end SourceUnit

-- ==================================================== catalogs

/-- A unit's findings are merged where they are. -/
theorem Catalog.add_eq (c : Catalog) (s : UnitScan) :
    c.add s = s.registrations.foldl register
      (s.declarations.foldl declare { c with warnings := c.warnings ++ s.warnings }) := by
  rw [add, Warning.collect_zero]

end SchemaAtlas
