/-
Bodies of declarations. The scanner finds a body among the tokens of
its unit; later the body is read again as a text of its own, and the
definition of each of its fields once more. All readings give the same
tokens: the brace in front of a body and the colon in front of a
definition let a regular expression begin just as the start of a text
does.

- `SourceUnit.Frames`: how a declaration divides its unit's tokens.
- `SourceUnit.frames_of_mem_scan`: every declaration found does so.
- `exists_unit_of_mem_declarations`: a catalog declares nothing that no
  unit holds.
- `readings_agree`: unit, body and definition.
-/
import SchemaAtlas.Proofs.Catalog.Basic
import SchemaAtlas.Proofs.Catalog.Shape
import SchemaAtlas.Proofs.Field

namespace SchemaAtlas

-- ==================================================== bodies

/-- The unit's tokens hold the declaration's body between two braces:
read alone the body has the same tokens, moved to where it begins, and
the braces among them match. -/
def SourceUnit.Frames (u : SourceUnit) (d : Declaration) : Prop :=
  ∃ before opening inside closing after,
    tokenize u.text = before ++ opening :: (inside ++ closing :: after)
    ∧ opening.token = .mark .leftBrace ∧ closing.token = .mark .rightBrace
    ∧ d.bodyStart = u.start + opening.span.stop
    ∧ inside = (tokenize d.body).map (·.shift opening.span.stop)
    ∧ (∀ us, us <+: inside →
        us.countP (·.isMark .rightBrace) ≤ us.countP (·.isMark .leftBrace))
    ∧ inside.countP (·.isMark .rightBrace) = inside.countP (·.isMark .leftBrace)

/-- Every declaration found frames its unit's tokens. -/
theorem SourceUnit.frames_of_mem_scan {u : SourceUnit} {d : Declaration}
    (h : d ∈ u.scan.declarations) : u.Frames d := by
  have hfinding : .declaration d ∈ Finding.all u [] (significant (tokenize u.text)) := by
    obtain ⟨f, hf, heq⟩ := List.mem_filterMap.1 h
    cases f with
    | declaration e => cases heq; exact hf
    | registration r => cases heq
    | warning w => cases heq
  obtain ⟨us, t, ts, htokens, hat⟩ := Finding.exists_of_mem_all hfinding
  obtain ⟨n, front, b, body, closing, behind, rfl, hb, hclosing, hmatch, -, hstart, -, hbody⟩ :=
    Finding.ofDeclaration_spec (Finding.declaration_of_at? hat)
  have hsplit : significant (tokenize u.text) =
      (us ++ t :: n :: front) ++ b :: (body ++ closing :: behind) := by
    rw [htokens, List.append_assoc]
    rfl
  obtain ⟨before, rest, hrest, -, hsignificant⟩ := eq_append_cons_of_significant hsplit
  obtain ⟨inside, after, rfl, hinside, -⟩ := eq_append_cons_of_significant hsignificant
  obtain ⟨hslice, -⟩ := tokenize_slice hrest
  obtain ⟨hcounts, hcount⟩ : BracesClose 0 inside := by
    rw [← hinside] at hmatch
    exact hmatch.of_significant
  refine ⟨before, b, inside, closing, after, hrest, hb, hclosing, ?_, ?_, hcounts, hcount⟩
  · rw [hstart, Nat.add_comm]
  · rw [hb] at hslice
    rw [hbody, tokenize, ← tokensFrom_shift, Nat.zero_add]
    exact hslice.symm

-- ==================================================== catalogs

namespace Catalog

/-- A declaration of a catalog was found in one of the units. -/
theorem exists_unit_of_mem_declarations {input : Text} {d : Declaration}
    (h : d ∈ (scan input).declarations.values) :
    ∃ u ∈ SourceUnit.split input, d ∈ u.scan.declarations := by
  let Found (e : String × Declaration) : Prop :=
    ∃ u ∈ SourceUnit.split input, e.2 ∈ u.scan.declarations
  have hfound : ∀ e ∈ (ofUnits (SourceUnit.split input)).declarations.entries, Found e := by
    refine List.foldlRecOn (motive := fun c : Catalog => ∀ e ∈ c.declarations.entries, Found e)
      (SourceUnit.split input) _ (List.forall_mem_nil _) ?_
    intro c hc u hu
    rw [declarations_add]
    exact OrderedMap.forall_entries_foldl_insert Declaration.name id hc fun d hd => ⟨u, hu, hd⟩
  obtain ⟨e, he, rfl⟩ := List.mem_map.1 h
  exact hfound e he

end Catalog

-- ==================================================== all readings

/-- A text is read alike in all three passes: every declaration found
has in its body the tokens that stand between its braces, and every
field of a body in which nothing is left open has in its definition the
significant tokens that stand behind its colon. -/
theorem readings_agree :
    (∀ input : Text,
      (∀ u ∈ SourceUnit.split input, ∀ d ∈ u.scan.declarations, u.Frames d)
        ∧ ∀ d ∈ (Catalog.scan input).declarations.values,
          ∃ u ∈ SourceUnit.split input, d ∈ u.scan.declarations)
      ∧ ∀ body : Text, lexWarnings (tokenize body) = [] →
          ∀ f ∈ Field.split body, f.StandsIn body := by
  constructor
  · intro input
    constructor
    · intro u _ d hd
      exact SourceUnit.frames_of_mem_scan hd
    · intro d hd
      exact Catalog.exists_unit_of_mem_declarations hd
  · intro body hopen f hf
    exact Field.standsIn_of_mem_split hopen hf

/-- A declaration with braces in a regular expression and a comment. -/
def hiddenBraces : Text :=
  "const A = Schema(\x7b p: /[\x7d/]/, q: [B] // \x7d\n\x7d);".toList

theorem readings_agree_hiddenBraces :
    ∃ u ∈ SourceUnit.split hiddenBraces, ∃ d ∈ u.scan.declarations, u.Frames d
      ∧ lexWarnings (tokenize d.body) = []
      ∧ ∃ f ∈ Field.split d.body, f.name = "q" ∧ f.StandsIn d.body := by
  let u : SourceUnit := ⟨none, hiddenBraces, 0⟩
  let body : Text := " p: /[\x7d/]/, q: [B] // \x7d\n".toList
  let d : Declaration := ⟨"A", body, Span.of 6 7, 18, none⟩
  let f : Field := ⟨"q", "[B] // \x7d".toList, Span.of 12 24⟩
  have hu : u ∈ SourceUnit.split hiddenBraces := by decide +kernel
  have hd : d ∈ u.scan.declarations := by decide +kernel
  have hopen : lexWarnings (tokenize d.body) = [] := by decide +kernel
  have hf : f ∈ Field.split d.body := by decide +kernel
  refine ⟨u, hu, d, hd, ?_, hopen, f, hf, rfl, ?_⟩
  · exact (readings_agree.1 hiddenBraces).1 u hu d hd
  · exact readings_agree.2 d.body hopen f hf

end SchemaAtlas
