/-
The rendered blueprint as one source unit. No line of it is a marker
line, so the text is not taken apart; its lexemes stay apart, so the
lexer reads them as they were written; and line by line the scanner
finds the declarations first and the registrations behind them.

- `separated_lexemes`: the lexer can tell the lexemes apart.
- `split_render`: the rendered text is one unit.
- `unitScan_render`: the findings in that unit.
- `ofUnits_render`: the catalog they make up.
-/
import SchemaAtlas.Proofs.Blueprint.Scan
import SchemaAtlas.Proofs.SourceUnit

namespace SchemaAtlas

namespace Lexeme

-- ==================================================== separators

/-- A lexeme that stays apart from every other on either side. -/
def separates : Lexeme → Bool
  | word _ => false
  | blank => false
  | _ => true

theorem staysApart_of_separates {p : Lexeme} (h : p.separates = true) (q : Lexeme) :
    p.staysApart q = true ∧ q.staysApart p = true := by
  cases p with
  | word w => cases h
  | blank => cases h
  | mark m => cases q <;> exact ⟨rfl, rfl⟩
  | quoted r => cases q <;> exact ⟨rfl, rfl⟩
  | lineBreak => cases q <;> exact ⟨rfl, rfl⟩

/-- Separated lexemes stay separated with a separator between them. -/
theorem Separated.append_cons {ps qs : List Lexeme} {p : Lexeme} (hps : Separated ps)
    (hp : p.separates = true) (hqs : Separated qs) : Separated (ps ++ p :: qs) := by
  refine List.isChain_append.2 ⟨hps, List.isChain_cons.2 ⟨?_, hqs⟩, ?_⟩
  · intro q _
    exact (staysApart_of_separates hp q).1
  · intro q _ r hr
    cases hr
    exact (staysApart_of_separates hp q).2

theorem newline_not_mem_text {p : Lexeme} (h : p ≠ .lineBreak) : '\n' ∉ p.text := by
  cases p with
  | word w =>
      intro hm
      exact absurd (Word.continuesWord_of_mem hm) (by decide)
  | mark m => cases m <;> decide
  | quoted q =>
      obtain ⟨text, hq⟩ := q
      intro hm
      have hmem : '\n' ∈ text := by simpa [Lexeme.text] using hm
      exact absurd (List.all_eq_true.1 hq _ hmem) (by decide)
  | blank => decide
  | lineBreak => exact absurd rfl h

/-- Text without a line break lexeme is one line. -/
theorem newline_not_mem_spell {ps : List Lexeme} (h : .lineBreak ∉ ps) : '\n' ∉ spell ps := by
  intro hm
  obtain ⟨p, hp, hc⟩ := List.mem_flatMap.1 hm
  exact newline_not_mem_text (fun e => h (e ▸ hp)) hc

end Lexeme

namespace Lexeme

-- ==================================================== lines

/-- Lines whose lexemes are kept apart make up such a text. -/
theorem separated_unlines {ls : List (List Lexeme)} (h : ∀ l ∈ ls, Separated l) :
    Separated (unlines ls) := by
  induction ls with
  | nil => exact List.isChain_nil
  | cons l ls ih =>
      have hl := h l List.mem_cons_self
      have hls := ih fun k hk => h k (List.mem_cons_of_mem l hk)
      rw [unlines_cons]
      exact hl.append_cons rfl hls

/-- The lines of a text are those it was put together from. -/
theorem lines_unlines {ls : List (List Lexeme)} (h : ∀ l ∈ ls, .lineBreak ∉ l) :
    (spell (unlines ls)).lines = ls.map fun l => spell (l ++ [.lineBreak]) := by
  induction ls with
  | nil => rfl
  | cons l ls ih =>
      have hl := newline_not_mem_spell (h l List.mem_cons_self)
      have hls := ih fun k hk => h k (List.mem_cons_of_mem l hk)
      rw [unlines_cons, spell_append, List.map_cons, spell_append]
      show Text.lines (spell l ++ '\n' :: spell (unlines ls)) = _
      rw [Text.lines_line hl, hls]
      rfl

theorem tokensAt_unlines_cons (start : Nat) (l : List Lexeme) (ls : List (List Lexeme)) :
    tokensAt start (unlines (l :: ls)) =
      tokensAt start l ++ tokensAt (start + (spell l).width + 1) (unlines ls) := by
  rw [unlines_cons, tokensAt_append, tokensAt_lineBreak]

end Lexeme

namespace SourceUnit

/-- A line that begins with a word is no marker line. -/
theorem markerName?_word (w : Word) (ps : List Lexeme) :
    markerName? (Lexeme.spell (.word w :: ps)) = none := by
  obtain ⟨c, cs, ht, hc, -⟩ := w.text_eq_cons
  have hblank : Text.isBlank c = false :=
    Text.isBlank_of_continuesWord (Text.continuesWord_of_beginsWord hc)
  have hslash : c ≠ '/' := (Text.beginsWord_spec hc).1
  have hspell : Lexeme.spell (.word w :: ps) = c :: (cs ++ Lexeme.spell ps) := by
    rw [Lexeme.spell_cons, Lexeme.text, ht, List.cons_append]
  have htrim : Text.trimStart (c :: (cs ++ Lexeme.spell ps)) = c :: (cs ++ Lexeme.spell ps) := by
    simp [Text.trimStart, hblank]
  have hprefix : marker.isPrefixOf? (c :: (cs ++ Lexeme.spell ps)) = none := by
    show (if '/' == c then _ else none) = none
    rw [if_neg (by simpa using Ne.symm hslash)]
  rw [hspell, markerName?, htrim, hprefix]

end SourceUnit

namespace Blueprint

open Lexeme

-- ==================================================== lexemes apart

theorem separated_shape (s : Shape) : Separated (.blank :: s.lexemes ++ [.blank]) := by
  cases s with
  | plain type => simp [Shape.lexemes, Separated, staysApart]
  | reference many target =>
      cases many <;>
        simp [Shape.lexemes, bracketed, idReference, idMembers, Separated, staysApart]
  | nested many schema =>
      cases many <;> simp [Shape.lexemes, bracketed, Separated, staysApart]

theorem separated_field (f : FieldPlan) : Separated (f.lexemes ++ [.blank]) := by
  have hname : Separated [.blank, .word f.name] := by simp [Separated, staysApart]
  exact hname.append_cons rfl (separated_shape f.shape)

/-- The text between the braces of a declaration keeps its lexemes
apart. -/
theorem separated_body (s : SchemaPlan) : Separated s.body := by
  unfold SchemaPlan.body
  induction s.fields using fieldLexemes.induct with
  | case1 => simp [fieldLexemes, Separated]
  | case2 f => exact separated_field f
  | case3 f fs _ ih =>
      rw [fieldLexemes, List.append_assoc]
      · have hf : Separated f.lexemes := List.IsChain.left_of_append (separated_field f)
        exact hf.append_cons rfl ih
      · assumption

theorem separated_heading (s : SchemaPlan) : Separated (.word s.opening :: s.heading) := by
  unfold SchemaPlan.heading SchemaPlan.newLexemes SchemaPlan.pathLexemes SchemaPlan.argumentLexemes
  cases s.typeArgument <;> split <;> split <;> simp [Separated, staysApart]

theorem separated_declaration (s : SchemaPlan) : Separated s.declaration := by
  have hclose : Separated [.mark .rightParen, .mark .semicolon] := by
    simp [Separated, staysApart]
  have hbody : Separated (s.body ++ .mark .rightBrace :: [.mark .rightParen, .mark .semicolon]) :=
    (separated_body s).append_cons rfl hclose
  unfold SchemaPlan.declaration
  rw [List.append_assoc]
  exact (separated_heading s).append_cons rfl hbody

theorem separated_registration {s : SchemaPlan} {l : List Lexeme} (h : s.registration? = some l) :
    Separated l := by
  obtain ⟨m, -, rfl⟩ := Option.map_eq_some_iff.1 h
  simp [Separated, staysApart]

/-- A line declares a schema or registers one. -/
theorem mem_sourceLines {b : List SchemaPlan} {l : List Lexeme} (h : l ∈ sourceLines b) :
    (∃ s : SchemaPlan, l = s.declaration) ∨ ∃ s : SchemaPlan, s.registration? = some l := by
  rcases List.mem_append.1 h with h | h
  · obtain ⟨s, -, rfl⟩ := List.mem_map.1 h
    exact Or.inl ⟨s, rfl⟩
  · obtain ⟨s, -, hs⟩ := List.mem_filterMap.1 h
    exact Or.inr ⟨s, hs⟩

/-- The lexer can tell the lexemes of a rendered blueprint apart. -/
theorem separated_lexemes (b : List SchemaPlan) : Separated (lexemes b) := by
  refine separated_unlines fun l hl => ?_
  rcases mem_sourceLines hl with ⟨s, rfl⟩ | ⟨s, hs⟩
  · exact separated_declaration s
  · exact separated_registration hs

-- ==================================================== one unit

theorem lineBreak_not_mem_shape (s : Shape) : .lineBreak ∉ s.lexemes := by
  cases s with
  | plain type => simp [Shape.lexemes]
  | reference many target =>
      cases many <;> simp [Shape.lexemes, bracketed, idReference, idMembers]
  | nested many schema => cases many <;> simp [Shape.lexemes, bracketed]

theorem lineBreak_not_mem_fields (fs : List FieldPlan) : .lineBreak ∉ fieldLexemes fs := by
  induction fs using fieldLexemes.induct with
  | case1 => simp [fieldLexemes]
  | case2 f => simp [fieldLexemes, FieldPlan.lexemes, lineBreak_not_mem_shape]
  | case3 f fs _ ih =>
      rw [fieldLexemes]
      · simp [FieldPlan.lexemes, lineBreak_not_mem_shape, ih]
      · assumption

theorem lineBreak_not_mem_heading (s : SchemaPlan) : .lineBreak ∉ s.heading := by
  unfold SchemaPlan.heading SchemaPlan.newLexemes SchemaPlan.pathLexemes SchemaPlan.argumentLexemes
  cases s.typeArgument <;> split <;> split <;> simp

/-- A line is a single line and begins with a word. -/
theorem line_spec {b : List SchemaPlan} {l : List Lexeme} (hl : l ∈ sourceLines b) :
    .lineBreak ∉ l ∧ ∃ w ps, l = .word w :: ps := by
  rcases mem_sourceLines hl with ⟨s, rfl⟩ | ⟨s, hs⟩
  · refine ⟨?_, _, _, rfl⟩
    simp [SchemaPlan.declaration, SchemaPlan.body, lineBreak_not_mem_heading,
      lineBreak_not_mem_fields]
  · obtain ⟨m, -, rfl⟩ := Option.map_eq_some_iff.1 hs
    exact ⟨by simp, _, _, rfl⟩

/-- A text that begins with a word is not blank. -/
theorem isAllBlank_word (w : Word) (ps : List Lexeme) :
    (spell (.word w :: ps)).isAllBlank = false := by
  obtain ⟨c, cs, ht, hc, -⟩ := w.text_eq_cons
  have hblank : Text.isBlank c = false :=
    Text.isBlank_of_continuesWord (Text.continuesWord_of_beginsWord hc)
  rw [spell_cons, Lexeme.text, ht, List.cons_append, Text.isAllBlank, List.all_cons, hblank]
  rfl

/-- A rendered blueprint is one unit without a name, or no unit at all
when it is empty. -/
theorem split_render (b : List SchemaPlan) :
    SourceUnit.split (render b) = if b = [] then [] else [⟨none, render b, 0⟩] := by
  have hunmarked : ∀ l ∈ (render b).lines, SourceUnit.markerName? l = none := by
    intro l hl
    rw [render, lexemes, lines_unlines fun l hl => (line_spec hl).1] at hl
    obtain ⟨k, hk, rfl⟩ := List.mem_map.1 hl
    obtain ⟨-, w, ps, rfl⟩ := line_spec hk
    exact SourceUnit.markerName?_word w (ps ++ [.lineBreak])
  rw [SourceUnit.split_unmarked hunmarked]
  cases b with
  | nil => rfl
  | cons s b =>
      have hblank : (render (s :: b)).isAllBlank = false := isAllBlank_word s.opening _
      simp [SourceUnit.isKept, hblank]

-- ==================================================== findings

section

variable (unit : Option String) (before rest : List PlacedToken)

/-- The lines of the declarations yield one declaration for every
schema. -/
theorem all_declarations {text u v : Text} (b : List SchemaPlan)
    (htext : text = u ++ spell (unlines (b.map SchemaPlan.declaration)) ++ v) :
    ∃ ds before', List.Forall₂ SchemaPlan.IsDeclaredBy b ds ∧
      Finding.all (.alone unit text) before
          (tokensAt u.width (unlines (b.map SchemaPlan.declaration)) ++ rest) =
        ds.map .declaration ++ Finding.all (.alone unit text) before' rest := by
  induction b generalizing u before with
  | nil => exact ⟨[], before, .nil, rfl⟩
  | cons s b ih =>
      let ps := unlines (b.map SchemaPlan.declaration)
      -- for the later lines the first one belongs to the text in front
      let u' := u ++ spell s.declaration ++ ['\n']
      have hwidth : u.width + (spell s.declaration).width + 1 = u'.width := by
        simp [u', Char.utf8Size, Nat.add_assoc]
      have hline : text = u ++ spell s.declaration ++ '\n' :: (spell ps ++ v) := by
        simp [htext, ps, Lexeme.text]
      obtain ⟨d, hd, hfirst⟩ := all_declaration u ('\n' :: (spell ps ++ v)) unit before
        (tokensAt u'.width ps ++ rest) s
      obtain ⟨ds, before', hds, hlater⟩ :=
        ih ((tokensAt u.width s.declaration).reverse ++ before) (u := u') (by simp [hline, u', ps])
      refine ⟨d :: ds, before', .cons hd hds, ?_⟩
      rw [← hline] at hfirst
      rw [List.map_cons, tokensAt_unlines_cons, hwidth, List.append_assoc, hfirst, hlater]
      rfl

/-- The lines of the registrations yield one registration for every
schema that has a model. -/
theorem all_registrations (text : Text) (start : Nat) (b : List SchemaPlan) :
    ∃ rs before', List.Forall₂ SchemaPlan.IsRegisteredBy (b.filter fun s => s.model.isSome) rs ∧
      Finding.all (.alone unit text) before
          (tokensAt start (unlines (b.filterMap SchemaPlan.registration?)) ++ rest) =
        rs.map .registration ++ Finding.all (.alone unit text) before' rest := by
  induction b generalizing start before with
  | nil => exact ⟨[], before, .nil, rfl⟩
  | cons s b ih =>
      have hmodel : s.registration?.isSome = s.model.isSome := Option.isSome_map
      cases hl : s.registration? with
      | none =>
          rw [hl] at hmodel
          obtain ⟨rs, before', hrs, hlater⟩ := ih before start
          refine ⟨rs, before', ?_, ?_⟩
          · rwa [List.filter_cons, ← hmodel]
          · rwa [List.filterMap_cons_none hl]
      | some l =>
          rw [hl] at hmodel
          let ls := b.filterMap SchemaPlan.registration?
          obtain ⟨r, hr, hfirst⟩ := all_registration unit before
            (tokensAt (start + (spell l).width + 1) (unlines ls) ++ rest) s hl text start
          obtain ⟨rs, before', hrs, hlater⟩ :=
            ih ((tokensAt start l).reverse ++ before) (start + (spell l).width + 1)
          refine ⟨r :: rs, before', ?_, ?_⟩
          · rw [List.filter_cons, ← hmodel, Option.isSome_some, if_pos rfl]
            exact .cons hr hrs
          · rw [List.filterMap_cons_some hl, tokensAt_unlines_cons, List.append_assoc, hfirst,
              hlater]
            rfl

end

/-- The scan of a rendered blueprint finds a declaration for every
schema, a registration for every model, and nothing to warn of. -/
theorem unitScan_render (b : List SchemaPlan) :
    ∃ ds rs, List.Forall₂ SchemaPlan.IsDeclaredBy b ds
      ∧ List.Forall₂ SchemaPlan.IsRegisteredBy (b.filter fun s => s.model.isSome) rs
      ∧ UnitScan.of none (render b) = ⟨ds, rs, []⟩ := by
  let ps := unlines (b.map SchemaPlan.declaration)
  let qs := unlines (b.filterMap SchemaPlan.registration?)
  have hlexemes : lexemes b = ps ++ qs := unlines_append _ _
  have htext : render b = [] ++ spell ps ++ spell qs := by
    rw [render, hlexemes, spell_append, List.nil_append]
  have htokens : tokenize (render b) = place 0 (lexemes b) := tokenize_spell (separated_lexemes b)
  have hsignificant : significant (tokenize (render b)) =
      tokensAt 0 ps ++ (tokensAt (spell ps).width qs ++ []) := by
    rw [htokens, List.append_nil]
    show tokensAt 0 (lexemes b) = _
    rw [hlexemes, tokensAt_append, Nat.zero_add]
  obtain ⟨ds, before, hds, hfirst⟩ :=
    all_declarations none [] (tokensAt (spell ps).width qs ++ []) b htext
  obtain ⟨rs, before', hrs, hlater⟩ :=
    all_registrations none before [] (render b) (spell ps).width b
  have hall : Finding.all (.alone none (render b)) [] (significant (tokenize (render b))) =
      ds.map .declaration ++ rs.map .registration := by
    rw [hsignificant]
    refine hfirst.trans ?_
    rw [hlater, ← List.append_assoc]
    exact List.append_nil _
  refine ⟨ds, rs, hds, hrs, ?_⟩
  have hwarnings : lexWarnings (tokenize (render b)) = [] := by
    rw [htokens, lexWarnings_place]
  simp [UnitScan.of, SourceUnit.scan, Finding.declaration?, Finding.registration?,
    Finding.warning?, Function.comp_def, hall, hwarnings]

/-- The catalog of a rendered blueprint holds the findings of its one
unit. -/
theorem ofUnits_render (b : List SchemaPlan) :
    ∃ ds rs, List.Forall₂ SchemaPlan.IsDeclaredBy b ds
      ∧ List.Forall₂ SchemaPlan.IsRegisteredBy (b.filter fun s => s.model.isSome) rs
      ∧ Catalog.ofUnits (SourceUnit.split (render b)) = Catalog.empty.add ⟨ds, rs, []⟩ := by
  obtain ⟨ds, rs, hds, hrs, hscan⟩ := unitScan_render b
  refine ⟨ds, rs, hds, hrs, ?_⟩
  rw [split_render]
  cases b with
  | nil =>
      cases hds
      cases hrs
      rfl
  | cons s b =>
      rw [if_neg (List.cons_ne_nil s b)]
      exact congrArg Catalog.empty.add hscan

end Blueprint

end SchemaAtlas
