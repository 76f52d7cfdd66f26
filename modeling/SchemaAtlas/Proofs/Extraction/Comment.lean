/-
Comments and the graph. With a comment written over, a text has the same
declarations and registrations, but that a body with the comment in it
has it written over as well; and the fields of that body are the same
unless the comment stands in a key. So a graph shows nothing of comments
between entries and inside definitions.

Two places let a comment through. The name of a field is the text up to
its colon, less the comments in front of it only. And a literal that is
tried as a regular expression and found open is read again as other
tokens: what was an escaped slash can then open a comment, whose brackets
were already counted.

- `Declaration.Blanked`: a declaration with the comment written over.
- `Catalog.agrees_blankOut`: what references ask the catalog.
- `Assembly.graph_of_blanked`: the graph of such declarations.
- `CommentsIgnored`: that no comment counts, which two texts refute.
- `extract_blankOut`: comments that do not count.
-/
import SchemaAtlas.Proofs.Catalog.Merge
import SchemaAtlas.Proofs.Catalog.Relocation
import SchemaAtlas.Proofs.Extraction.Assembly
import SchemaAtlas.Proofs.Field.Comment

namespace SchemaAtlas

-- ==================================================== declarations

/-- The declaration `d'` is the declaration `d` with the comment at the
span written over, if its body holds the comment. -/
def Declaration.Blanked (c : Span) (d d' : Declaration) : Prop :=
  d'.name = d.name ∧ (d'.body = d.body ∨ ∃ y : PlacedToken, y.IsErasable d.body
    ∧ y.span.shift d.bodyStart = c ∧ d'.body = d.body.blankOut y.span)

section

open Text

variable {t : Text} {x : PlacedToken} (hx : x.IsErasable t)
include hx

/-- A comment between the braces of a body is one of the body. -/
theorem PlacedToken.IsErasable.within {us vs ws : List PlacedToken} {opening closing : PlacedToken}
    (htokens : tokenize t = us ++ opening :: (vs ++ closing :: ws))
    (hopening : opening.token = .mark .leftBrace) (hmem : x ∈ vs) :
    ∃ y : PlacedToken, y.IsErasable (t.slice opening.span.stop closing.span.start)
      ∧ y.span.shift opening.span.stop = x.span
      ∧ (t.blankOut x.span).slice (t.blankedPlace x.span opening.span.stop)
          (t.blankedPlace x.span closing.span.start) =
        (t.slice opening.span.stop closing.span.start).blankOut y.span := by
  obtain ⟨p, q, r, rfl, hp, hq, hr⟩ := tokensFrom_between htokens
  simp only [Nat.zero_add, startOf, hopening] at hp hq hr
  have hvs : vs = (tokenize q).map (·.shift (width p)) := by
    rw [tokenize, ← tokensFrom_shift, Nat.zero_add]
    exact hq.symm
  rw [hvs] at hmem
  obtain ⟨y, hy, rfl⟩ := List.mem_map.1 hmem
  have hyErasable : y.IsErasable q := hx.of_shift hy
  rw [hp, hr, slice_append]
  exact ⟨y, hyErasable, rfl, slice_blankOut_within hyErasable p r⟩

/-- A comment stands in front of a pair of braces, between them or behind
them. -/
theorem PlacedToken.IsErasable.mem_between {us vs ws : List PlacedToken}
    {opening closing : PlacedToken}
    (htokens : tokenize t = us ++ opening :: (vs ++ closing :: ws))
    (hopening : opening.token = .mark .leftBrace) (hclosing : closing.token = .mark .rightBrace) :
    x.span.stop ≤ opening.span.start ∨ x ∈ vs ∨ closing.span.stop ≤ x.span.start := by
  have htrivia := Token.isTrivia_of_isWholeComment hx.whole
  have hmem := hx.mem
  rw [htokens] at hmem
  rcases List.mem_append.1 hmem with hmem | hmem
  · exact Or.inl (stop_le_startOf htokens hmem)
  rcases List.mem_cons.1 hmem with rfl | hmem
  · rw [hopening] at htrivia
    cases htrivia
  rcases List.mem_append.1 hmem with hmem | hmem
  · exact Or.inr (Or.inl hmem)
  rcases List.mem_cons.1 hmem with rfl | hmem
  · rw [hclosing] at htrivia
    cases htrivia
  · have hpairs := pairwise_tokensFrom true 0 t
    rw [show tokensFrom true 0 t = (us ++ opening :: vs) ++ closing :: ws by
      rw [List.append_assoc]; exact htokens] at hpairs
    exact Or.inr (Or.inr ((List.pairwise_cons.1 (List.pairwise_append.1 hpairs).2.1).1 x hmem))

/-- A body with a comment in it has the comment written over, any other
is the same. -/
theorem Declaration.Follows.blanked {d d' : Declaration}
    (h : d.Follows t (t.blankOut x.span) (t.blankedPlace x.span) d') : d.Blanked x.span d' := by
  obtain ⟨hname, before, opening, inside, closing, after, hsignificant, hopening, hclosing,
    hstart, hbody, hbody'⟩ := h
  obtain ⟨us, rest, htokens, -, hbehind⟩ := eq_append_cons_of_significant hsignificant
  obtain ⟨vs, ws, rfl, -, -⟩ := eq_append_cons_of_significant hbehind
  have hle : opening.span.stop ≤ closing.span.start := by
    have hsplit : tokenize t = (us ++ opening :: vs) ++ closing :: ws := by
      rw [htokens, List.append_assoc]
      rfl
    exact stop_le_startOf hsplit (List.mem_append_right us List.mem_cons_self)
  refine ⟨hname, ?_⟩
  rw [hbody', hbody, hstart]
  rcases hx.mem_between htokens hopening hclosing with hfront | hmem | hbehind
  · have hopened := opening.span.start_le_stop
    exact Or.inl (slice_blankOut_behind hx (Nat.le_trans hfront hopened) hle)
  · exact Or.inr (hx.within htokens hopening hmem)
  · have hclosed := closing.span.start_le_stop
    exact Or.inl (slice_blankOut_front hx hle (Nat.le_trans hclosed hbehind))

end

-- ==================================================== catalogs

namespace Catalog

section

variable {input : Text} {x : PlacedToken} (hx : x.IsErasable input)
  (hmarkers : ∀ l ∈ input.lines, SourceUnit.markerName? l = none)
  (hmarkers' : ∀ l ∈ (input.blankOut x.span).lines, SourceUnit.markerName? l = none)
include hx hmarkers hmarkers'

/-- The declarations that the catalog keeps. -/
theorem declarations_blankOut :
    OrderedMap.Matches (Declaration.Blanked x.span) (scan input).declarations
      (scan (input.blankOut x.span)).declarations := by
  have hfollow := UnitScan.declarations_follow (input.blankedPlace_mono x.span)
    hx.significant_blankOut none
  rw [declarations_scan, declarations_scan, found_unmarked hmarkers, found_unmarked hmarkers']
  refine OrderedMap.Matches.foldl_insert List.Forall₂.nil ?_
  exact hfollow.imp fun d d' hd => ⟨hd.1, hd.blanked hx⟩

/-- The registrations that the catalog keeps. -/
theorem registrations_blankOut :
    OrderedMap.Matches (fun r r' : Registration => r'.displayName = r.displayName)
      (scan input).registrations (scan (input.blankOut x.span)).registrations := by
  have hfollow := UnitScan.registrations_follow (input.blankedPlace_mono x.span)
    hx.significant_blankOut none
  rw [registrations_scan, registrations_scan, registered_unmarked hmarkers,
    registered_unmarked hmarkers']
  exact OrderedMap.Matches.foldl_insert List.Forall₂.nil hfollow

/-- References and display names are looked up alike. -/
theorem agrees_blankOut : (scan (input.blankOut x.span)).Agrees (scan input) := by
  constructor
  · intro name
    rw [declares, declares, OrderedMap.contains, OrderedMap.contains,
      (declarations_blankOut hx hmarkers hmarkers').keys_eq]
  · intro name
    have hget := (registrations_blankOut hx hmarkers hmarkers').get? name
    rw [displayName_eq_getD, displayName_eq_getD]
    congr 1
    generalize (scan input).registrations.get? name = r at hget
    generalize (scan (input.blankOut x.span)).registrations.get? name = r' at hget
    cases hget with
    | none => rfl
    | some hname => exact congrArg some hname

end

end Catalog

-- ==================================================== graphs

namespace Assembly

section

variable {c c' : Catalog} (h : c'.Agrees c) {s : Span} {d d' : Declaration}
  (hd : d.Blanked s d')

include h hd in
theorem idOf_blanked : idOf c' d' = idOf c d := by
  rw [idOf, hd.1, h.displayName_eq]
  rfl

variable (hkeys : ∀ k ∈ Field.keys d.body, ¬(k.shift d.bodyStart).Covers s)
include hd hkeys

/-- Unless the comment stands in a key, the fields of a declaration are
the same. -/
theorem fields_blanked :
    List.Forall₂ Field.SameAs (Field.split d.body) (Field.split d'.body) := by
  obtain ⟨-, hbody | ⟨y, hy, rfl, hbody⟩⟩ := hd
  · rw [hbody, List.forall₂_same]
    exact fun f _ => ⟨rfl, fun _ _ => rfl⟩
  · rw [hbody]
    refine Field.split_blankOut hy ?_
    rintro k hk ⟨hstart, hstop⟩
    apply hkeys k hk
    constructor
    · exact Nat.add_le_add_right hstart d.bodyStart
    · rw [Span.stop_shift, Span.stop_shift]
      exact Nat.add_le_add_right hstop d.bodyStart

include h

theorem nodeOf_blanked : nodeOf c' d' = nodeOf c d := by
  rw [nodeOf, nodeOf, idOf_blanked h hd, hd.1,
    Field.map_name_of_same (fields_blanked hd hkeys)]

theorem relationshipsOf_blanked : relationshipsOf c' d' = relationshipsOf c d := by
  have hcatalog : ∀ f : Field, f.relationship? (idOf c d) c' = f.relationship? (idOf c d) c := by
    intro f
    unfold Field.relationship?
    rw [Reference.read?_congr h]
  rw [relationshipsOf, relationshipsOf, idOf_blanked h hd,
    Field.relationships_of_same (fields_blanked hd hkeys)]
  simp only [hcatalog]

end

/-- Catalogs of the same declarations with the comment written over, not
in a key, are assembled to the same graph. -/
theorem graph_of_blanked {c c' : Catalog} (h : c'.Agrees c) {s : Span}
    (hdeclarations : OrderedMap.Matches (Declaration.Blanked s) c.declarations c'.declarations)
    (hkeys : ∀ d ∈ c.declarations.values, ∀ k ∈ Field.keys d.body,
      ¬(k.shift d.bodyStart).Covers s) :
    (of c').graph = (of c).graph := by
  have hpairs := (List.forall₂_and_left _ _).2 ⟨hkeys, hdeclarations.values⟩
  have hschemas : OrderedMap.Matches (fun e e' : SchemaNode × Span => e'.1 = e.1)
      (of c).schemas (of c').schemas := by
    rw [schemas_of, schemas_of]
    refine OrderedMap.Matches.foldl_insert List.Forall₂.nil (hpairs.imp ?_)
    rintro d d' ⟨hkeys, hd⟩
    exact ⟨idOf_blanked h hd, nodeOf_blanked h hd hkeys⟩
  have hnodes : (of c').schemas.values.map Prod.fst = (of c).schemas.values.map Prod.fst := by
    refine List.forall₂_eq_eq_eq ▸ ?_
    rw [List.forall₂_map_left_iff, List.forall₂_map_right_iff]
    exact hschemas.values.flip
  have hrelationships : (of c').relationships = (of c).relationships := by
    rw [relationships_of, relationships_of, List.flatMap_def, List.flatMap_def]
    congr 1
    refine List.forall₂_eq_eq_eq ▸ ?_
    rw [List.forall₂_map_left_iff, List.forall₂_map_right_iff]
    refine (hpairs.imp ?_).flip
    rintro d d' ⟨hkeys, hd⟩
    exact relationshipsOf_blanked h hd hkeys
  rw [graph, graph, hnodes, hrelationships]

end Assembly

-- ==================================================== all texts

/-- Whichever comment of the text is written over, the graph stays the
same, as long as no line marks the start of a unit. -/
def CommentsIgnored (input : Text) : Prop :=
  ∀ x ∈ tokenize input, x.token.isWholeComment = true →
    (∀ l ∈ input.lines, SourceUnit.markerName? l = none) →
    (∀ l ∈ (input.blankOut x.span).lines, SourceUnit.markerName? l = none) →
    (extract (input.blankOut x.span)).graph = (extract input).graph

/-- A comment between the key of a field and the colon. -/
def keyComment : Text :=
  "const A = Schema(\x7b a/*x*/: N \x7d);\n".toList

/-- A comment whose slash is escaped as long as a regular expression is
tried, and whose bracket keeps that one open. -/
def escapedBracket : Text :=
  "const A = Schema(\x7b \x7d);\nb = / c \\/* [ */ model('M', A) / d".toList

/-- The first field is named `a` only without the comment, and only with
the comment is the second schema registered. -/
theorem not_commentsIgnored : ¬CommentsIgnored keyComment ∧ ¬CommentsIgnored escapedBracket := by
  constructor
  · intro h
    have hgraph := h ⟨.blockComment true, Span.of 20 25⟩ (by decide +kernel) rfl
      (by decide +kernel) (by decide +kernel)
    revert hgraph
    decide +kernel
  · intro h
    have hgraph := h ⟨.blockComment true, Span.of 32 39⟩ (by decide +kernel) rfl
      (by decide +kernel) (by decide +kernel)
    revert hgraph
    decide +kernel

/-- A comment that stands in no key, and holds no bracket if it stands
directly behind a backslash, makes no difference to the graph. -/
theorem extract_blankOut {input : Text} {x : PlacedToken} (hx : x.IsErasable input)
    (hkeys : ∀ d ∈ (Catalog.scan input).declarations.values, ∀ k ∈ Field.keys d.body,
      ¬(k.shift d.bodyStart).Covers x.span)
    (hmarkers : ∀ l ∈ input.lines, SourceUnit.markerName? l = none)
    (hmarkers' : ∀ l ∈ (input.blankOut x.span).lines, SourceUnit.markerName? l = none) :
    (extract (input.blankOut x.span)).graph = (extract input).graph :=
  Assembly.graph_of_blanked (Catalog.agrees_blankOut hx hmarkers hmarkers')
    (Catalog.declarations_blankOut hx hmarkers hmarkers') hkeys

/-- A schema with a comment inside a definition, and marks in the
comment. -/
def markedDefinition : Text :=
  "const A = Schema(\x7b a: /* b: B, \x7d */ B \x7d);\nconst B = Schema(\x7b \x7d);\n".toList

/-- The comment of that schema. -/
def markedComment : PlacedToken :=
  ⟨.blockComment true, Span.of 22 35⟩

theorem extract_blankOut_markedComment :
    (extract markedDefinition).graph.relationships = [.embedded "A" "B" "a" false]
      ∧ (extract (markedDefinition.blankOut markedComment.span)).graph =
        (extract markedDefinition).graph := by
  have hx : markedComment.IsErasable markedDefinition :=
    ⟨by decide +kernel, rfl, by decide +kernel⟩
  refine ⟨by decide +kernel, ?_⟩
  exact extract_blankOut hx (by decide +kernel) (by decide +kernel) (by decide +kernel)

end SchemaAtlas
