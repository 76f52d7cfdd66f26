/-
Positions point at what they name. What a unit's scan finds stands in
the unit's text where it says, hence in the input as much further on as
the unit; the catalog and the assembly only compare spans of what was
found. So every label of a diagnostic marks the text it is about,
between characters of the input.

- `UnitScan.isPlaced`, `IsPlaced.shift`: the findings of a unit.
- `Warning.Points`: what the labels of a warning mark.
- `Catalog.Sound`: what scanning keeps, unit by unit.
- `Field.slices_isCut`: slices taken of a body.
- `Positioned`, `positions_spec`: all of this, for every text.
-/
import SchemaAtlas.Proofs.Catalog.Agreement
import SchemaAtlas.Proofs.Catalog.Merge
import SchemaAtlas.Proofs.Catalog.Place
import SchemaAtlas.Proofs.Extraction.Collision

namespace SchemaAtlas

-- ==================================================== units

namespace UnitScan

theorem isPlaced_of_mem_lexWarnings {t : Text} {w : Warning} (h : w ∈ lexWarnings (tokenize t)) :
    w.IsPlaced t := by
  obtain ⟨x, hx, hw⟩ := List.mem_filterMap.1 h
  unfold PlacedToken.warning? at hw
  split at hw
  · next content quote hstring =>
      cases hw
      obtain ⟨l, hmarks, hspelled⟩ := exists_marks hx
      rw [hstring] at hspelled
      obtain rfl : l = quote :: content.toList ++ [] := hspelled
      rw [List.append_nil] at hmarks
      exact ⟨x, hx, content, hstring, rfl, hmarks⟩
  · next hcomment =>
      cases hw
      obtain ⟨p, l, r, rfl, hspan, hspelled, hopen⟩ := exists_spelling hx
      rw [hcomment] at hspelled
      obtain ⟨s, rfl⟩ := hspelled
      obtain rfl := hopen hcomment
      rw [Warning.IsPlaced, hspan, Nat.zero_add, Span.stop_of]
      refine ⟨?_, s, p, [], rfl, rfl, ?_⟩
      · simp only [Text.width_append, Text.width_nil]
        omega
      · rw [Span.stop_of]
        omega
  · cases hw

/-- Everything found in a text stands where it says. -/
theorem isPlaced (unit : Option String) (t : Text) :
    (∀ d ∈ (of unit t).declarations, d.IsPlaced t)
      ∧ (∀ r ∈ (of unit t).registrations, r.IsPlaced t)
      ∧ ∀ w ∈ (of unit t).warnings, w.IsPlaced t := by
  refine ⟨?_, ?_, ?_⟩
  · intro d hd
    obtain ⟨f, hf, heq⟩ := List.mem_filterMap.1 hd
    cases f with
    | declaration e => cases heq; exact Finding.isPlaced_of_mem hf
    | registration r => cases heq
    | warning w => cases heq
  · intro r hr
    obtain ⟨f, hf, heq⟩ := List.mem_filterMap.1 hr
    cases f with
    | declaration e => cases heq
    | registration s => cases heq; exact Finding.isPlaced_of_mem hf
    | warning w => cases heq
  · intro w hw
    rw [warnings_of] at hw
    rcases List.mem_append.1 hw with hw | hw
    · exact isPlaced_of_mem_lexWarnings hw
    · obtain ⟨f, hf, heq⟩ := List.mem_filterMap.1 hw
      cases f with
      | declaration e => cases heq
      | registration s => cases heq
      | warning v => cases heq; exact Finding.isPlaced_of_mem hf

end UnitScan

theorem Declaration.IsPlaced.shift {t : Text} {d : Declaration} (h : d.IsPlaced t) (p r : Text) :
    (d.shift (Text.width p)).IsPlaced (p ++ t ++ r) where
  name_marked := h.name_marked.shift p r
  body_braced := by
    obtain ⟨p', r', rfl, hstart⟩ := h.body_braced
    refine ⟨p ++ p', r' ++ r, by simp [Declaration.shift], ?_⟩
    show d.bodyStart + Text.width p = _
    rw [hstart, Text.width_append]
    omega

theorem Registration.IsPlaced.shift {t : Text} {r : Registration} (h : r.IsPlaced t)
    (p q : Text) : (r.shift (Text.width p)).IsPlaced (p ++ t ++ q) := by
  obtain ⟨m, hm⟩ := h
  exact ⟨m, hm.shift p q⟩

-- ==================================================== warnings

namespace Catalog

/-- The span is that of the identifier of a declaration found. -/
def Names (input : Text) (name : String) (s : Span) : Prop :=
  ∃ d ∈ found input, d.name = name ∧ d.span = s

end Catalog

namespace Warning

open Catalog

/-- What the spans of a warning mark in the input: an open literal from
its quote, an open comment to the end of its unit, the brace and the
identifier of an open body, a registration from the word `model`, up to
the identifier of the schema if it has one, and the identifiers of two
declarations found. -/
def Points (input : Text) : Warning → Prop
  | .openString literal quote =>
      ∃ u ∈ SourceUnit.split input, ∃ x ∈ tokenize u.text, ∃ content : String,
        x.token = .string content quote false ∧ literal = x.span.shift u.start
          ∧ literal.Marks input (quote :: content.toList)
  | .openComment comment =>
      ∃ u ∈ SourceUnit.split input, u.start ≤ comment.start
        ∧ comment.stop = u.start + u.text.width ∧ ∃ r, comment.Marks input ('/' :: '*' :: r)
  | .openBody name brace declared => brace.Marks input ['{'] ∧ declared.Marks input name.toList
  | .malformedRegistration _ call => ∃ m, call.Marks input ("model".toList ++ m)
  | .unknownSchema _ schema registration =>
      ∃ m, registration.Marks input ("model".toList ++ m ++ schema.toList)
  | .redeclared name declaration earlier =>
      Names input name declaration ∧ Names input name earlier
  | .sharedDisplayName earlierName name _ declaration earlier =>
      Names input name declaration ∧ Names input earlierName earlier

/-- The places that the labels of a warning are put at, and whether the
label there is the primary one. -/
def places : Warning → List (Bool × Span)
  | .openString literal _ => [(true, literal)]
  | .openComment comment => [(true, comment)]
  | .openBody _ brace declared => [(true, brace), (false, declared)]
  | .malformedRegistration _ call => [(true, call)]
  | .unknownSchema _ _ registration => [(true, registration)]
  | .redeclared _ declaration earlier => [(true, declaration), (false, earlier)]
  | .sharedDisplayName _ _ _ declaration earlier => [(true, declaration), (false, earlier)]

theorem labels_diagnostic (w : Warning) :
    w.diagnostic.labels.map (fun l => (l.isPrimary, l.span)) = w.places := by
  cases w <;> rfl

theorem points_of_isPlaced {input : Text} {u : SourceUnit} (hu : u ∈ SourceUnit.split input)
    {w : Warning} (h : w.IsPlaced u.text) : (w.shift u.start).Points input := by
  obtain ⟨p, r, hinput, hstart⟩ := SourceUnit.exists_place hu
  have hmarks : ∀ {s : Span} {q : Text}, s.Marks u.text q → (s.shift u.start).Marks input q := by
    intro s q hs
    rw [hinput, hstart]
    exact hs.shift p r
  cases w with
  | openString literal quote =>
      obtain ⟨x, hx, content, htoken, rfl, hliteral⟩ := h
      exact ⟨u, hu, x, hx, content, htoken, rfl, hmarks hliteral⟩
  | openComment comment =>
      obtain ⟨hstop, s, hs⟩ := h
      refine ⟨u, hu, Nat.le_add_left _ _, ?_, s, hmarks hs⟩
      rw [Span.stop_shift, hstop, Nat.add_comm]
  | openBody name brace declared => exact ⟨hmarks h.1, hmarks h.2⟩
  | malformedRegistration model call =>
      obtain ⟨m, hm⟩ := h
      exact ⟨m, hmarks hm⟩
  | unknownSchema => exact h.elim
  | redeclared => exact h.elim
  | sharedDisplayName => exact h.elim

end Warning

namespace Catalog

variable {input : Text}

theorem isPlaced_of_mem_found {d : Declaration} (h : d ∈ found input) : d.IsPlaced input := by
  obtain ⟨u, hu, hd⟩ := List.mem_flatMap.1 h
  obtain ⟨p, r, hinput, hstart⟩ := SourceUnit.exists_place hu
  rw [SourceUnit.declarations_scan] at hd
  obtain ⟨d', hd', rfl⟩ := List.mem_map.1 hd
  rw [hinput, hstart]
  exact ((UnitScan.isPlaced u.name u.text).1 d' hd').shift p r

theorem isPlaced_of_mem_registered {r : Registration} (h : r ∈ registered input) :
    r.IsPlaced input := by
  obtain ⟨u, hu, hr⟩ := List.mem_flatMap.1 h
  obtain ⟨p, q, hinput, hstart⟩ := SourceUnit.exists_place hu
  rw [SourceUnit.registrations_scan] at hr
  obtain ⟨r', hr', rfl⟩ := List.mem_map.1 hr
  rw [hinput, hstart]
  exact ((UnitScan.isPlaced u.name u.text).2.1 r' hr').shift p q

theorem Names.marks {name : String} {s : Span} (h : Names input name s) :
    s.Marks input name.toList := by
  obtain ⟨d, hd, rfl, rfl⟩ := h
  exact (isPlaced_of_mem_found hd).name_marked

-- ==================================================== catalogs

/-- The catalog holds what was found in the input, and its warnings
point at what they are about. -/
structure Sound (input : Text) (c : Catalog) : Prop where
  found_of_declared : ∀ e ∈ c.declarations.entries, e.2 ∈ found input ∧ e.2.name = e.1
  registered_of_entry : ∀ e ∈ c.registrations.entries, e.2 ∈ registered input
  points : ∀ w ∈ c.warnings, w.Points input

namespace Sound

variable {c : Catalog} (h : c.Sound input)
include h

theorem declare {d : Declaration} (hd : d ∈ found input) : (c.declare d).Sound input where
  found_of_declared := by
    rw [declarations_declare]
    intro e he
    rcases OrderedMap.mem_put he with rfl | he
    · exact ⟨hd, rfl⟩
    · exact h.found_of_declared e he
  registered_of_entry := by
    rw [registrations_declare]
    exact h.registered_of_entry
  points := by
    unfold Catalog.declare
    cases hget : c.declarations.get? d.name with
    | none => exact h.points
    | some earlier =>
        obtain ⟨hfound, hname⟩ := h.found_of_declared _ (OrderedMap.get?_eq_some_iff.1 hget)
        apply List.forall_mem_append.2 ⟨h.points, ?_⟩
        intro w hw
        rw [List.mem_singleton.1 hw]
        exact ⟨⟨d, hd, rfl, rfl⟩, ⟨earlier, hfound, hname, rfl⟩⟩

theorem register {r : Registration} (hr : r ∈ registered input) :
    (c.register r).Sound input where
  found_of_declared := h.found_of_declared
  registered_of_entry := by
    intro e he
    rcases OrderedMap.mem_put he with rfl | he
    · exact hr
    · exact h.registered_of_entry e he
  points := h.points

theorem add {u : SourceUnit} (hu : u ∈ SourceUnit.split input) : (c.add u.scan).Sound input := by
  let warned : Catalog := { c with warnings := c.warnings ++ u.scan.warnings }
  have hwarned : warned.Sound input := by
    refine ⟨h.found_of_declared, h.registered_of_entry, List.forall_mem_append.2 ⟨h.points, ?_⟩⟩
    intro w hw
    rw [u.warnings_scan] at hw
    obtain ⟨w', hw', rfl⟩ := List.mem_map.1 hw
    exact Warning.points_of_isPlaced hu ((UnitScan.isPlaced u.name u.text).2.2 w' hw')
  have hdeclared : (u.scan.declarations.foldl Catalog.declare warned).Sound input :=
    List.foldlRecOn (motive := Sound input) u.scan.declarations Catalog.declare hwarned
      fun _ hc _ hd => hc.declare (List.mem_flatMap.2 ⟨u, hu, hd⟩)
  rw [add_eq]
  exact List.foldlRecOn (motive := Sound input) u.scan.registrations Catalog.register hdeclared
    fun _ hc _ hr => hc.register (List.mem_flatMap.2 ⟨u, hu, hr⟩)

end Sound

/-- The catalog of an input is sound. -/
theorem sound_scan (input : Text) : (scan input).Sound input := by
  let c := ofUnits (SourceUnit.split input)
  have hempty : Sound input empty :=
    ⟨List.forall_mem_nil _, List.forall_mem_nil _, List.forall_mem_nil _⟩
  have hunits : c.Sound input :=
    List.foldlRecOn (motive := Sound input) (SourceUnit.split input) _ hempty
      fun _ hc _ hu => hc.add hu
  refine ⟨hunits.found_of_declared, hunits.registered_of_entry,
    List.forall_mem_append.2 ⟨hunits.points, ?_⟩⟩
  intro w hw
  obtain ⟨r, hr, hwarning⟩ := List.mem_filterMap.1 hw
  obtain ⟨e, he, rfl⟩ := List.mem_map.1 hr
  obtain ⟨-, hw⟩ := Option.ite_none_left_eq_some.1 hwarning
  cases hw
  exact isPlaced_of_mem_registered (hunits.registered_of_entry e he)

end Catalog

-- ==================================================== slices

/-- Both positions lie between characters of the text, the first one not
behind the second. -/
def Text.IsCut (t : Text) (start stop : Nat) : Prop :=
  start ≤ stop ∧ (∃ p r, t = p ++ r ∧ start = Text.width p) ∧
    ∃ p r, t = p ++ r ∧ stop = Text.width p

theorem Span.Marks.isCut {s : Span} {t q : Text} (h : s.Marks t q) : t.IsCut s.start s.stop := by
  obtain ⟨p, r, rfl, hstart, hstop⟩ := h
  refine ⟨s.start_le_stop, ⟨p, q ++ r, by simp, hstart⟩, p ++ q, r, rfl, ?_⟩
  rw [hstop, Text.width_append]

/-- A cut lies inside the text. -/
theorem Text.IsCut.stop_le_width {t : Text} {start stop : Nat} (h : t.IsCut start stop) :
    stop ≤ t.width := by
  obtain ⟨-, -, p, r, rfl, rfl⟩ := h
  rw [Text.width_append]
  exact Nat.le_add_right _ _

namespace Field

section

variable {body : Text}

theorem isCut_of_tokens {us ws vs : List PlacedToken} {x : PlacedToken}
    (h : tokenize body = us ++ x :: (vs ++ ws)) :
    body.IsCut x.span.start (startOf body.width ws)
      ∧ body.IsCut x.span.stop (startOf body.width ws) := by
  have hx : x ∈ tokenize body := by rw [h]; simp
  obtain ⟨l, hmarks, -⟩ := exists_marks hx
  have hcut := hmarks.isCut
  have hle : x.span.stop ≤ startOf body.width ws := by
    have hsplit : tokenize body = (us ++ x :: vs) ++ ws := by rw [h]; simp
    have hbound := stop_le_startOf hsplit (x := x) (by simp)
    rwa [Nat.zero_add] at hbound
  have hend : ∃ p r, body = p ++ r ∧ startOf body.width ws = Text.width p := by
    cases ws with
    | nil => exact ⟨body, [], by simp, rfl⟩
    | cons y ws =>
        have hy : y ∈ tokenize body := by rw [h]; simp
        obtain ⟨l', hmarks', -⟩ := exists_marks hy
        exact hmarks'.isCut.2.1
  exact ⟨⟨Nat.le_trans x.span.start_le_stop hle, hcut.2.1, hend⟩, ⟨hle, hcut.2.2, hend⟩⟩

/-- The slices of a body from which entries are read are cuts: the whole
entry, its key and its definition. -/
theorem slices_isCut {s : Segment} (hs : s ∈ entries body) {first : PlacedToken}
    {ts : List PlacedToken}
    (hfirst : s.tokens.dropWhile (fun t => t.token.isTrivia) = first :: ts) :
    body.IsCut first.span.start s.stop
      ∧ ∀ colon, Segment.colon? 0 (first :: ts) = some colon →
        body.IsCut first.span.start colon.span.start ∧ body.IsCut colon.span.stop s.stop := by
  obtain ⟨before, after, htokens, hentry⟩ := Segment.split_spec hs
  obtain ⟨lead, hlead⟩ : ∃ lead, s.tokens = lead ++ first :: ts :=
    ⟨s.tokens.takeWhile fun t => t.token.isTrivia, by
      rw [← hfirst, List.takeWhile_append_dropWhile]⟩
  rw [hentry.stop_eq]
  have hsplit : tokenize body = (before ++ lead) ++ first :: (ts ++ after) := by
    rw [htokens, hlead]
    simp
  refine ⟨(isCut_of_tokens hsplit).1, ?_⟩
  intro colon hcolon
  obtain ⟨key, inside, hkey, -⟩ := Segment.colon?_spec hcolon
  have hdefinition : tokenize body = (before ++ lead ++ key) ++ colon :: (inside ++ after) := by
    rw [htokens, hlead, hkey]
    simp
  refine ⟨?_, (isCut_of_tokens hdefinition).2⟩
  cases key with
  | nil =>
      obtain ⟨rfl, -⟩ := List.cons.inj hkey
      have hstart := (isCut_of_tokens hsplit).1.2.1
      exact ⟨Nat.le_refl _, hstart, hstart⟩
  | cons k key =>
      obtain ⟨rfl, rfl⟩ := List.cons.inj hkey
      have hname : tokenize body =
          (before ++ lead) ++ first :: (key ++ colon :: (inside ++ after)) := by
        rw [hsplit]
        simp
      exact (isCut_of_tokens hname).1

end

end Field

-- ==================================================== inputs

open Catalog

theorem points_of_mem_warnings {input : Text} {w : Warning} (h : w ∈ (extract input).warnings) :
    w.Points input := by
  rcases List.mem_append.1 h with h | h
  · exact (sound_scan input).points w h
  · obtain ⟨d, hd, e, he, -, -, rfl⟩ := Assembly.exists_collision (scan input)
      (firstStart input ·.name) (pairwise_values input) h
    exact ⟨⟨e, (mem_values_iff.1 he).1, rfl, rfl⟩, ⟨d, (mem_values_iff.1 hd).1, rfl, rfl⟩⟩

/-- Every place of a warning that points right marks something. -/
theorem Warning.Points.exists_marks {input : Text} {w : Warning} (h : w.Points input)
    {p : Bool × Span} (hp : p ∈ w.places) : ∃ q, p.2.Marks input q := by
  cases w with
  | openString literal quote =>
      obtain ⟨-, -, -, -, content, -, -, hmarks⟩ := h
      rw [List.mem_singleton.1 hp]
      exact ⟨_, hmarks⟩
  | openComment comment =>
      obtain ⟨-, -, -, -, r, hmarks⟩ := h
      rw [List.mem_singleton.1 hp]
      exact ⟨_, hmarks⟩
  | openBody name brace declared =>
      rcases List.mem_pair.1 hp with rfl | rfl
      · exact ⟨_, h.1⟩
      · exact ⟨_, h.2⟩
  | malformedRegistration model call =>
      obtain ⟨m, hmarks⟩ := h
      rw [List.mem_singleton.1 hp]
      exact ⟨_, hmarks⟩
  | unknownSchema model schema registration =>
      obtain ⟨m, hmarks⟩ := h
      rw [List.mem_singleton.1 hp]
      exact ⟨_, hmarks⟩
  | redeclared name declaration earlier =>
      rcases List.mem_pair.1 hp with rfl | rfl
      · exact ⟨_, h.1.marks⟩
      · exact ⟨_, h.2.marks⟩
  | sharedDisplayName earlierName name display declaration earlier =>
      rcases List.mem_pair.1 hp with rfl | rfl
      · exact ⟨_, h.1.marks⟩
      · exact ⟨_, h.2.marks⟩

/-- What the positions in the results of an input point at. -/
structure WellPlaced (input : Text) : Prop where
  /-- A unit's text stands in the input where the unit begins. -/
  unit_placed : ∀ u ∈ SourceUnit.split input,
    ∃ p r, input = p ++ u.text ++ r ∧ u.start = Text.width p
  /-- Declarations, kept or not, stand where they say. -/
  declaration_placed : ∀ d ∈ found input, d.IsPlaced input
  /-- The catalog keeps no other declarations. -/
  found_of_declared : ∀ d ∈ (scan input).declarations.values, d ∈ found input
  /-- Registrations, kept or not, stand where they say. -/
  registration_placed : ∀ r ∈ registered input, r.IsPlaced input
  /-- The diagnostics are those of the warnings. -/
  diagnostics_eq : (extract input).diagnostics = (extract input).warnings.map Warning.diagnostic
  /-- The labels of a warning are put at its places, which mark what the
  warning is about. -/
  warning_points : ∀ w ∈ (extract input).warnings, w.Points input
    ∧ w.diagnostic.labels.map (fun l => (l.isPrimary, l.span)) = w.places
  /-- Every label lies inside the input, between characters. -/
  label_isCut : ∀ g ∈ (extract input).diagnostics, ∀ l ∈ g.labels,
    input.IsCut l.span.start l.span.stop ∧ l.span.stop ≤ input.width

theorem wellPlaced (input : Text) : WellPlaced input where
  unit_placed := fun _ hu => SourceUnit.exists_place hu
  declaration_placed := fun _ hd => isPlaced_of_mem_found hd
  found_of_declared := fun _ hd => (mem_values_iff.1 hd).1
  registration_placed := fun _ hr => isPlaced_of_mem_registered hr
  diagnostics_eq := rfl
  warning_points := fun w hw => ⟨points_of_mem_warnings hw, w.labels_diagnostic⟩
  label_isCut := by
    intro g hg l hl
    obtain ⟨w, hw, rfl⟩ := List.mem_map.1 hg
    have hplace : (l.isPrimary, l.span) ∈ w.places := by
      rw [← w.labels_diagnostic]
      exact List.mem_map_of_mem hl
    obtain ⟨q, hmarks⟩ := (points_of_mem_warnings hw).exists_marks hplace
    exact ⟨hmarks.isCut, hmarks.stop_le_width⟩

/-- The slices taken of a body to read its fields are cuts. -/
structure Field.SlicesCut (body : Text) : Prop where
  /-- Fields are read off the entries of the body. -/
  split_eq : Field.split body = (Field.entries body).filterMap (Field.ofSegment? body)
  /-- An entry is cut from its first token that is no trivia, and at its
  colon if it has one. -/
  entry_isCut : ∀ s ∈ Field.entries body, ∀ first ts,
    s.tokens.dropWhile (fun t => t.token.isTrivia) = first :: ts →
      body.IsCut first.span.start s.stop
        ∧ ∀ colon, Segment.colon? 0 (first :: ts) = some colon →
          body.IsCut first.span.start colon.span.start ∧ body.IsCut colon.span.stop s.stop

/-- What the positions taken of a text point at. -/
structure Positioned (t : Text) : Prop where
  results : WellPlaced t
  /-- The span of a token marks what the token is read from. -/
  token_marks : ∀ x ∈ tokenize t, ∃ l, x.span.Marks t l ∧ x.token.IsSpelled l
  slices : Field.SlicesCut t
  /-- A counter of open brackets, started at an opening one, is never
  counted down from zero on the way to where the matchers end. -/
  braces_counted : ∀ (b : PlacedToken) (ts : List PlacedToken), b.isMark .leftBrace = true →
    Shape.countBraces 0 (b :: ts) =
      some ((Shape.closeBraces 0 ts).map fun c => (b :: c.1, c.2))
  angles_counted : ∀ (a : PlacedToken) (ts : List PlacedToken), a.isMark .leftAngle = true →
    Shape.countAngles 0 (a :: ts) = some (Shape.closeAngles 0 ts)

/-- Every position points at what it names, be the text an input, a unit
or a body. -/
theorem positions_spec (t : Text) : Positioned t where
  results := wellPlaced t
  token_marks := fun _ hx => exists_marks hx
  slices := ⟨rfl, fun _ hs _ _ hfirst => Field.slices_isCut hs hfirst⟩
  braces_counted := fun _ ts hb => Shape.countBraces_eq hb ts
  angles_counted := fun _ ts ha => Shape.countAngles_eq ha ts

/-- A unit whose name and schema are not plain ASCII and whose body is
left open. -/
def openSchema : Text :=
  "// FILE: é\nlet Ü = Schema<T>(\x7b a: N".toList

theorem positions_spec_openSchema :
    (.openBody "Ü" (Span.of 31 32) (Span.of 16 18) ∈ (extract openSchema).warnings
        ∧ (Span.of 31 32).Marks openSchema ['{'] ∧ (Span.of 16 18).Marks openSchema ['Ü'])
      ∧ Text.IsCut "é: N".toList 3 5
      ∧ Shape.countBraces 0 [⟨.mark .leftBrace, Span.of 0 1⟩] = some none
      ∧ Shape.countAngles 0 [⟨.mark .leftAngle, Span.of 0 1⟩, ⟨.mark .rightAngle, Span.of 1 2⟩] =
        some (some []) := by
  refine ⟨?warning, ?entry, ?braces, ?angles⟩
  case warning =>
    have hmem : .openBody "Ü" (Span.of 31 32) (Span.of 16 18) ∈ (extract openSchema).warnings := by
      decide +kernel
    exact ⟨hmem, ((positions_spec openSchema).results.warning_points _ hmem).1⟩
  case entry =>
    have hfirst : (Segment.split 5 0 (tokenize "é: N".toList)).1.tokens.dropWhile
        (fun t => t.token.isTrivia) =
          ⟨.identifier "é", Span.of 0 2⟩ :: (tokenize "é: N".toList).tail := by
      decide +kernel
    have hcolon : Segment.colon? 0
        (⟨.identifier "é", Span.of 0 2⟩ :: (tokenize "é: N".toList).tail) =
          some ⟨.mark .colon, Span.of 2 3⟩ := by
      decide +kernel
    have hslices := (positions_spec "é: N".toList).slices
    have hcut := ((hslices.entry_isCut _ List.mem_cons_self _ _ hfirst).2 _ hcolon).2
    have hstop : (Segment.split 5 0 (tokenize "é: N".toList)).1.stop = 5 := by
      decide +kernel
    rw [← hstop]
    exact hcut
  case braces => exact (positions_spec openSchema).braces_counted _ [] rfl
  case angles => exact (positions_spec openSchema).angles_counted _ _ rfl

end SchemaAtlas
