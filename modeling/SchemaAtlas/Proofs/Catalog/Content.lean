/-
Content is not structure. Two inputs that differ in the content of one
literal or one block comment alone, braces, marker lines or keywords
though it may hold, have the same declarations and registrations and as
many diagnostics of each code. The enclosure has to begin a token in
both: then its line is a marker line in neither, so both inputs have the
same units but for the one around the enclosure; the tokens in front of
it are those of the text in front of it; it is one closed token; and
behind it the lexer stands where it stood with the other content.

- `SourceUnit.TokenBegins`: a token begins at a byte of the input.
- `Catalog.resembles_scan_wrap`: the catalogs of the two inputs.
- `Catalog.scan_content`: what they have in common.
-/
import SchemaAtlas.Proofs.Catalog.Outline
import SchemaAtlas.Proofs.SourceUnit.Line
import SchemaAtlas.Proofs.Token.Enclosure

namespace SchemaAtlas

namespace SourceUnit

-- ==================================================== units

/-- At byte `n` of the input a token of a unit begins. -/
def TokenBegins (input : Text) (n : Nat) : Prop :=
  ∃ u ∈ split input, ∃ x ∈ tokenize u.text, u.start + x.span.start = n

instance (input : Text) (n : Nat) : Decidable (TokenBegins input n) :=
  inferInstanceAs (Decidable (∃ u ∈ split input, ∃ x ∈ tokenize u.text, u.start + x.span.start = n))

theorem isKept_congr {u u' : SourceUnit} (hname : u'.name = u.name) (htext : u'.text = u.text) :
    u'.isKept = u.isKept := by
  rw [isKept, isKept, hname, htext]

/-- The unit in which a token begins holds the byte at which it does. -/
theorem TokenBegins.exists_holds {input : Text} {n : Nat} (h : TokenBegins input n) :
    ∃ u ∈ unitsOf input, u.Holds n := by
  obtain ⟨u, hu, x, hx, rfl⟩ := h
  have hbounds := bounds_of_mem_tokensFrom hx
  refine ⟨u, (List.mem_filter.1 hu).1, Nat.le_add_right .., ?_⟩
  omega

/-- The unit around a piece of the input at which a token begins. -/
theorem TokenBegins.beginsIn {input front t behind : Text} {n : Option String} {st : Nat}
    (h : TokenBegins input (st + front.width)) (hne : t ≠ [])
    (hunit : ⟨n, front ++ t ++ behind, st⟩ ∈ unitsOf input) :
    isKept ⟨n, front ++ t ++ behind, st⟩ = true
      ∧ Enclosure.BeginsIn (front ++ t ++ behind) front.width := by
  obtain ⟨u, hu, x, hx, hstart⟩ := h
  obtain ⟨hmem, hkept⟩ := List.mem_filter.1 hu
  have hholds : u.Holds (st + front.width) := by
    have hbounds := bounds_of_mem_tokensFrom hx
    exact ⟨by omega, by omega⟩
  have hpiece : SourceUnit.Holds ⟨n, front ++ t ++ behind, st⟩ (st + front.width) := by
    have hpos : 0 < Text.width t := Nat.pos_of_ne_zero fun h => hne (Text.width_eq_zero.1 h)
    refine ⟨Nat.le_add_right .., ?_⟩
    show st + front.width < st + Text.width (front ++ t ++ behind)
    simp only [Text.width_append]
    omega
  obtain rfl := eq_of_holds (pairwise_unitsOf input) hmem hunit hholds hpiece
  exact ⟨hkept, x, hx, Nat.add_left_cancel hstart⟩

end SourceUnit

namespace Catalog

-- ==================================================== catalogs

section

variable {e : Enclosure} {p s c c' : Text} (h : e.Admits c) (h' : e.Admits c')
  (hbegins : SourceUnit.TokenBegins (p ++ e.wrap c ++ s) p.width)
  (hbegins' : SourceUnit.TokenBegins (p ++ e.wrap c' ++ s) p.width)
include h h' hbegins hbegins'

theorem resembles_scan_wrap :
    (scan (p ++ e.wrap c ++ s)).Resembles (scan (p ++ e.wrap c' ++ s)) := by
  obtain ⟨us, n, st, front, behind, vs, vs', hplace, hunits, hunits', hlater⟩ :=
    SourceUnit.unitsOf_exchange (e.wrap_ne_nil c) h.line_wrap (e.wrap_ne_nil c') h'.line_wrap
      hbegins.exists_holds hbegins'.exists_holds
  rw [← hplace] at hbegins hbegins'
  have hmem : ⟨n, front ++ e.wrap c ++ behind, st⟩ ∈
      SourceUnit.unitsOf (p ++ e.wrap c ++ s) := by
    rw [hunits]
    simp
  have hmem' : ⟨n, front ++ e.wrap c' ++ behind, st⟩ ∈
      SourceUnit.unitsOf (p ++ e.wrap c' ++ s) := by
    rw [hunits']
    simp
  obtain ⟨hkept, hinside⟩ := hbegins.beginsIn (e.wrap_ne_nil c) hmem
  obtain ⟨hkept', hinside'⟩ := hbegins'.beginsIn (e.wrap_ne_nil c') hmem'
  have hunit : (SourceUnit.scan ⟨n, front ++ e.wrap c ++ behind, st⟩).Resembles
      (SourceUnit.scan ⟨n, front ++ e.wrap c' ++ behind, st⟩) :=
    SourceUnit.resembles_scan Enclosure.blanked
      (Enclosure.map_blanked_tokenize h h' hinside hinside')
  have hall : List.Forall₂ (fun u u' : SourceUnit =>
      u.scan.Resembles u'.scan ∧ u'.isKept = u.isKept)
        (SourceUnit.unitsOf (p ++ e.wrap c ++ s)) (SourceUnit.unitsOf (p ++ e.wrap c' ++ s)) := by
    rw [hunits, hunits']
    refine List.rel_append (List.forall₂_same.2 fun u _ => ⟨.refl _, rfl⟩) (.cons ?_ ?_)
    · exact ⟨hunit, hkept'.trans hkept.symm⟩
    · exact hlater.imp fun u u' hu =>
        ⟨SourceUnit.resembles_scan Enclosure.blanked (by rw [hu.2]),
          SourceUnit.isKept_congr hu.1 hu.2⟩
  have hsplit := List.rel_filter (p := SourceUnit.isKept) (q := SourceUnit.isKept)
    (fun u u' hu => Bool.eq_iff_iff.1 hu.2.symm) hall
  exact resembles_scan (hsplit.imp fun u u' hu => hu.1)

/-- The same identifiers are declared, in the same order, the same schema
identifiers registered in the same forms, and the diagnostics of each
code are equally many. -/
theorem scan_content :
    (scan (p ++ e.wrap c' ++ s)).declarations.keys = (scan (p ++ e.wrap c ++ s)).declarations.keys
      ∧ (scan (p ++ e.wrap c' ++ s)).registrations.entries.map (fun r => (r.1, r.2.form)) =
        (scan (p ++ e.wrap c ++ s)).registrations.entries.map (fun r => (r.1, r.2.form))
      ∧ ∀ code : DiagnosticCode,
        (scan (p ++ e.wrap c' ++ s)).diagnostics.countP (fun d => d.code = some code) =
          (scan (p ++ e.wrap c ++ s)).diagnostics.countP (fun d => d.code = some code) := by
  have hscan := resembles_scan_wrap h h' hbegins hbegins'
  refine ⟨hscan.names, ?_, fun code => ?_⟩
  · have hforms : List.Forall₂ Eq
        ((scan (p ++ e.wrap c' ++ s)).registrations.entries.map fun r => (r.1, r.2.form))
        ((scan (p ++ e.wrap c ++ s)).registrations.entries.map fun r => (r.1, r.2.form)) := by
      rw [List.forall₂_map_left_iff, List.forall₂_map_right_iff]
      exact hscan.registered.flip.imp fun r r' hr => Prod.ext hr.1 hr.2.2
    exact List.forall₂_eq_eq_eq ▸ hforms
  · have hcount : ∀ k : Catalog, k.diagnostics.countP (fun d => d.code = some code) =
        (k.warnings.map (·.code)).countP (· = code) := by
      intro k
      rw [diagnostics, List.countP_map, List.countP_map]
      congr 1
      funext w
      simp [Warning.code_diagnostic]
    rw [hcount, hcount, hscan.codes]

end

/-- A schema up to the value of its first key. -/
def openedBody : Text :=
  "const A = Schema(\x7b a: ".toList

/-- The rest of the schema and a registration of another one. -/
def closedBody : Text :=
  " \x7d);\nmodel('B', B)".toList

/-- A template with a brace in it and one with a marker line. -/
theorem scan_content_template :
    let brace := openedBody ++ (Enclosure.quotes '\x60').wrap "\x7d".toList ++ closedBody
    let marker := openedBody ++ (Enclosure.quotes '\x60').wrap "// FILE: b".toList ++ closedBody
    SourceUnit.TokenBegins brace openedBody.width
      ∧ SourceUnit.TokenBegins marker openedBody.width
      ∧ (scan brace).declarations.keys = ["A"]
      ∧ (scan marker).declarations.keys = ["A"]
      ∧ (scan marker).registrations.entries.map (fun r => (r.1, r.2.form)) =
        (scan brace).registrations.entries.map (fun r => (r.1, r.2.form))
      ∧ ∀ code : DiagnosticCode,
        (scan marker).diagnostics.countP (fun d => d.code = some code) =
          (scan brace).diagnostics.countP (fun d => d.code = some code) := by
  intro brace marker
  have hbrace : (Enclosure.quotes '\x60').Admits "\x7d".toList := by decide
  have hmarker : (Enclosure.quotes '\x60').Admits "// FILE: b".toList := by decide
  have hbegins : SourceUnit.TokenBegins brace openedBody.width := by decide +kernel
  have hbegins' : SourceUnit.TokenBegins marker openedBody.width := by decide +kernel
  have hkeys : (scan brace).declarations.keys = ["A"] := by decide +kernel
  obtain ⟨hnames, hforms, hcodes⟩ := scan_content hbrace hmarker hbegins hbegins'
  exact ⟨hbegins, hbegins', hkeys, hnames.trans hkeys, hforms, hcodes⟩

end Catalog

end SchemaAtlas
