/-
Outlines of what is found. The outline of a finding is what it declares,
what it registers and in which form, or what it warns of, without the
places and the model names. It can be told from the kinds of the tokens
and the names in them. Units with the same outlines make catalogs with
the same outline: which names were declared before, and which are
declared at all, decides over the warnings that the catalog adds.

- `Finding.map_outline_all`: outlines among tokens written otherwise.
- `SourceUnit.resembles_scan`: units with such tokens.
- `Catalog.resembles_scan`: inputs made of such units.
-/
import Mathlib.Data.List.Forall2
import SchemaAtlas.Proofs.Catalog.Merge
import SchemaAtlas.Proofs.Catalog.Recast

namespace SchemaAtlas

-- ==================================================== findings

namespace Finding

/-- A finding without the places and the names of models. -/
inductive Outline
  | declares (name : String)
  | registers (schema : String) (form : RegistrationForm)
  | warns (code : DiagnosticCode)

/-- The name that a finding declares. -/
def Outline.name? : Outline → Option String
  | .declares name => some name
  | _ => none

/-- The schema that a finding registers, and the form. -/
def Outline.registered? : Outline → Option (String × RegistrationForm)
  | .registers schema form => some (schema, form)
  | _ => none

/-- The code of the warning that a finding is. -/
def Outline.code? : Outline → Option DiagnosticCode
  | .warns code => some code
  | _ => none

/-- The outline of a finding. -/
def outline : Finding → Outline
  | .declaration d => .declares d.name
  | .registration r => .registers r.schemaName r.form
  | .warning w => .warns w.code

section

variable (g : Recast) (u u' : SourceUnit) (before ts : List PlacedToken)

theorem map_outline_ofDeclaration :
    (ofDeclaration u' (ts.map g.placed)).map outline =
      (ofDeclaration u ts).map outline := by
  unfold ofDeclaration
  rw [Shape.header?_recast]
  cases Shape.header? ts with
  | none => rfl
  | some h =>
      have hbehind : (h.recast g).behind = h.behind.map g.placed := rfl
      simp only [Option.map_some, hbehind, Shape.closeBraces_recast]
      cases Shape.closeBraces 0 h.behind <;> rfl

theorem map_outline_ofModel (word word' : Span) :
    (ofModel u' (before.map g.placed) word' (ts.map g.placed)).map outline =
      (ofModel u before word ts).map outline := by
  unfold ofModel
  rw [Shape.call?_recast, formAfter_recast]
  cases Shape.call? ts with
  | none => rfl
  | some c =>
      have hbehind : (c.recast g).behind = c.behind.map g.placed := rfl
      simp only [Option.map_some, hbehind, Shape.schemaArgument?_recast]
      cases Shape.schemaArgument? c.behind <;> rfl

theorem map_outline_at? (t : PlacedToken) :
    (at? u' (before.map g.placed) (g.placed t) (ts.map g.placed)).map outline =
      (at? u before t ts).map outline := by
  obtain ⟨token, span⟩ := t
  cases token with
  | keyword k =>
      show (if k.bindsName = true then _ else none).map outline =
        (if k.bindsName = true then _ else none).map outline
      by_cases hbinds : k.bindsName = true
      · rw [if_pos hbinds, if_pos hbinds]
        exact map_outline_ofDeclaration g u u' ts
      · rw [if_neg hbinds, if_neg hbinds]
  | identifier name =>
      by_cases hmodel : name = "model"
      · subst hmodel
        exact map_outline_ofModel g u u' before ts span (g.span span)
      · simp [at?, hmodel]
  | string content quote closed => cases closed <;> rfl
  | _ => rfl

/-- The outlines of the findings, token by token. -/
theorem map_outline_all :
    (all u' (before.map g.placed) (ts.map g.placed)).map outline =
      (all u before ts).map outline := by
  induction ts generalizing before with
  | nil => rfl
  | cons t ts ih =>
      have hhere := map_outline_at? g u u' before ts t
      have hlater := ih (t :: before)
      rw [List.map_cons, all, all]
      rw [List.map_cons] at hlater
      generalize at? u before t ts = here at hhere
      generalize at? u' (before.map g.placed) (g.placed t) (ts.map g.placed) = here'
        at hhere
      cases here with
      | none =>
          obtain rfl : here' = none := Option.map_eq_none_iff.1 hhere
          exact hlater
      | some f =>
          obtain ⟨f', rfl, hf⟩ := Option.map_eq_some_iff.1 hhere
          rw [List.map_cons, List.map_cons, hlater, hf]

end

/-- The findings in tokens that are the same but for how they are
written. -/
theorem map_outline_congr (g : Recast) {ts ts' : List PlacedToken}
    (h : ts'.map g.placed = ts.map g.placed) (u u' : SourceUnit) :
    (all u' [] ts').map outline = (all u [] ts).map outline := by
  rw [← map_outline_all g u' u [] ts', ← map_outline_all g u u [] ts, h]

end Finding

-- ==================================================== units

/-- Which tokens are significant can be told from the changed tokens. -/
theorem Recast.map_significant (g : Recast) {ts ts' : List PlacedToken}
    (h : ts'.map g.placed = ts.map g.placed) :
    (significant ts').map g.placed = (significant ts).map g.placed := by
  have htrivia : ∀ t : PlacedToken, (g.placed t).token.isTrivia = t.token.isTrivia := by
    rintro ⟨token, span⟩
    cases token with
    | string content quote closed => cases closed <;> rfl
    | _ => rfl
  rw [← significant_map htrivia, ← significant_map htrivia, h]

/-- So can the codes of what is left open. -/
theorem Recast.map_code_lexWarnings (g : Recast) {ts ts' : List PlacedToken}
    (h : ts'.map g.placed = ts.map g.placed) :
    (lexWarnings ts').map (·.code) = (lexWarnings ts).map (·.code) := by
  have hcode : ∀ t : PlacedToken, (g.placed t).warning?.map (·.code) = t.warning?.map (·.code) := by
    rintro ⟨token, span⟩
    cases token with
    | string content quote closed => cases closed <;> rfl
    | blockComment closed => cases closed <;> rfl
    | _ => rfl
  have hall : ∀ us : List PlacedToken,
      (lexWarnings us).map (·.code) =
        (us.map g.placed).filterMap fun t => t.warning?.map (·.code) := by
    intro us
    rw [lexWarnings, List.map_filterMap, List.filterMap_map]
    exact List.filterMap_congr fun t _ => (hcode t).symm
  rw [hall, hall, h]

/-- The same names are declared, the same schemas registered in the same
forms, and warnings of the same codes given, each in the same order. -/
structure UnitScan.Resembles (s s' : UnitScan) : Prop where
  names : s'.declarations.map (·.name) = s.declarations.map (·.name)
  registered : s'.registrations.map (fun r => (r.schemaName, r.form)) =
    s.registrations.map fun r => (r.schemaName, r.form)
  codes : s'.warnings.map (·.code) = s.warnings.map (·.code)

theorem UnitScan.Resembles.refl (s : UnitScan) : s.Resembles s :=
  ⟨rfl, rfl, rfl⟩

/-- Units whose tokens are the same but for how they are written. Where
the units stand makes no difference. -/
theorem SourceUnit.resembles_scan (g : Recast) {u u' : SourceUnit}
    (h : (tokenize u'.text).map g.placed = (tokenize u.text).map g.placed) :
    u.scan.Resembles u'.scan := by
  have houtline := Finding.map_outline_congr g (g.map_significant h) u u'
  have hpart : ∀ {α β : Type} {part : Finding → Option α} {f : α → β}
      (k : Finding.Outline → Option β), (∀ x, (part x).map f = k x.outline) →
        ((Finding.all u' [] (significant (tokenize u'.text))).filterMap part).map f =
          ((Finding.all u [] (significant (tokenize u.text))).filterMap part).map f := by
    intro α β part f k hk
    have hfilter : ∀ fs : List Finding,
        (fs.filterMap part).map f = (fs.map Finding.outline).filterMap k := by
      intro fs
      rw [List.map_filterMap, List.filterMap_map]
      exact List.filterMap_congr fun x _ => hk x
    rw [hfilter, hfilter, houtline]
  have hlexer : ∀ v : SourceUnit,
      (Warning.collect [] (lexWarnings (tokenize v.text)) v.start).map (·.code) =
        (lexWarnings (tokenize v.text)).map (·.code) := by
    intro v
    rw [Warning.collect, List.nil_append, List.map_map]
    exact List.map_congr_left fun w _ => Warning.code_shift v.start w
  refine ⟨hpart Finding.Outline.name? ?_, hpart Finding.Outline.registered? ?_, ?_⟩
  · intro x
    cases x <;> rfl
  · intro x
    cases x <;> rfl
  · unfold scan
    rw [List.map_append, List.map_append, hlexer, hlexer, g.map_code_lexWarnings h,
      hpart Finding.Outline.code?]
    intro x
    cases x <;> rfl

-- ==================================================== catalogs

/-- The same names are declared and the same schemas registered in the
same forms, both in the same order, and warnings of the same codes
given. -/
structure Catalog.Resembles (c c' : Catalog) : Prop where
  names : c'.declarations.keys = c.declarations.keys
  registered : OrderedMap.Matches (fun r r' : Registration =>
    r'.schemaName = r.schemaName ∧ r'.form = r.form) c.registrations c'.registrations
  codes : c'.warnings.map (·.code) = c.warnings.map (·.code)

namespace Catalog

theorem Resembles.warn {c c' : Catalog} (h : c.Resembles c') {ws ws' : List Warning}
    (hws : ws'.map (·.code) = ws.map (·.code)) :
    ({ c with warnings := c.warnings ++ ws } : Catalog).Resembles
      { c' with warnings := c'.warnings ++ ws' } where
  names := h.names
  registered := h.registered
  codes := by rw [List.map_append, List.map_append, h.codes, hws]

theorem Resembles.declare {c c' : Catalog} (h : c.Resembles c') {d d' : Declaration}
    (hname : d'.name = d.name) : (c.declare d).Resembles (c'.declare d') := by
  have hnames :
      (c'.declarations.insert d'.name d').keys = (c.declarations.insert d.name d).keys := by
    rw [OrderedMap.keys_insert, OrderedMap.keys_insert, h.names, hname]
  have hknown : c'.declarations.get? d'.name = none ↔ c.declarations.get? d.name = none := by
    rw [OrderedMap.get?_eq_none_iff, OrderedMap.get?_eq_none_iff, h.names, hname]
  have hadded : ({ c with declarations := c.declarations.insert d.name d } : Catalog).Resembles
      { c' with declarations := c'.declarations.insert d'.name d' } :=
    ⟨hnames, h.registered, h.codes⟩
  unfold Catalog.declare
  -- both names were declared before, or neither was
  cases hget : c.declarations.get? d.name with
  | none =>
      rw [hknown.2 hget]
      exact hadded
  | some earlier =>
      obtain ⟨earlier', hget'⟩ := Option.ne_none_iff_exists'.1 fun hnone =>
        Option.some_ne_none earlier (hget.symm.trans (hknown.1 hnone))
      rw [hget']
      exact hadded.warn rfl

theorem Resembles.register {c c' : Catalog} (h : c.Resembles c') {r r' : Registration}
    (hr : (r'.schemaName, r'.form) = (r.schemaName, r.form)) :
    (c.register r).Resembles (c'.register r') := by
  obtain ⟨hschema, hform⟩ := Prod.mk.inj hr
  refine ⟨h.names, ?_, h.codes⟩
  rw [registrations_register, registrations_register, hschema]
  exact h.registered.insert _ ⟨hschema, hform⟩

/-- Writing one after the other what is the same in both lists. -/
theorem Resembles.foldl {α β : Type} {step : Catalog → α → Catalog} {key : α → β}
    (hstep : ∀ {c c' : Catalog}, c.Resembles c' → ∀ {x x' : α}, key x' = key x →
      (step c x).Resembles (step c' x')) {c c' : Catalog} (h : c.Resembles c') {xs xs' : List α}
    (hxs : xs'.map key = xs.map key) : (xs.foldl step c).Resembles (xs'.foldl step c') := by
  induction xs generalizing c c' xs' with
  | nil =>
      rw [List.map_eq_nil_iff.1 hxs]
      exact h
  | cons x xs ih =>
      obtain ⟨x', xs', rfl, hx, hrest⟩ := List.map_eq_cons_iff.1 hxs
      exact ih (hstep h hx) hrest

theorem Resembles.add {c c' : Catalog} (h : c.Resembles c') {s s' : UnitScan}
    (hs : s.Resembles s') : (c.add s).Resembles (c'.add s') := by
  rw [add_eq, add_eq]
  exact .foldl .register (.foldl .declare (h.warn hs.codes) hs.names) hs.registered

theorem Resembles.unknownSchemas {c c' : Catalog} (h : c.Resembles c') :
    c'.unknownSchemas.map (·.code) = c.unknownSchemas.map (·.code) := by
  have hdeclares : ∀ k, c'.declares k = c.declares k := by
    intro k
    rw [declares, declares, OrderedMap.contains, OrderedMap.contains, h.names]
  have hvalues := h.registered.values
  unfold Catalog.unknownSchemas
  generalize c.registrations.values = rs at hvalues
  generalize c'.registrations.values = rs' at hvalues
  induction hvalues with
  | nil => rfl
  | @cons r r' rs rs' hr _ ih =>
      rw [List.filterMap_cons, List.filterMap_cons, hdeclares, hr.1]
      by_cases hknown : c.declares r.schemaName = true
      · rw [if_pos hknown, if_pos hknown]
        exact ih
      · rw [if_neg hknown, if_neg hknown]
        exact congrArg (DiagnosticCode.unknownSchema :: ·) ih

/-- Catalogs of inputs whose units resemble each other. -/
theorem resembles_scan {input input' : Text}
    (h : List.Forall₂ (fun u u' : SourceUnit => u.scan.Resembles u'.scan)
      (SourceUnit.split input) (SourceUnit.split input')) :
    (scan input).Resembles (scan input') := by
  have hunits : (ofUnits (SourceUnit.split input)).Resembles
      (ofUnits (SourceUnit.split input')) := by
    have hempty : Resembles empty empty := ⟨rfl, .nil, rfl⟩
    exact List.rel_foldl (fun _ _ hc _ _ hu => hc.add hu) hempty h
  exact hunits.warn hunits.unknownSchemas

end Catalog

end SchemaAtlas
