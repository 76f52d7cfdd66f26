/-
What the scanner recognizes. Every significant token of a unit yields a
declaration, a registration or a warning, or nothing, and the grammar of
its surroundings alone says which: a word that binds a name and a header
behind it, closed or not; the word `model` and a call behind it, with a
schema identifier for its second argument or not. The scanner finds at
each token what the token yields, and a unit's findings are these, in
the order of the tokens. What one token yields takes nothing away from
the others; so a declaration inside the body of another counts, and so
does one in a body that is never closed.

- `Finding.Yields`: what a token yields between its neighbours.
- `Finding.at?_eq_some_iff`: the scanner finds just that.
- `UnitScan.of_recognizes`: the findings of a unit.
-/
import SchemaAtlas.Proofs.Catalog.Grammar
import SchemaAtlas.Proofs.Catalog.Offset
import SchemaAtlas.Proofs.Catalog.Order

namespace SchemaAtlas

namespace Finding

open Shape

-- ==================================================== one token

/-- What the token `t` of a unit yields between the tokens `before` it,
nearest first, and `behind` it. -/
inductive Yields (text : Text) (unit : Option String) (before : List PlacedToken)
    (t : PlacedToken) (behind : List PlacedToken) : Finding → Prop
  /-- A header whose brace is closed is a declaration. -/
  | declaration {hd : Header} {inside rest : List PlacedToken} {closing : PlacedToken}
      (hword : t.token ∈ [Token.keyword .constWord, .keyword .letWord, .keyword .varWord])
      (hheader : IsHeader behind hd) (hbody : hd.behind = inside ++ closing :: rest)
      (hclosing : closing.isMark .rightBrace = true) (hinside : NestedBraces inside) :
      Yields text unit before t behind (.declaration
        ⟨hd.name, text.slice hd.brace.stop closing.span.start, hd.nameSpan, hd.brace.stop, unit⟩)
  /-- One whose brace is not closed is reported (`W100`). -/
  | openBody {hd : Header}
      (hword : t.token ∈ [Token.keyword .constWord, .keyword .letWord, .keyword .varWord])
      (hheader : IsHeader behind hd)
      (hopen : ¬∃ inside closing rest, hd.behind = inside ++ closing :: rest
        ∧ closing.isMark .rightBrace = true ∧ NestedBraces inside) :
      Yields text unit before t behind (.warning (.openBody hd.name hd.brace hd.nameSpan))
  /-- A call with a schema identifier is a registration. -/
  | registration {call : Call} {schema : String} {span : Span}
      (hword : t.token = .identifier "model") (hcall : IsCall behind call)
      (hargument : IsArgument call.behind (schema, span)) :
      Yields text unit before t behind (.registration
        ⟨call.model, schema, formAfter before, t.span.union span⟩)
  /-- One with anything else, or nothing, behind its comma is reported
  (`W101`). -/
  | malformed {call : Call} (hword : t.token = .identifier "model")
      (hcall : IsCall behind call) (hargument : ¬∃ a, IsArgument call.behind a) :
      Yields text unit before t behind (.warning (.malformedRegistration call.model
        (t.span.union (call.behind.head?.elim call.comma PlacedToken.span))))

section

variable {text : Text} {unit : Option String} {before behind : List PlacedToken}
  {t : PlacedToken} {f : Finding}

theorem bindsName_iff {k : Keyword} :
    k.bindsName = true ↔
      Token.keyword k ∈ [Token.keyword .constWord, .keyword .letWord, .keyword .varWord] := by
  cases k <;> decide

theorem yields_of_ofDeclaration
    (hword : t.token ∈ [Token.keyword .constWord, .keyword .letWord, .keyword .varWord])
    (h : ofDeclaration (.alone unit text) behind = some f) :
    Yields text unit before t behind f := by
  unfold ofDeclaration at h
  split at h
  · cases h
  · next hd hheader =>
      split at h
      · next hclose =>
          cases h
          exact .openBody hword (header?_eq_some_iff.1 hheader) (closeBraces_eq_none_iff.1 hclose)
      · next inside closing rest hclose =>
          cases h
          obtain ⟨hbody, hclosing, hinside⟩ := closeBraces_eq_some_iff.1 hclose
          exact .declaration hword (header?_eq_some_iff.1 hheader) hbody hclosing hinside

theorem ofModel_malformed {call : Call} {word : Span} (hcall : call? behind = some call)
    (hargument : schemaArgument? call.behind = none) :
    ofModel (.alone unit text) before word behind =
      some (.warning (.malformedRegistration call.model
        (word.union (call.behind.head?.elim call.comma PlacedToken.span)))) := by
  rw [ofModel, hcall]
  simp only [hargument]
  cases call.behind <;> rfl

theorem yields_of_ofModel (hword : t.token = .identifier "model")
    (hmodel : ofModel (.alone unit text) before t.span behind = some f) :
    Yields text unit before t behind f := by
  have h := hmodel
  unfold ofModel at h
  split at h
  · cases h
  · next call hcall =>
      split at h
      · next schema span hargument =>
          cases h
          exact .registration hword (call?_eq_some_iff.1 hcall)
            (schemaArgument?_eq_some_iff.1 hargument)
      · next hargument =>
          have hnone : ¬∃ a, IsArgument call.behind a := by
            rintro ⟨a, ha⟩
            rw [schemaArgument?_eq_some_iff.2 ha] at hargument
            cases hargument
          obtain rfl := Option.some.inj ((ofModel_malformed hcall hargument).symm.trans hmodel)
          exact .malformed hword (call?_eq_some_iff.1 hcall) hnone

theorem at?_binder
    (hword : t.token ∈ [Token.keyword .constWord, .keyword .letWord, .keyword .varWord]) :
    at? (.alone unit text) before t behind = ofDeclaration (.alone unit text) behind := by
  obtain ⟨token, span⟩ := t
  simp only [List.mem_cons, List.not_mem_nil, or_false] at hword
  rcases hword with rfl | rfl | rfl <;> rfl

theorem at?_model (hword : t.token = .identifier "model") :
    at? (.alone unit text) before t behind = ofModel (.alone unit text) before t.span behind := by
  obtain ⟨token, span⟩ := t
  obtain rfl : token = .identifier "model" := hword
  rfl

/-- The scanner finds at a token what the token yields. -/
theorem at?_eq_some_iff :
    at? (.alone unit text) before t behind = some f ↔ Yields text unit before t behind f := by
  constructor
  · intro h
    unfold at? at h
    split at h
    · next k hk =>
        split at h
        · next hbinds => exact yields_of_ofDeclaration (hk ▸ bindsName_iff.1 hbinds) h
        · cases h
    · next hword => exact yields_of_ofModel hword h
    · cases h
  · intro h
    cases h with
    | declaration hword hheader hbody hclosing hinside =>
        rw [at?_binder hword, ofDeclaration, header?_eq_some_iff.2 hheader]
        simp only [closeBraces_eq_some_iff.2 ⟨hbody, hclosing, hinside⟩]
        rfl
    | openBody hword hheader hopen =>
        rw [at?_binder hword, ofDeclaration, header?_eq_some_iff.2 hheader]
        simp only [closeBraces_eq_none_iff.2 hopen]
        rfl
    | registration hword hcall hargument =>
        rw [at?_model hword, ofModel, call?_eq_some_iff.2 hcall]
        simp only [schemaArgument?_eq_some_iff.2 hargument]
        rfl
    | @malformed call hword hcall hargument =>
        have hnone : schemaArgument? call.behind = none :=
          Option.eq_none_iff_forall_ne_some.2 fun a ha =>
            hargument ⟨a, schemaArgument?_eq_some_iff.1 ha⟩
        rw [at?_model hword, ofModel_malformed (call?_eq_some_iff.2 hcall) hnone]

-- ==================================================== all tokens

/-- What the token at position `i` of a unit's tokens yields. -/
def YieldsAt (text : Text) (unit : Option String) (ts : List PlacedToken) (i : Nat)
    (f : Finding) : Prop :=
  ∃ us t vs, ts = us ++ t :: vs ∧ us.length = i ∧ Yields text unit us.reverse t vs f

/-- What the scanner finds at position `i` of the tokens behind
`before`. -/
def found? (u : SourceUnit) (before ts : List PlacedToken) (i : Nat) : Option Finding :=
  match ts.drop i with
  | [] => none
  | t :: behind => at? u ((ts.take i).reverse ++ before) t behind

theorem found?_eq_some_iff {ts : List PlacedToken} {i : Nat} :
    found? (.alone unit text) [] ts i = some f ↔ YieldsAt text unit ts i f := by
  unfold found?
  constructor
  · intro h
    cases hdrop : ts.drop i with
    | nil =>
        rw [hdrop] at h
        cases h
    | cons t behind =>
        rw [hdrop, List.append_nil] at h
        have hlength := congrArg List.length hdrop
        rw [List.length_drop, List.length_cons] at hlength
        refine ⟨ts.take i, t, behind, ?_, ?_, at?_eq_some_iff.1 h⟩
        · rw [← hdrop, List.take_append_drop]
        · rw [List.length_take]
          omega
  · rintro ⟨us, t, vs, rfl, rfl, h⟩
    rw [List.drop_left, List.take_left, List.append_nil]
    exact at?_eq_some_iff.2 h

/-- The findings are those at each of the tokens, in their order. -/
theorem all_eq_filterMap (u : SourceUnit) (ts : List PlacedToken) :
    all u before ts = (List.range ts.length).filterMap (found? u before ts) := by
  induction ts generalizing before with
  | nil => rfl
  | cons t ts ih =>
      have hlater : (found? u before (t :: ts) ∘ Nat.succ) = found? u (t :: before) ts := by
        funext i
        simp [found?]
      have hfirst : found? u before (t :: ts) 0 = at? u before t ts := rfl
      rw [List.length_cons, List.range_succ_eq_map, all, ih, List.filterMap_cons,
        List.filterMap_map, hlater, hfirst]
      cases at? u before t ts <;> rfl

end

end Finding

-- ==================================================== units

/-- The declarations, registrations and warnings of a unit are what its
significant tokens yield, one token after the other; in front of those
warnings stand the ones of the lexer. -/
theorem UnitScan.of_recognizes (unit : Option String) (text : Text) :
    ∃ found : Nat → Option Finding,
      (∀ i f, found i = some f ↔
        Finding.YieldsAt text unit (significant (tokenize text)) i f)
      ∧ UnitScan.of unit text =
        let findings := (List.range (significant (tokenize text)).length).filterMap found
        { declarations := findings.filterMap Finding.declaration?
          registrations := findings.filterMap Finding.registration?
          warnings := lexWarnings (tokenize text) ++ findings.filterMap Finding.warning? } := by
  refine ⟨Finding.found? (.alone unit text) [] (significant (tokenize text)),
    fun i f => Finding.found?_eq_some_iff, ?_⟩
  rw [← Finding.all_eq_filterMap]
  show UnitScan.mk _ _ (UnitScan.of unit text).warnings = _
  rw [UnitScan.warnings_of]
  rfl

/-- A declaration in a body that is never closed. -/
example : ((UnitScan.of none "let A = Schema(\x7b b: var B = new m.Schema<X>(\x7b\x7d)".toList)
    |>.declarations.map (·.name)) = ["B"] := by decide +kernel

end SchemaAtlas
