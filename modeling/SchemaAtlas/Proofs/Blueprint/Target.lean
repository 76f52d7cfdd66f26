/-
The references of a rendered blueprint. A definition refers to what its
shape says: the rules for ids apply to a reference by id and to nothing
else, and a word is taken for a schema exactly when the blueprint has a
schema of this name.

- `read?_shape`: the reference that a definition is read as.
- `relationship?_field`: the relationship of a field.
-/
import SchemaAtlas.Proofs.Blueprint.Catalog
import SchemaAtlas.Proofs.Blueprint.Fields
import SchemaAtlas.Reference

namespace SchemaAtlas

namespace Blueprint

open Lexeme

-- ==================================================== references by id

section

variable (schema : String) (c : Catalog) (target : Quotable)

/-- A reference by id is found by the first rule. -/
theorem read?_idReference (start : Nat) :
    Reference.read? schema c (tokensAt start (idReference target)) =
      some (.foreignKey (String.ofList target.text) .oneToOne) := by
  simp only [idReference, idMembers, List.cons_append, List.nil_append, tokensAt_mark,
    tokensAt_blank, tokensAt_word, tokensAt_quoted, tokensAt_nil]
  rfl

theorem read?_idReferences (start : Nat) :
    Reference.read? schema c (tokensAt start (bracketed true (idReference target))) =
      some (.foreignKey (String.ofList target.text) .oneToMany) := by
  simp only [bracketed, if_true, idReference, idMembers, List.cons_append, List.nil_append,
    tokensAt_mark, tokensAt_blank, tokensAt_word, tokensAt_quoted, tokensAt_nil]
  rfl

end

-- ==================================================== words

section

variable {schema : String} {c : Catalog} {w : Word} (start : Nat)

/-- A word that is no schema refers to nothing. -/
theorem read?_plain (h : c.declares w.name = false) :
    Reference.read? schema c (tokensAt start [.word w]) = none := by
  have hembedded : ∀ t : PlacedToken, Reference.read? schema c [t] =
      (Reference.embedded? schema c 0 none [t]).map fun e => .embedded e.1 e.2 :=
    fun _ => rfl
  rw [tokensAt_word, tokensAt_nil, hembedded]
  rcases wordToken_cases w.text with ⟨k, hk⟩ | hw
  · rw [hk]
    rfl
  · have hat : ∀ sp, Reference.embeddedAt? schema c 0 none ⟨wordToken w.text, sp⟩ [] = none := by
      intro sp
      rw [hw]
      simp only [Reference.embeddedAt?, show String.ofList w.text = w.name from rfl, h,
        Bool.and_false, Bool.false_and]
      rfl
    rw [Reference.embedded?, hat]
    rfl

variable (hw : w.isReserved = false) (hdeclared : c.declares w.name = true)
  (hother : c.displayName w.name ≠ schema)
include hw hdeclared hother

/-- The name of another schema embeds it. -/
theorem read?_schema :
    Reference.read? schema c (tokensAt start [.word w]) =
      some (.embedded (c.displayName w.name) false) := by
  have hat : ∀ sp, Reference.embeddedAt? schema c 0 none ⟨.identifier w.name, sp⟩ [] =
      some (c.displayName w.name) := by
    intro sp
    simp [Reference.embeddedAt?, Reference.isValuePlace, hdeclared, hother]
  rw [tokensAt_word, tokensAt_nil, Word.wordToken_of_not_reserved hw]
  show (Reference.embedded? schema c 0 none [_]).map _ = _
  rw [Reference.embedded?, hat]
  rfl

/-- In brackets it embeds any number of them. -/
theorem read?_schemas :
    Reference.read? schema c (tokensAt start (bracketed true [.word w])) =
      some (.embedded (c.displayName w.name) true) := by
  have hat : ∀ so sp sc, Reference.embeddedAt? schema c 1 (some ⟨.mark .leftBracket, so⟩)
      ⟨.identifier w.name, sp⟩ [⟨.mark .rightBracket, sc⟩] = some (c.displayName w.name) := by
    intro so sp sc
    simp [Reference.embeddedAt?, Reference.isValuePlace, PlacedToken.isMark, hdeclared, hother]
  simp only [bracketed, if_true, List.cons_append, List.nil_append, tokensAt_mark, tokensAt_word,
    tokensAt_nil, Word.wordToken_of_not_reserved hw]
  show (Reference.embedded? schema c 1 _ [_, _]).map _ = _
  rw [Reference.embedded?, hat]
  rfl

end

-- ==================================================== shapes

variable {b : List SchemaPlan} {c : Catalog}

/-- A name of the blueprint is resolved to a schema of that name. -/
theorem exists_schema {w : Word} (hw : w ∈ names b) :
    ∃ t ∈ b, t.name = w ∧ displayOf b w = t.displayName := by
  unfold displayOf
  cases hfind : b.find? fun s => s.name = w with
  | some t => exact ⟨t, List.mem_of_find?_eq_some hfind, by simpa using List.find?_some hfind, rfl⟩
  | none =>
      obtain ⟨t, ht, e⟩ := List.mem_map.1 hw
      exact absurd e (by simpa using List.find?_eq_none.1 hfind t ht)

/-- A definition refers to what its shape says. -/
theorem read?_shape (hvalid : Valid b) (hc : Describes b c) {s : SchemaPlan} (hs : s ∈ b)
    {shape : Shape} (hfits : shape.Fits (names b) s.name) :
    Reference.read? s.displayName c (tokensAt 0 shape.lexemes) = shape.reference? b := by
  cases shape with
  | plain type =>
      have hundeclared : c.declares type.name = false :=
        Bool.eq_false_iff.2 fun h => hfits ((hc.declares_iff type).1 h)
      exact read?_plain 0 hundeclared
  | reference many target =>
      cases many with
      | false => exact read?_idReference s.displayName c target 0
      | true => exact read?_idReferences s.displayName c target 0
  | nested many schema =>
      obtain ⟨hmem, hne⟩ := hfits
      obtain ⟨t, ht, rfl, hdisplay⟩ := exists_schema hmem
      have hdeclared := (hc.declares_iff t.name).2 hmem
      have hother : c.displayName t.name.name ≠ s.displayName := by
        intro e
        rw [hc.displayName_eq t ht] at e
        exact hne (congrArg SchemaPlan.name
          (List.inj_on_of_nodup_map hvalid.nodup_displayNames ht hs e))
      rw [Shape.reference?, hdisplay, ← hc.displayName_eq t ht]
      cases many with
      | false => exact read?_schema 0 t.name_not_reserved hdeclared hother
      | true => exact read?_schemas 0 t.name_not_reserved hdeclared hother

/-- A field stands for the relationship that its shape says. -/
theorem relationship?_field (hvalid : Valid b) (hc : Describes b c) {s : SchemaPlan} (hs : s ∈ b)
    {f : FieldPlan} (hf : f ∈ s.fields) {d : Field} (hd : f.IsReadAs d) :
    d.relationship? s.displayName c =
      (f.shape.reference? b).map (Reference.relationship s.displayName f.name.name) := by
  have hseparated : Separated f.shape.lexemes :=
    (List.IsChain.left_of_append (separated_shape f.shape)).tail
  have htokens : significant (tokenize d.definition) = tokensAt 0 f.shape.lexemes := by
    rw [hd.2, tokenize_spell hseparated]
    rfl
  rw [Field.relationship?, htokens, read?_shape hvalid hc hs (hvalid.fits s hs f hf), hd.1]

end Blueprint

end SchemaAtlas
