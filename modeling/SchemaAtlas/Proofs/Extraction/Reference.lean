/-
What a reference says of its target. The rules for ids yield foreign
keys, whatever text they find; only the rule for schemas embeds, and it
answers with the display name of a declared schema other than the one
that owns the field.
-/
import SchemaAtlas.Reference

namespace SchemaAtlas

namespace Reference

variable {schema : String} {c : Catalog}

/-- The target is a declared schema other than the owner of the field. -/
def IsOtherSchema (schema : String) (c : Catalog) (target : String) : Prop :=
  ∃ name, c.declares name = true ∧ c.displayName name = target ∧ target ≠ schema

theorem isOtherSchema_of_embeddedAt? {brackets : Nat} {before : Option PlacedToken}
    {t : PlacedToken} {behind : List PlacedToken} {target : String}
    (h : embeddedAt? schema c brackets before t behind = some target) :
    IsOtherSchema schema c target := by
  unfold embeddedAt? at h
  split at h
  · next name _ =>
      obtain ⟨hname, htarget⟩ := Option.ite_none_right_eq_some.1 h
      cases htarget
      simp only [Bool.and_eq_true, decide_eq_true_eq] at hname
      exact ⟨name, hname.1.2, rfl, hname.2⟩
  · cases h

theorem isOtherSchema_of_embedded? {brackets : Nat} {before : Option PlacedToken}
    {ts : List PlacedToken} {e : String × Bool}
    (h : embedded? schema c brackets before ts = some e) : IsOtherSchema schema c e.1 := by
  induction ts generalizing brackets before with
  | nil => cases h
  | cons t ts ih =>
      unfold embedded? at h
      split at h
      · next target ht =>
          cases h
          exact isOtherSchema_of_embeddedAt? ht
      · exact ih h

/-- A reference is a foreign key, or it embeds another declared schema. -/
theorem read?_spec {ts : List PlacedToken} {e : Reference} (h : read? schema c ts = some e) :
    (∃ target many, e = .foreignKey target (.foreignKey many)) ∨
      ∃ target many, e = .embedded target many ∧ IsOtherSchema schema c target := by
  unfold read? at h
  split at h
  · cases h
    exact Or.inl ⟨_, _, rfl⟩
  · split at h
    · cases h
      exact Or.inl ⟨_, true, rfl⟩
    · split at h
      · cases h
        exact Or.inl ⟨_, _, rfl⟩
      · obtain ⟨e, he, rfl⟩ := Option.map_eq_some_iff.1 h
        exact Or.inr ⟨e.1, e.2, rfl, isOtherSchema_of_embedded? he⟩

end Reference

end SchemaAtlas
