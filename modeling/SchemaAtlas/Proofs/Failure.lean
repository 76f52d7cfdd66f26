/-
Steps that can fail, one behind the other. A chain of steps comes out
well if every step does, and its failure is that of the first step that
fails; changing how failures are told changes nothing else.

- `Except.bind_eq_ok_iff`, `Except.bind_eq_error_iff`: two steps.
- `Except.mapError_eq_ok_iff`, `Except.mapError_eq_error_iff`: failures
  told in other terms.
- `Except.mapM_eq_ok_iff`, `Except.mapM_eq_error_iff`: one step for each
  entry of a list.
- `Except.foldlM_eq_ok_congr`: each step from where the last one led.
-/
import Mathlib.Data.List.Forall2

namespace SchemaAtlas

namespace Except

variable {ε δ α β : Type}

-- ==================================================== two steps

theorem bind_eq_ok_iff {x : Except ε α} {f : α → Except ε β} {b : β} :
    x >>= f = .ok b ↔ ∃ a, x = .ok a ∧ f a = .ok b := by
  cases x with
  | error e =>
      constructor
      · intro h
        cases h
      · rintro ⟨a, h, -⟩
        cases h
  | ok a =>
      constructor
      · exact fun h => ⟨a, rfl, h⟩
      · rintro ⟨a', ha, h⟩
        cases ha
        exact h

theorem bind_eq_error_iff {x : Except ε α} {f : α → Except ε β} {e : ε} :
    x >>= f = .error e ↔ x = .error e ∨ ∃ a, x = .ok a ∧ f a = .error e := by
  cases x with
  | error e' =>
      constructor
      · intro h
        cases h
        exact Or.inl rfl
      · rintro (h | ⟨a, h, -⟩)
        · cases h
          rfl
        · cases h
  | ok a =>
      constructor
      · exact fun h => Or.inr ⟨a, rfl, h⟩
      · rintro (h | ⟨a', ha, h⟩)
        · cases h
        · cases ha
          exact h

-- ==================================================== other terms

theorem mapError_eq_ok_iff {x : Except ε α} {g : ε → δ} {a : α} :
    x.mapError g = .ok a ↔ x = .ok a := by
  cases x <;> simp [Except.mapError]

theorem mapError_eq_error_iff {x : Except ε α} {g : ε → δ} {d : δ} :
    x.mapError g = .error d ↔ ∃ e, x = .error e ∧ g e = d := by
  cases x <;> simp [Except.mapError]

theorem map_eq_ok_iff {x : Except ε α} {g : α → β} {b : β} :
    x.map g = .ok b ↔ ∃ a, x = .ok a ∧ g a = b := by
  cases x <;> simp [Except.map]

theorem map_eq_error_iff {x : Except ε α} {g : α → β} {e : ε} :
    x.map g = .error e ↔ x = .error e := by
  cases x <;> simp [Except.map]

-- ==================================================== many steps

theorem mapM_eq_ok_iff {f : α → Except ε β} {xs : List α} {ys : List β} :
    xs.mapM f = .ok ys ↔ List.Forall₂ (fun x y => f x = .ok y) xs ys := by
  induction xs generalizing ys with
  | nil =>
      rw [List.mapM_nil, List.forall₂_nil_left_iff]
      exact ⟨fun h => (Except.ok.inj h).symm, fun h => congrArg Except.ok h.symm⟩
  | cons x xs ih =>
      rw [List.mapM_cons, bind_eq_ok_iff, List.forall₂_cons_left_iff]
      constructor
      · rintro ⟨y, hy, h⟩
        obtain ⟨zs, hzs, h⟩ := bind_eq_ok_iff.1 h
        cases h
        exact ⟨y, zs, hy, ih.1 hzs, rfl⟩
      · rintro ⟨y, zs, hy, hzs, rfl⟩
        exact ⟨y, hy, bind_eq_ok_iff.2 ⟨zs, ih.2 hzs, rfl⟩⟩

/-- The first entry whose step fails makes the whole fail. -/
theorem mapM_eq_error_iff {f : α → Except ε β} {xs : List α} {e : ε} :
    xs.mapM f = .error e ↔
      ∃ before x behind, xs = before ++ x :: behind ∧ (∀ b ∈ before, ∃ y, f b = .ok y) ∧
        f x = .error e := by
  induction xs with
  | nil =>
      rw [List.mapM_nil]
      constructor
      · intro h
        cases h
      · rintro ⟨before, x, behind, h, -⟩
        simp at h
  | cons x xs ih =>
      rw [List.mapM_cons, bind_eq_error_iff]
      constructor
      · rintro (h | ⟨y, hy, h⟩)
        · exact ⟨[], x, xs, rfl, List.forall_mem_nil _, h⟩
        · rcases bind_eq_error_iff.1 h with h | ⟨zs, -, h⟩
          · obtain ⟨before, x', behind, rfl, hbefore, hx'⟩ := ih.1 h
            exact ⟨x :: before, x', behind, rfl, List.forall_mem_cons.2 ⟨⟨y, hy⟩, hbefore⟩, hx'⟩
          · cases h
      · rintro ⟨before, x', behind, h, hbefore, hx'⟩
        cases before with
        | nil =>
            obtain ⟨rfl, rfl⟩ := List.cons.inj h
            exact Or.inl hx'
        | cons b before =>
            obtain ⟨rfl, rfl⟩ := List.cons.inj h
            obtain ⟨⟨y, hy⟩, hbefore⟩ := List.forall_mem_cons.1 hbefore
            refine Or.inr ⟨y, hy, bind_eq_error_iff.2 (Or.inl ?_)⟩
            exact ih.2 ⟨before, x', behind, rfl, hbefore, hx'⟩

/-- Where a walk ends depends on where its steps lead, and not on how
they fail. -/
theorem foldlM_eq_ok_congr {f g : α → β → Except ε α}
    (h : ∀ a x b, f a x = .ok b ↔ g a x = .ok b) {xs : List β} {a b : α} :
    xs.foldlM f a = .ok b ↔ xs.foldlM g a = .ok b := by
  induction xs generalizing a with
  | nil => rfl
  | cons x xs ih => simp only [List.foldlM_cons, bind_eq_ok_iff, h, ih]

end Except

end SchemaAtlas
