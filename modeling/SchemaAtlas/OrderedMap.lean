/-
Maps that remember the order in which their keys arrived. Writing a key
again replaces its value and keeps its place; a new key goes to the
end. No key occurs twice, which is part of the type.

- `OrderedMap.get?_insert`: a write is seen at its key and nowhere else.
- `OrderedMap.keys_insert`: the order of the keys after a write.
-/
namespace SchemaAtlas

/-- A finite map with its entries in order of first insertion. -/
structure OrderedMap (κ α : Type) where
  entries : List (κ × α)
  nodup_keys : (entries.map Prod.fst).Nodup

namespace OrderedMap

variable {κ α : Type} [DecidableEq κ]

/-- The map without entries. -/
def empty : OrderedMap κ α :=
  ⟨[], List.nodup_nil⟩

instance : Inhabited (OrderedMap κ α) := ⟨empty⟩

/-- The keys, oldest first. -/
def keys (m : OrderedMap κ α) : List κ :=
  m.entries.map Prod.fst

/-- The values, in the order of their keys. -/
def values (m : OrderedMap κ α) : List α :=
  m.entries.map Prod.snd

/-- The value at a key. -/
def get? (m : OrderedMap κ α) (k : κ) : Option α :=
  (m.entries.find? fun e => e.1 = k).map Prod.snd

/-- Whether the key has a value. -/
def contains (m : OrderedMap κ α) (k : κ) : Bool :=
  m.keys.contains k

-- ==================================================== writing

/-- Writes `v` at `k` in a list of entries: in place if the key is
there, at the end otherwise. -/
def put (k : κ) (v : α) : List (κ × α) → List (κ × α)
  | [] => [(k, v)]
  | e :: es => if e.1 = k then (k, v) :: es else e :: put k v es

theorem keys_put (k : κ) (v : α) (es : List (κ × α)) :
    (put k v es).map Prod.fst =
      if k ∈ es.map Prod.fst then es.map Prod.fst else es.map Prod.fst ++ [k] := by
  induction es with
  | nil => simp [put]
  | cons e es ih =>
      unfold put
      by_cases h : e.1 = k
      · simp [h]
      · have h' : k ≠ e.1 := fun c => h c.symm
        simp only [h, if_false, List.map_cons, ih, List.mem_cons, h', false_or]
        split <;> simp

theorem nodup_put {k : κ} {v : α} {es : List (κ × α)}
    (h : (es.map Prod.fst).Nodup) : ((put k v es).map Prod.fst).Nodup := by
  rw [keys_put]
  split
  · exact h
  · next hk =>
      refine List.nodup_append.2 ⟨h, by simp, ?_⟩
      intro a ha b hb heq
      simp at hb
      exact hk (by rw [← hb, ← heq]; exact ha)

/-- The map with `v` at `k`. -/
def insert (m : OrderedMap κ α) (k : κ) (v : α) : OrderedMap κ α :=
  ⟨put k v m.entries, nodup_put m.nodup_keys⟩

/-- The map with the value at `k` computed from the one before. -/
def update (m : OrderedMap κ α) (k : κ) (f : Option α → α) : OrderedMap κ α :=
  m.insert k (f (m.get? k))

/-- The map with the values `f k` at the keys `ks`. -/
def ofKeys (ks : List κ) (f : κ → α) : OrderedMap κ α :=
  ks.foldl (fun m k => m.insert k (f k)) empty

/-- The map with every value changed as its key and itself require. -/
def adjust (m : OrderedMap κ α) (f : κ → α → α) : OrderedMap κ α :=
  ⟨m.entries.map fun e => (e.1, f e.1 e.2), by
    rw [List.map_map]
    exact m.nodup_keys⟩

-- ==================================================== laws

theorem keys_insert (m : OrderedMap κ α) (k : κ) (v : α) :
    (m.insert k v).keys = if k ∈ m.keys then m.keys else m.keys ++ [k] :=
  keys_put k v m.entries

theorem mem_keys_insert {m : OrderedMap κ α} {k k' : κ} {v : α} :
    k' ∈ (m.insert k v).keys ↔ k' = k ∨ k' ∈ m.keys := by
  rw [keys_insert]
  split
  · next h => constructor
              · exact Or.inr
              · rintro (rfl | h')
                · exact h
                · exact h'
  · simp [or_comm]

theorem find?_put (k k' : κ) (v : α) (es : List (κ × α)) :
    ((put k v es).find? fun e => e.1 = k').map Prod.snd =
      if k = k' then some v else (es.find? fun e => e.1 = k').map Prod.snd := by
  induction es with
  | nil => by_cases h : k = k' <;> simp [put, h]
  | cons e es ih =>
      unfold put
      by_cases h : e.1 = k
      · by_cases h' : k = k' <;> simp [h, h']
      · by_cases h' : e.1 = k'
        · have hk : k ≠ k' := fun c => h (h'.trans c.symm)
          rw [if_neg h, if_neg hk]
          simp [h']
        · simp only [h, if_false, List.find?_cons, h', decide_false, ih]

/-- A write is seen at its key and nowhere else. -/
theorem get?_insert (m : OrderedMap κ α) (k k' : κ) (v : α) :
    (m.insert k v).get? k' = if k = k' then some v else m.get? k' :=
  find?_put k k' v m.entries

@[simp] theorem get?_empty (k : κ) : (empty : OrderedMap κ α).get? k = none := rfl

omit [DecidableEq κ] in
@[simp] theorem keys_empty : (empty : OrderedMap κ α).keys = [] := rfl

omit [DecidableEq κ] in
/-- Adjusting the values leaves the keys alone. -/
@[simp] theorem keys_adjust (m : OrderedMap κ α) (f : κ → α → α) :
    (m.adjust f).keys = m.keys := by
  simp [keys, adjust, List.map_map, Function.comp_def]

/-- An adjusted value is read at its own key. -/
theorem get?_adjust (m : OrderedMap κ α) (f : κ → α → α) (k : κ) :
    (m.adjust f).get? k = (m.get? k).map (f k) := by
  simp only [get?, adjust]
  induction m.entries with
  | nil => rfl
  | cons e es ih =>
      by_cases h : e.1 = k
      · simp [h]
      · simpa [List.find?_cons, h] using ih

/-- A value that is read is one of the values. -/
theorem mem_values_of_get? {m : OrderedMap κ α} {k : κ} {v : α} (h : m.get? k = some v) :
    v ∈ m.values := by
  obtain ⟨e, he, rfl⟩ := Option.map_eq_some_iff.1 h
  exact List.mem_map.2 ⟨e, List.mem_of_find?_eq_some he, rfl⟩

theorem contains_iff {m : OrderedMap κ α} {k : κ} : m.contains k = true ↔ k ∈ m.keys := by
  simp [contains]

end OrderedMap

end SchemaAtlas
