/-
Foreign keys of a definition. The rules look for markers, a `ref` with
its target and a type that is an `ObjectId`, in an order that depends
on where they stand: a `ref` behind the first such type, else one with
such a type in an object inside an array, else one in front of the
first such type. Each rule searches all tokens from the front. Together
they leave no `ref` out: where the first rule finds none, no `ref`
stands behind the type, so the third may as well look everywhere. And
they agree on the cardinality, for the object of the second rule makes
the definition array shaped.

- `Reference.RefAt`, `Reference.IdTypeAt`, `Reference.ArrayShaped`: the
  markers and the shape, by positions.
- `Reference.Searches`: searching a token list from the front.
- `Reference.Designates`: the `ref` that gives the target.
- `Field.foreignKey_of_markers`: foreign keys and their targets.
-/
import SchemaAtlas.Proofs.Catalog.Grammar
import SchemaAtlas.Reference

namespace SchemaAtlas

namespace Reference

open Shape

-- ==================================================== markers

/-- At position `i` of the tokens stands `ref: '…'` with the given
target. -/
def RefAt (ts : List PlacedToken) (i : Nat) (target : String) : Prop :=
  ∃ w c s rest, ts.drop i = w :: c :: s :: rest ∧ w.token = .identifier "ref"
    ∧ c.isMark .colon = true ∧ s.token.closedString? = some target

/-- At position `i` of the tokens stands `type:` with a dotted path, at
the head of which any token may stand, whose last name is `ObjectId`. -/
def IdTypeAt (ts : List PlacedToken) (i : Nat) : Prop :=
  ∃ w c h us rest, ts.drop i = w :: c :: h :: (us ++ rest) ∧ w.token = .identifier "type"
    ∧ c.isMark .colon = true ∧ Dots h.token.identifier? us (some "ObjectId") ∧ ¬Continues rest

/-- The tokens begin with a bracket, or a bracket with a brace directly
behind it stands among them. -/
def ArrayShaped (ts : List PlacedToken) : Prop :=
  (∃ b rest, ts = b :: rest ∧ b.isMark .leftBracket = true)
    ∨ ∃ i b o rest, ts.drop i = b :: o :: rest ∧ b.isMark .leftBracket = true
      ∧ o.isMark .leftBrace = true

section

variable {ts : List PlacedToken} {i : Nat} {target : String}

theorem refTarget?_eq_some_iff : refTarget? (ts.drop i) = some target ↔ RefAt ts i target := by
  constructor
  · intro h
    unfold refTarget? at h
    split at h
    · next w c s rest hdrop =>
        split at h
        · next hmarks =>
            obtain ⟨hw, hc⟩ := Bool.and_eq_true_iff.1 hmarks
            exact ⟨w, c, s, rest, hdrop, of_decide_eq_true hw, hc, h⟩
        · cases h
    · cases h
  · rintro ⟨w, c, s, rest, hdrop, hw, hc, hs⟩
    rw [hdrop, refTarget?, hw, hc]
    exact hs

theorem pathEnd?_of_not_continues {rest : List PlacedToken} (hrest : ¬Continues rest)
    (last : Option String) : pathEnd? last rest = last := by
  match rest with
  | [] => rfl
  | [d] => rfl
  | d :: n :: rest =>
      rw [pathEnd?]
      split
      · next name hn =>
          rw [if_neg]
          exact fun hd => hrest ⟨d, n, rest, rfl, hd, by rw [hn]; rfl⟩
      · rfl

/-- The path goes on as far as it can. -/
theorem pathEnd?_spec (first : Option String) (ts : List PlacedToken) :
    ∃ us rest, ts = us ++ rest ∧ Dots first us (pathEnd? first ts) ∧ ¬Continues rest := by
  fun_induction pathEnd? first ts with
  | case1 last d n ts name hn hd ih =>
      obtain ⟨us, rest, rfl, hus, hrest⟩ := ih
      exact ⟨d :: n :: us, rest, rfl, .cons hd hn hus, hrest⟩
  | case2 last d n ts name hn hd =>
      exact ⟨[], _, rfl, .nil _, not_continues (Bool.eq_false_iff.2 hd)⟩
  | case3 last d n ts hn =>
      refine ⟨[], _, rfl, .nil _, ?_⟩
      rintro ⟨d', n', rest, hts, -, hn'⟩
      cases hts
      rw [hn] at hn'
      cases hn'
  | case4 last ts hts =>
      refine ⟨[], _, rfl, .nil _, ?_⟩
      rintro ⟨d, n, rest, rfl, -⟩
      exact hts d n rest rfl

theorem pathEnd?_append {first last : Option String} {us rest : List PlacedToken}
    (hus : Dots first us last) (hrest : ¬Continues rest) : pathEnd? first (us ++ rest) = last := by
  induction hus with
  | nil => exact pathEnd?_of_not_continues hrest _
  | cons hd hn _ ih =>
      rw [List.cons_append, List.cons_append, pathEnd?, hn]
      simp only [hd, if_true, ih]

theorem beginsIdType_iff : beginsIdType (ts.drop i) = true ↔ IdTypeAt ts i := by
  constructor
  · intro h
    unfold beginsIdType at h
    split at h
    · next w c h' rest hdrop =>
        simp only [Bool.and_eq_true, decide_eq_true_eq] at h
        obtain ⟨⟨hw, hc⟩, hend⟩ := h
        obtain ⟨us, rest, rfl, hus, hrest⟩ := pathEnd?_spec h'.token.identifier? rest
        exact ⟨w, c, h', us, rest, hdrop, hw, hc, hend ▸ hus, hrest⟩
    · cases h
  · rintro ⟨w, c, h, us, rest, hdrop, hw, hc, hus, hrest⟩
    rw [hdrop, beginsIdType, pathEnd?_append hus hrest, hw, hc]
    simp

theorem beginsObjectArray_iff :
    beginsObjectArray (ts.drop i) = true ↔ ∃ b o rest, ts.drop i = b :: o :: rest
      ∧ b.isMark .leftBracket = true ∧ o.isMark .leftBrace = true := by
  constructor
  · intro h
    unfold beginsObjectArray at h
    split at h
    · next b o rest hdrop => exact ⟨b, o, rest, hdrop, Bool.and_eq_true_iff.1 h⟩
    · cases h
  · rintro ⟨b, o, rest, hdrop, hb, ho⟩
    rw [hdrop, beginsObjectArray, hb, ho]
    rfl

theorem holdsObjectArray_iff :
    holdsObjectArray ts = true ↔ ∃ i, beginsObjectArray (ts.drop i) = true := by
  induction ts with
  | nil => simp [holdsObjectArray, beginsObjectArray]
  | cons t ts ih =>
      rw [holdsObjectArray, Bool.or_eq_true, ih]
      constructor
      · rintro (h | ⟨i, h⟩)
        · exact ⟨0, h⟩
        · exact ⟨i + 1, h⟩
      · rintro ⟨i, h⟩
        cases i with
        | zero => exact Or.inl h
        | succ i => exact Or.inr ⟨i, h⟩

theorem isArrayShaped_iff : isArrayShaped ts = true ↔ ArrayShaped ts := by
  have hholds : holdsObjectArray ts = true ↔ _ := holdsObjectArray_iff
  simp only [beginsObjectArray_iff] at hholds
  unfold ArrayShaped
  rw [← hholds]
  cases ts with
  | nil => simp [isArrayShaped, holdsObjectArray]
  | cons t ts => simp [isArrayShaped]

theorem holdsIdType_iff {n : Nat} :
    holdsIdType n ts = true ↔ ∃ j < n, beginsIdType (ts.drop j) = true := by
  induction n generalizing ts with
  | zero => simp [holdsIdType]
  | succ n ih =>
      cases ts with
      | nil => simp [holdsIdType, beginsIdType]
      | cons t ts =>
          rw [holdsIdType, Bool.or_eq_true, ih]
          constructor
          · rintro (h | ⟨j, hj, h⟩)
            · exact ⟨0, Nat.zero_lt_succ n, h⟩
            · exact ⟨j + 1, Nat.succ_lt_succ hj, h⟩
          · rintro ⟨j, hj, h⟩
            cases j with
            | zero => exact Or.inl h
            | succ j => exact Or.inr ⟨j, Nat.lt_of_succ_lt_succ hj, h⟩

end

-- ==================================================== searching

/-- The function `search` goes through a token list from the front, up
to the first position where `here` finds something. -/
structure Searches {β : Type} (search here : List PlacedToken → Option β) : Prop where
  search_nil : search [] = none
  here_nil : here [] = none
  search_cons : ∀ t ts, search (t :: ts) = (here (t :: ts)).or (search ts)

namespace Searches

variable {β : Type} {search here : List PlacedToken → Option β} (h : Searches search here)
  {ts : List PlacedToken} {x : β}
include h

theorem eq_none_iff : search ts = none ↔ ∀ i, here (ts.drop i) = none := by
  induction ts with
  | nil => simp [h.search_nil, h.here_nil]
  | cons t ts ih =>
      rw [h.search_cons, Option.or_eq_none_iff, ih]
      constructor
      · rintro ⟨hfirst, hlater⟩ i
        cases i with
        | zero => exact hfirst
        | succ i => exact hlater i
      · exact fun hall => ⟨hall 0, fun i => hall (i + 1)⟩

theorem eq_some (hx : search ts = some x) :
    ∃ i, here (ts.drop i) = some x ∧ ∀ j < i, here (ts.drop j) = none := by
  induction ts with
  | nil =>
      rw [h.search_nil] at hx
      cases hx
  | cons t ts ih =>
      rw [h.search_cons] at hx
      cases hfirst : here (t :: ts) with
      | some y =>
          rw [hfirst] at hx
          exact ⟨0, hfirst.trans hx, fun j hj => absurd hj (Nat.not_lt_zero j)⟩
      | none =>
          rw [hfirst] at hx
          obtain ⟨i, hi, hbefore⟩ := ih hx
          refine ⟨i + 1, hi, fun j hj => ?_⟩
          cases j with
          | zero => exact hfirst
          | succ j => exact hbefore j (Nat.lt_of_succ_lt_succ hj)

end Searches

theorem firstRef?_searches : Searches firstRef? refTarget? where
  search_nil := rfl
  here_nil := rfl
  search_cons t ts := by
    rw [firstRef?]
    cases refTarget? (t :: ts) <;> rfl

theorem behindIdType?_searches :
    Searches behindIdType? fun ts => if beginsIdType ts then some ts.tail else none where
  search_nil := rfl
  here_nil := rfl
  search_cons t ts := by
    rw [behindIdType?]
    split <;> rfl

theorem arrayTarget?_searches :
    Searches arrayTarget? fun ts =>
      if beginsObjectArray ts then objectTarget? ts.tail.tail else none where
  search_nil := rfl
  here_nil := rfl
  search_cons t ts := by
    rw [arrayTarget?]
    show _ = (if beginsObjectArray (t :: ts) then objectTarget? ts.tail else none).or _
    cases (if beginsObjectArray (t :: ts) then objectTarget? ts.tail else none) <;> rfl

-- ==================================================== targets

/-- Of the `ref` markers at the given positions the first has this
target. -/
def FirstRef (ts : List PlacedToken) (place : Nat → Prop) (target : String) : Prop :=
  ∃ i, place i ∧ RefAt ts i target ∧ ∀ j t, place j → RefAt ts j t → i ≤ j

/-- The position lies behind that of the first `ObjectId` type. -/
def BehindIdType (ts : List PlacedToken) (i : Nat) : Prop :=
  ∃ m < i, IdTypeAt ts m ∧ ∀ j, IdTypeAt ts j → m ≤ j

/-- At position `i` stands a bracket with an object literal directly
behind it, whose closing brace stands at position `stop`. -/
def LiteralAt (ts : List PlacedToken) (i stop : Nat) : Prop :=
  ∃ b o inside c rest, ts.drop i = b :: o :: (inside ++ c :: rest) ∧ stop = i + 2 + inside.length
    ∧ b.isMark .leftBracket = true ∧ o.isMark .leftBrace = true ∧ NestedBraces inside
    ∧ c.isMark .rightBrace = true

/-- The position lies between the braces of such a literal. -/
def InLiteral (i stop j : Nat) : Prop :=
  i + 1 < j ∧ j < stop

/-- Both markers begin between the braces of the literal. -/
def Qualifies (ts : List PlacedToken) (i stop : Nat) : Prop :=
  LiteralAt ts i stop ∧ (∃ j, InLiteral i stop j ∧ IdTypeAt ts j)
    ∧ ∃ j, InLiteral i stop j ∧ ∃ t, RefAt ts j t

/-- The target is that of the first `ref` behind the first `ObjectId`
type, if there is one; else of the first `ref` in the first object
literal in an array that holds both markers, if there is one; else of
the first `ref` of all. -/
def Designates (ts : List PlacedToken) (target : String) : Prop :=
  FirstRef ts (BehindIdType ts) target
    ∨ (¬∃ t, FirstRef ts (BehindIdType ts) t) ∧ (∃ i stop, Qualifies ts i stop
        ∧ (∀ i' stop', Qualifies ts i' stop' → i ≤ i') ∧ FirstRef ts (InLiteral i stop) target)
    ∨ (¬∃ t, FirstRef ts (BehindIdType ts) t) ∧ (¬∃ i stop, Qualifies ts i stop)
        ∧ FirstRef ts (fun _ => True) target

section

variable {ts : List PlacedToken} {target : String}

theorem refAt_drop {n i : Nat} : RefAt (ts.drop n) i target ↔ RefAt ts (n + i) target := by
  unfold RefAt
  rw [List.drop_drop]

theorem idTypeAt_drop {n i : Nat} : IdTypeAt (ts.drop n) i ↔ IdTypeAt ts (n + i) := by
  unfold IdTypeAt
  rw [List.drop_drop]

theorem not_refAt {i : Nat} (h : refTarget? (ts.drop i) = none) : ¬RefAt ts i target := by
  rw [← refTarget?_eq_some_iff, h]
  exact fun hnone => by cases hnone

/-- An `ObjectId` type is no `ref`. -/
theorem not_refAt_of_idTypeAt {i : Nat} (h : IdTypeAt ts i) : ¬RefAt ts i target := by
  rintro ⟨w', c', s, rest', hdrop', hw', -⟩
  obtain ⟨w, c, h, us, rest, hdrop, hw, -⟩ := h
  rw [hdrop] at hdrop'
  obtain ⟨rfl, -⟩ := List.cons.inj hdrop'
  rw [hw] at hw'
  exact absurd hw' (by decide)

theorem firstRef_of_firstRef? (h : firstRef? ts = some target) :
    FirstRef ts (fun _ => True) target := by
  obtain ⟨i, hi, hbefore⟩ := firstRef?_searches.eq_some h
  refine ⟨i, trivial, refTarget?_eq_some_iff.1 hi, fun j t _ hj => Nat.le_of_not_lt fun hlt => ?_⟩
  exact not_refAt (hbefore j hlt) hj

theorem firstRef?_eq_none_iff : firstRef? ts = none ↔ ¬∃ i t, RefAt ts i t := by
  rw [firstRef?_searches.eq_none_iff]
  constructor
  · rintro h ⟨i, t, hi⟩
    exact not_refAt (h i) hi
  · intro h i
    cases hi : refTarget? (ts.drop i) with
    | none => rfl
    | some t => exact absurd ⟨i, t, refTarget?_eq_some_iff.1 hi⟩ h

-- ==================================================== rules

/-- Where the tokens behind the first `ObjectId` type begin. -/
theorem behindIdType?_spec {us : List PlacedToken} (h : behindIdType? ts = some us) :
    ∃ m, us = ts.drop (m + 1) ∧ IdTypeAt ts m ∧ ∀ j, IdTypeAt ts j → m ≤ j := by
  obtain ⟨m, hm, hbefore⟩ := behindIdType?_searches.eq_some h
  by_cases hbegins : beginsIdType (ts.drop m) = true
  · rw [if_pos hbegins] at hm
    cases hm
    refine ⟨m, List.tail_drop, beginsIdType_iff.1 hbegins,
      fun j hj => Nat.le_of_not_lt fun hlt => ?_⟩
    have hnone := hbefore j hlt
    rw [if_pos (beginsIdType_iff.2 hj)] at hnone
    cases hnone
  · rw [if_neg hbegins] at hm
    cases hm

/-- Rule 1 takes the first `ref` behind the first `ObjectId` type. -/
theorem typedTarget?_eq_some (h : typedTarget? ts = some target) :
    FirstRef ts (BehindIdType ts) target := by
  obtain ⟨us, hus, hfirst⟩ := Option.bind_eq_some_iff.1 h
  obtain ⟨m, rfl, hm, hleast⟩ := behindIdType?_spec hus
  obtain ⟨i, -, hi, hmin⟩ := firstRef_of_firstRef? hfirst
  refine ⟨m + 1 + i, ⟨m, by omega, hm, hleast⟩, refAt_drop.1 hi, ?_⟩
  rintro j t ⟨m', hlt, hm', hleast'⟩ hj
  have hsame : m ≤ m' := hleast m' hm'
  obtain ⟨k, rfl⟩ : ∃ k, j = m + 1 + k := ⟨j - (m + 1), by omega⟩
  have hle := hmin k t trivial (refAt_drop.2 hj)
  omega

theorem typedTarget?_eq_none (h : typedTarget? ts = none) :
    ¬∃ t, FirstRef ts (BehindIdType ts) t := by
  rintro ⟨t, i, ⟨m, hlt, hm, hleast⟩, hi, -⟩
  cases hus : behindIdType? ts with
  | none =>
      have hnone := behindIdType?_searches.eq_none_iff.1 hus m
      rw [if_pos (beginsIdType_iff.2 hm)] at hnone
      cases hnone
  | some us =>
      obtain ⟨m', rfl, hm', hleast'⟩ := behindIdType?_spec hus
      obtain ⟨k, rfl⟩ : ∃ k, i = m' + 1 + k :=
        ⟨i - (m' + 1), by have hsame := hleast' m hm; have hsame' := hleast m' hm'; omega⟩
      have hfirst : firstRef? (ts.drop (m' + 1)) = none := by
        rw [← h, typedTarget?, hus]
        rfl
      exact firstRef?_eq_none_iff.1 hfirst ⟨k, t, refAt_drop.2 hi⟩

/-- Where rule 1 does not apply, rule 3 takes the first `ref` of all. -/
theorem refBeforeIdType?_eq (h : typedTarget? ts = none) : refBeforeIdType? ts = firstRef? ts := by
  induction ts with
  | nil => rfl
  | cons t ts ih =>
      rw [refBeforeIdType?, firstRef?]
      by_cases hbegins : beginsIdType (t :: ts) = true
      · have hhere : refTarget? (t :: ts) = none := by
          rw [Option.eq_none_iff_forall_ne_some]
          intro x hx
          have hid : IdTypeAt (t :: ts) 0 := beginsIdType_iff.1 hbegins
          exact not_refAt_of_idTypeAt hid (refTarget?_eq_some_iff.1 hx)
        have hlater : firstRef? ts = none := by
          rw [← h, typedTarget?, behindIdType?, if_pos hbegins]
          rfl
        rw [if_pos hbegins, hhere]
        exact hlater.symm
      · have hlater : typedTarget? ts = none := by
          rw [← h, typedTarget?, typedTarget?, behindIdType?, if_neg hbegins]
        rw [if_neg hbegins, ih hlater]

-- ==================================================== object literals

/-- The brace that closes a literal is no part of a `ref`. -/
theorem refTarget?_append {c : PlacedToken} (hc : c.isMark .rightBrace = true)
    {us : List PlacedToken} (hus : us ≠ []) (rest : List PlacedToken) :
    refTarget? (us ++ c :: rest) = refTarget? us := by
  have htoken : c.token = .mark .rightBrace := of_decide_eq_true hc
  match us with
  | [] => exact absurd rfl hus
  | [w] =>
      cases rest with
      | nil => rfl
      | cons s rest =>
          show (if _ && c.isMark .colon then _ else _) = none
          rw [PlacedToken.isMark_of_ne hc Mark.noConfusion, Bool.and_false]
          rfl
  | [w, d] =>
      show (if _ then c.token.closedString? else none) = none
      rw [htoken]
      split <;> rfl
  | w :: d :: s :: us => rfl

/-- Positions in a literal, counted from its first token. -/
theorem exists_inLiteral {i n : Nat} {p : Nat → Prop} :
    (∃ j, InLiteral i (i + 2 + n) j ∧ p j) ↔ ∃ k < n, p (i + 2 + k) := by
  constructor
  · rintro ⟨j, ⟨hlow, hhigh⟩, hj⟩
    obtain ⟨k, rfl⟩ : ∃ k, j = i + 2 + k := ⟨j - (i + 2), by omega⟩
    exact ⟨k, by omega, hj⟩
  · rintro ⟨k, hk, hj⟩
    exact ⟨i + 2 + k, ⟨by omega, by omega⟩, hj⟩

theorem refAt_inside {c : PlacedToken} (hc : c.isMark .rightBrace = true)
    (inside rest : List PlacedToken) {j : Nat} :
    RefAt inside j target ↔ j < inside.length ∧ RefAt (inside ++ c :: rest) j target := by
  by_cases hj : j < inside.length
  · have hne : inside.drop j ≠ [] := by
      rw [ne_eq, List.drop_eq_nil_iff]
      omega
    rw [← refTarget?_eq_some_iff, ← refTarget?_eq_some_iff,
      List.drop_append_of_le_length (Nat.le_of_lt hj), refTarget?_append hc hne]
    exact (and_iff_right hj).symm
  · constructor
    · rintro ⟨w, d, s, rest', hdrop, -⟩
      rw [List.drop_eq_nil_iff.2 (by omega)] at hdrop
      cases hdrop
    · exact fun h => absurd h.1 hj

/-- The first `ref` in a literal. -/
theorem firstRef_inside {i : Nat} {inside rest : List PlacedToken} {b o c : PlacedToken}
    (hdrop : ts.drop i = b :: o :: (inside ++ c :: rest)) (hc : c.isMark .rightBrace = true)
    (h : firstRef? inside = some target) :
    FirstRef ts (InLiteral i (i + 2 + inside.length)) target := by
  have hbehind : ts.drop (i + 2) = inside ++ c :: rest := by
    rw [← List.drop_drop, hdrop]
    rfl
  have hinside : ∀ k t, RefAt inside k t ↔ k < inside.length ∧ RefAt ts (i + 2 + k) t := by
    intro k t
    rw [refAt_inside hc inside rest, ← hbehind, refAt_drop]
  obtain ⟨k, -, hk, hmin⟩ := firstRef_of_firstRef? h
  obtain ⟨hlt, href⟩ := (hinside k target).1 hk
  refine ⟨i + 2 + k, ⟨by omega, by omega⟩, href, ?_⟩
  rintro j t ⟨hlow, hhigh⟩ hj
  obtain ⟨k', rfl⟩ : ∃ k', j = i + 2 + k' := ⟨j - (i + 2), by omega⟩
  have hle := hmin k' t trivial ((hinside k' t).2 ⟨by omega, hj⟩)
  omega

/-- A literal that qualifies is read token by token between its
braces. -/
theorem qualifies_iff {i : Nat} {inside rest : List PlacedToken} {b o c : PlacedToken}
    (hdrop : ts.drop i = b :: o :: (inside ++ c :: rest)) (hb : b.isMark .leftBracket = true)
    (ho : o.isMark .leftBrace = true) (hinside : NestedBraces inside)
    (hc : c.isMark .rightBrace = true) :
    Qualifies ts i (i + 2 + inside.length) ↔
      holdsIdType inside.length (inside ++ c :: rest) = true ∧ firstRef? inside ≠ none := by
  have hbehind : ts.drop (i + 2) = inside ++ c :: rest := by
    rw [← List.drop_drop, hdrop]
    rfl
  have hliteral : LiteralAt ts i (i + 2 + inside.length) :=
    ⟨b, o, inside, c, rest, hdrop, rfl, hb, ho, hinside, hc⟩
  have hid : holdsIdType inside.length (inside ++ c :: rest) = true ↔
      ∃ j < inside.length, IdTypeAt ts (i + 2 + j) := by
    rw [holdsIdType_iff, ← hbehind]
    simp only [beginsIdType_iff, idTypeAt_drop]
  have href : firstRef? inside ≠ none ↔ ∃ j < inside.length, ∃ t, RefAt ts (i + 2 + j) t := by
    rw [ne_eq, firstRef?_eq_none_iff, Classical.not_not]
    simp only [refAt_inside hc inside rest, exists_and_left]
    rw [← hbehind]
    simp only [refAt_drop]
  rw [Qualifies, and_iff_right hliteral, exists_inLiteral, exists_inLiteral, hid, href]

/-- The literal that rule 2 reads qualifies. -/
theorem objectTarget?_eq_some {i : Nat}
    (h : (if beginsObjectArray (ts.drop i) then objectTarget? (ts.drop i).tail.tail else none) =
      some target) :
    ∃ stop, Qualifies ts i stop ∧ FirstRef ts (InLiteral i stop) target := by
  by_cases hbegins : beginsObjectArray (ts.drop i) = true
  · obtain ⟨b, o, us, hdrop, hb, ho⟩ := beginsObjectArray_iff.1 hbegins
    rw [if_pos hbegins, hdrop, List.tail_cons, List.tail_cons, objectTarget?] at h
    split at h
    · next inside c rest hclose =>
        obtain ⟨rfl, hc, hinside⟩ := closeBraces_eq_some_iff.1 hclose
        split at h
        · next hid =>
            refine ⟨i + 2 + inside.length, (qualifies_iff hdrop hb ho hinside hc).2
              ⟨hid, by rw [h]; exact Option.some_ne_none _⟩, ?_⟩
            exact firstRef_inside hdrop hc h
        · cases h
    · cases h
  · rw [if_neg hbegins] at h
    cases h

theorem objectTarget?_eq_none {i : Nat}
    (h : (if beginsObjectArray (ts.drop i) then objectTarget? (ts.drop i).tail.tail else none) =
      none) (stop : Nat) : ¬Qualifies ts i stop := by
  rintro hqualifies
  obtain ⟨b, o, inside, c, rest, hdrop, rfl, hb, ho, hinside, hc⟩ := hqualifies.1
  obtain ⟨hid, href⟩ := (qualifies_iff hdrop hb ho hinside hc).1 hqualifies
  rw [if_pos (beginsObjectArray_iff.2 ⟨b, o, _, hdrop, hb, ho⟩), hdrop] at h
  simp only [List.tail_cons, objectTarget?, closeBraces_eq_some_iff.2 ⟨rfl, hc, hinside⟩, hid,
    if_true] at h
  exact href h

/-- Rule 2 takes the first `ref` in the first literal that qualifies. -/
theorem arrayTarget?_eq_some (h : arrayTarget? ts = some target) :
    ∃ i stop, Qualifies ts i stop ∧ (∀ i' stop', Qualifies ts i' stop' → i ≤ i')
      ∧ FirstRef ts (InLiteral i stop) target := by
  obtain ⟨i, hi, hbefore⟩ := arrayTarget?_searches.eq_some h
  obtain ⟨stop, hqualifies, hfirst⟩ := objectTarget?_eq_some hi
  refine ⟨i, stop, hqualifies, fun i' stop' h' => Nat.le_of_not_lt fun hlt => ?_, hfirst⟩
  exact objectTarget?_eq_none (hbefore i' hlt) stop' h'

theorem arrayTarget?_eq_none (h : arrayTarget? ts = none) : ¬∃ i stop, Qualifies ts i stop := by
  rintro ⟨i, stop, hqualifies⟩
  exact objectTarget?_eq_none (arrayTarget?_searches.eq_none_iff.1 h i) stop hqualifies

/-- A literal in an array makes the tokens array shaped. -/
theorem Qualifies.arrayShaped {i stop : Nat} (h : Qualifies ts i stop) : ArrayShaped ts := by
  obtain ⟨⟨b, o, inside, c, rest, hdrop, -, hb, ho, -⟩, -⟩ := h
  exact Or.inr ⟨i, b, o, _, hdrop, hb, ho⟩

-- ==================================================== foreign keys

/-- The foreign key of a definition: its target, by the first rule that
applies, and its cardinality, by the shape alone. -/
theorem read?_cases (schema : String) (catalog : Catalog) (ts : List PlacedToken) :
    (∃ t, read? schema catalog ts = some (.foreignKey t (.foreignKey (isArrayShaped ts)))
        ∧ Designates ts t ∧ ∃ i t, RefAt ts i t)
      ∨ read? schema catalog ts =
          (embedded? schema catalog 0 none ts).map (fun e => .embedded e.1 e.2)
        ∧ ¬∃ i t, RefAt ts i t := by
  have hplace : ∀ {place t}, FirstRef ts place t → ∃ i t, RefAt ts i t :=
    fun ⟨i, _, hi, _⟩ => ⟨i, _, hi⟩
  unfold read?
  cases htyped : typedTarget? ts with
  | some t =>
      have hfirst := typedTarget?_eq_some htyped
      exact Or.inl ⟨t, rfl, Or.inl hfirst, hplace hfirst⟩
  | none =>
      have hbehind := typedTarget?_eq_none htyped
      cases harray : arrayTarget? ts with
      | some t =>
          obtain ⟨i, stop, hqualifies, hleast, hfirst⟩ := arrayTarget?_eq_some harray
          refine Or.inl ⟨t, ?_, Or.inr (Or.inl ⟨hbehind, i, stop, hqualifies, hleast, hfirst⟩),
            hplace hfirst⟩
          rw [isArrayShaped_iff.2 hqualifies.arrayShaped]
          rfl
      | none =>
          rw [refBeforeIdType?_eq htyped]
          cases hall : firstRef? ts with
          | some t =>
              have hfirst := firstRef_of_firstRef? hall
              exact Or.inl ⟨t, rfl, Or.inr (Or.inr ⟨hbehind, arrayTarget?_eq_none harray, hfirst⟩),
                hplace hfirst⟩
          | none => exact Or.inr ⟨rfl, firstRef?_eq_none_iff.1 hall⟩

end

end Reference

theorem RelationKind.foreignKey_eq_oneToMany {many : Bool} :
    RelationKind.foreignKey many = .oneToMany ↔ many = true := by
  cases many <;> simp [RelationKind.foreignKey]

open Reference in
/-- A field is a foreign key exactly if a `ref` with a target stands
anywhere in its definition, and embeds a schema only if none does. A
foreign key leads to many exactly if the definition is array shaped,
whichever rule found it, and leads to the target that the order of the
markers designates. -/
theorem Field.foreignKey_of_markers (schema : String) (f : Field) (catalog : Catalog) :
    ((∃ r, f.relationship? schema catalog = some r ∧ r.mechanism = .foreignKey) ↔
        ∃ i t, RefAt (significant (tokenize f.definition)) i t)
      ∧ ∀ r, f.relationship? schema catalog = some r →
        (r.mechanism = .embedded → ¬∃ i t, RefAt (significant (tokenize f.definition)) i t)
          ∧ (r.mechanism = .foreignKey →
            (r.kind = .oneToMany ↔ ArrayShaped (significant (tokenize f.definition)))
              ∧ Designates (significant (tokenize f.definition)) r.target) := by
  unfold Field.relationship?
  generalize significant (tokenize f.definition) = ts
  rcases read?_cases schema catalog ts with ⟨t, hread, hdesignates, href⟩ | ⟨hread, hnone⟩
  · rw [hread, Option.map_some]
    refine ⟨⟨fun _ => href, fun _ => ⟨_, rfl, rfl⟩⟩, ?_⟩
    rintro r hr
    obtain rfl := Option.some.inj hr
    refine ⟨fun hembedded => ?_, fun _ => ⟨?_, hdesignates⟩⟩
    · cases hembedded
    · exact RelationKind.foreignKey_eq_oneToMany.trans isArrayShaped_iff
  · rw [hread, Option.map_map]
    have hembedded : ∀ r, (embedded? schema catalog 0 none ts).map
        (Reference.relationship schema f.name ∘ fun e => .embedded e.1 e.2) = some r →
          r.mechanism = .embedded := by
      intro r hr
      obtain ⟨e, -, rfl⟩ := Option.map_eq_some_iff.1 hr
      rfl
    refine ⟨⟨?_, fun href => absurd href hnone⟩, fun r hr => ⟨fun _ => hnone, fun hkey => ?_⟩⟩
    · rintro ⟨r, hr, hkey⟩
      rw [hembedded r hr] at hkey
      cases hkey
    · rw [hembedded r hr] at hkey
      cases hkey

/-- A field with one `ref` in front of an array and one in an object in
it, which holds the only `ObjectId` type behind both. -/
def Field.nestedKey : Field :=
  ⟨"f", "\x7b ref: 'X', a: [\x7b ref: 'A', type: m.ObjectId \x7d] \x7d".toList, Span.of 0 49⟩

open Reference in
theorem Field.foreignKey_of_markers_nestedKey :
    Field.nestedKey.relationship? "S" .empty = some (.foreignKey "S" "A" "f" .oneToMany)
      ∧ ArrayShaped (significant (tokenize Field.nestedKey.definition))
      ∧ Designates (significant (tokenize Field.nestedKey.definition)) "A" := by
  have hedge : Field.nestedKey.relationship? "S" .empty =
      some (.foreignKey "S" "A" "f" .oneToMany) := by
    decide +kernel
  obtain ⟨hmany, htarget⟩ :=
    ((Field.foreignKey_of_markers "S" Field.nestedKey .empty).2 _ hedge).2 rfl
  exact ⟨hedge, hmany.1 rfl, htarget⟩

end SchemaAtlas
