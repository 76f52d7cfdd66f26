/-
What the text of a document tells. Binary32 values are left out, since
all that are not finite are written `null`; the documents without them
are the exact ones, and their text tells them.

The first character of a text tells which kind of document it is. From
there on every kind shows where it ends: a string at its closing mark, an
array or an object at the bracket that stands where a comma could, a
natural number where no digit follows. The last is why a text is only
looked at in front of something that starts with no digit
(`EndsNumber`); in a document that is a comma, a line break or a bracket.

- `Json.IsExact`: documents without binary32 values.
- `Json.IsDelimited`: parts whose text tells them and where they end.
- `Json.commas_append_inj`, `Json.bracketed_append_inj`: a list of such
  parts, set apart by commas, between brackets.
- `Json.IsExact.isDelimited`: exact documents, by induction.
- `Json.IsExact.pretty_inj`: their whole text.
-/
import SchemaAtlas.Json.Printer
import SchemaAtlas.Proofs.Json.Quoted
import SchemaAtlas.Proofs.Text.Natural

namespace SchemaAtlas

namespace Json

open Text (EndsNumber)

variable {style : Style} {depth : Nat}

-- ==================================================== exact documents

/-- Documents without binary32 values. -/
inductive IsExact : Value → Prop
  | null : IsExact .null
  | boolean (b : Bool) : IsExact (.boolean b)
  | natural (n : Nat) : IsExact (.natural n)
  | string (s : String) : IsExact (.string s)
  | array {vs : List Value} (h : ∀ v ∈ vs, IsExact v) : IsExact (.array vs)
  | object {ms : List (String × Value)} (h : ∀ m ∈ ms, IsExact m.2) : IsExact (.object ms)

/-- A list of strings is exact. -/
theorem IsExact.strings (ss : List String) : IsExact (.strings ss) := by
  apply IsExact.array
  intro v hv
  obtain ⟨s, -, rfl⟩ := List.mem_map.1 hv
  exact .string s

-- ==================================================== ends

/-- Behind a break, a text starts with the break or as it would without. -/
theorem head?_lineBreak_append (style : Style) (depth : Nat) (c : Char) (t : Text) :
    (style.lineBreak depth ++ c :: t).head? = some '\n'
      ∨ (style.lineBreak depth ++ c :: t).head? = some c := by
  cases style with
  | compact => exact .inr rfl
  | pretty => exact .inl rfl

-- ==================================================== lists of parts

section

variable {α : Type} {p : α → Prop} {f : α → Text} {xs ys : List α} {r s : Text}

/-- Parts whose text tells them, among the parts `p`, and where they end. -/
def IsDelimited (p : α → Prop) (f : α → Text) (x : α) : Prop :=
  ∀ y, p y → ∀ r s, EndsNumber r → EndsNumber s → f x ++ r = f y ++ s → x = y ∧ r = s

/-- Parts go on at a comma or end with the list. -/
theorem ends_commas (h : EndsNumber r) : EndsNumber (xs.flatMap (fun x => ',' :: f x) ++ r) := by
  cases xs with
  | nil => exact h
  | cons x xs =>
      rintro c ⟨⟩
      rfl

/-- Texts that neither a number nor a list goes on into. -/
def EndsList (t : Text) : Prop :=
  EndsNumber t ∧ t.head? ≠ some ','

/-- Parts after commas tell themselves and what is behind them. -/
theorem commas_append_inj (hxs : ∀ x ∈ xs, IsDelimited p f x) (hys : ∀ y ∈ ys, p y)
    (hr : EndsList r) (hs : EndsList s)
    (h : xs.flatMap (fun x => ',' :: f x) ++ r = ys.flatMap (fun y => ',' :: f y) ++ s) :
    xs = ys ∧ r = s := by
  induction xs generalizing ys with
  | nil =>
      cases ys with
      | nil => exact ⟨rfl, h⟩
      | cons y ys => exact absurd (congrArg List.head? h) hr.2
  | cons x xs ih =>
      cases ys with
      | nil => exact absurd (congrArg List.head? h).symm hs.2
      | cons y ys =>
          rw [List.forall_mem_cons] at hxs hys
          rw [List.flatMap_cons, List.flatMap_cons, List.cons_append, List.cons_append,
            List.cons_append, List.cons_append, List.append_assoc, List.append_assoc] at h
          obtain ⟨rfl, hrest⟩ :=
            hxs.1 y hys.1 _ _ (ends_commas hr.1) (ends_commas hs.1) (List.tail_eq_of_cons_eq h)
          obtain ⟨rfl, hbehind⟩ := ih hxs.2 hys.2 hrest
          exact ⟨rfl, hbehind⟩

/-- A break in front of a part leaves it told. -/
theorem IsDelimited.lineBreak {x : α} (h : IsDelimited p f x) :
    IsDelimited p (fun y => style.lineBreak depth ++ f y) x := by
  intro y hy r s hr hs heq
  rw [List.append_assoc, List.append_assoc] at heq
  exact h y hy r s hr hs (List.append_cancel_left heq)

/-- Parts between brackets, with a break before each and before the
closing bracket, if there are any parts. -/
def bracketed (style : Style) (depth : Nat) (opening closing : Char) (f : α → Text) :
    List α → Text
  | [] => [opening, closing]
  | x :: xs =>
      opening :: (style.lineBreak (depth + 1) ++ f x)
        ++ xs.flatMap (fun x => ',' :: (style.lineBreak (depth + 1) ++ f x))
        ++ style.lineBreak depth ++ [closing]

/-- The first part, the parts behind it and what is behind the bracket. -/
theorem bracketed_cons_append (opening closing : Char) (x : α) :
    bracketed style depth opening closing f (x :: xs) ++ r =
      opening :: ((style.lineBreak (depth + 1) ++ f x)
        ++ (xs.flatMap (fun x => ',' :: (style.lineBreak (depth + 1) ++ f x))
          ++ (style.lineBreak depth ++ closing :: r))) := by
  rw [bracketed, List.append_assoc, List.append_assoc, List.append_assoc, List.cons_append]
  rfl

section

variable {opening closing : Char} (hclosing : closing = ']' ∨ closing = '}')

include hclosing

/-- In front of the closing bracket everything ends. -/
theorem endsList_closing (style : Style) (depth : Nat) (t : Text) :
    EndsList (style.lineBreak depth ++ closing :: t) := by
  rw [EndsList, EndsNumber]
  rcases head?_lineBreak_append style depth closing t with h | h
  · rw [h]
    exact ⟨by rintro c ⟨⟩; rfl, by decide⟩
  · rw [h]
    rcases hclosing with rfl | rfl
    · exact ⟨by rintro c ⟨⟩; rfl, by decide⟩
    · exact ⟨by rintro c ⟨⟩; rfl, by decide⟩

/-- Brackets around a part differ from brackets around none. -/
theorem bracketed_cons_ne_nil {x : α} (hstart : ∃ c t, f x = c :: t ∧ c ≠ closing) :
    bracketed style depth opening closing f (x :: xs) ++ r ≠ opening :: closing :: s := by
  intro h
  obtain ⟨c, t, hc, hne⟩ := hstart
  rw [bracketed_cons_append, hc, List.append_assoc, List.cons_append] at h
  have hhead := congrArg List.head? (List.tail_eq_of_cons_eq h)
  rcases head?_lineBreak_append style (depth + 1) c _ with hbreak | hfirst
  · rw [hbreak] at hhead
    rcases hclosing with rfl | rfl <;> cases hhead
  · rw [hfirst] at hhead
    exact hne (Option.some.inj hhead)

/-- Parts between brackets tell themselves and what is behind them, where
none starts with the closing bracket. -/
theorem bracketed_append_inj (hstart : ∀ x, p x → ∃ c t, f x = c :: t ∧ c ≠ closing)
    (hxs : ∀ x ∈ xs, p x) (hys : ∀ y ∈ ys, p y) (hdelimited : ∀ x ∈ xs, IsDelimited p f x)
    (h : bracketed style depth opening closing f xs ++ r =
      bracketed style depth opening closing f ys ++ s) : xs = ys ∧ r = s := by
  cases xs with
  | nil =>
      cases ys with
      | nil => exact ⟨rfl, List.append_cancel_left h⟩
      | cons y ys =>
          exact absurd h.symm (bracketed_cons_ne_nil hclosing (hstart y (hys y List.mem_cons_self)))
  | cons x xs =>
      cases ys with
      | nil => exact absurd h (bracketed_cons_ne_nil hclosing (hstart x (hxs x List.mem_cons_self)))
      | cons y ys =>
          have hr := endsList_closing hclosing style depth r
          have hs := endsList_closing hclosing style depth s
          rw [List.forall_mem_cons] at hdelimited hys
          rw [bracketed_cons_append, bracketed_cons_append] at h
          obtain ⟨rfl, hrest⟩ := hdelimited.1.lineBreak y hys.1 _ _ (ends_commas hr.1)
            (ends_commas hs.1) (List.tail_eq_of_cons_eq h)
          obtain ⟨rfl, hbehind⟩ := commas_append_inj (fun x hx => (hdelimited.2 x hx).lineBreak)
            hys.2 hr hs hrest
          exact ⟨rfl, List.tail_eq_of_cons_eq (List.append_cancel_left hbehind)⟩

end

end

-- ==================================================== arrays and objects

/-- The items after the first, one by one. -/
theorem writeItems_eq (vs : List Value) :
    writeItems style depth vs =
      vs.flatMap fun v => ',' :: (style.lineBreak (depth + 1) ++ write style (depth + 1) v) := by
  induction vs with
  | nil => rw [writeItems]; rfl
  | cons v vs ih => rw [writeItems, ih, List.flatMap_cons]

/-- The members after the first, one by one. -/
theorem writeMembers_eq (ms : List (String × Value)) :
    writeMembers style depth ms =
      ms.flatMap fun m => ',' :: (style.lineBreak (depth + 1) ++ writeMember style depth m) := by
  induction ms with
  | nil => rw [writeMembers]; rfl
  | cons m ms ih => rw [writeMembers, ih, List.flatMap_cons]

/-- An array is its items between square brackets. -/
theorem write_array (vs : List Value) :
    write style depth (.array vs) =
      bracketed style depth '[' ']' (write style (depth + 1)) vs := by
  cases vs with
  | nil => rw [write]; rfl
  | cons v vs => rw [write, writeItems_eq]; rfl

/-- An object is its members between braces. -/
theorem write_object (ms : List (String × Value)) :
    write style depth (.object ms) =
      bracketed style depth '{' '}' (writeMember style depth) ms := by
  cases ms with
  | nil => rw [write]; rfl
  | cons m ms => rw [write, writeMembers_eq]; rfl

-- ==================================================== kinds of documents

/-- The kinds of documents that texts show by their first character. -/
inductive Shape
  | null
  | boolean (b : Bool)
  | number
  | string
  | array
  | object

/-- The kind of a document. -/
def Value.shape : Value → Shape
  | .null => .null
  | .boolean b => .boolean b
  | .natural _ | .real _ => .number
  | .string _ => .string
  | .array _ => .array
  | .object _ => .object

/-- The kind of the documents that start with a character. -/
def Shape.ofChar? (c : Char) : Option Shape :=
  if c.isDigit then some .number
  else if c = 'n' then some .null
  else if c = 't' then some (.boolean true)
  else if c = 'f' then some (.boolean false)
  else if c = '"' then some .string
  else if c = '[' then some .array
  else if c = '{' then some .object
  else none

/-- The text of an exact document starts with a character of its kind. -/
theorem IsExact.exists_write {v : Value} (hv : IsExact v) (style : Style) (depth : Nat) :
    ∃ c t, write style depth v = c :: t ∧ Shape.ofChar? c = some v.shape := by
  cases hv with
  | null => exact ⟨'n', _, by rw [write]; rfl, rfl⟩
  | boolean b =>
      cases b with
      | false => exact ⟨'f', _, by rw [write]; rfl, rfl⟩
      | true => exact ⟨'t', _, by rw [write]; rfl, rfl⟩
  | natural n =>
      obtain ⟨c, t, hn, hc⟩ := Text.exists_repr_eq_cons n
      refine ⟨c, t, by rw [write, hn], ?_⟩
      rw [Shape.ofChar?, if_pos hc]
      rfl
  | string s => exact ⟨'"', _, by rw [write]; rfl, rfl⟩
  | @array vs _ =>
      cases vs with
      | nil => exact ⟨'[', _, by rw [write], rfl⟩
      | cons v vs => exact ⟨'[', _, by rw [write_array]; rfl, rfl⟩
  | @object ms _ =>
      cases ms with
      | nil => exact ⟨'{', _, by rw [write], rfl⟩
      | cons m ms => exact ⟨'{', _, by rw [write_object]; rfl, rfl⟩

/-- Documents of different kinds differ in their first character. -/
theorem shape_eq_of_write {v w : Value} (hv : IsExact v) (hw : IsExact w) {r s : Text}
    (h : write style depth v ++ r = write style depth w ++ s) : v.shape = w.shape := by
  obtain ⟨c, t, hvt, hc⟩ := hv.exists_write style depth
  obtain ⟨d, u, hwu, hd⟩ := hw.exists_write style depth
  rw [hvt, hwu] at h
  obtain rfl : c = d := (List.cons.inj h).1
  exact Option.some.inj (hc.symm.trans hd)

/-- A member is told if its value is. -/
theorem isDelimited_writeMember {m : String × Value}
    (h : IsDelimited IsExact (write style (depth + 1)) m.2) :
    IsDelimited (fun n => IsExact n.2) (writeMember style depth) m := by
  obtain ⟨k, v⟩ := m
  rintro ⟨l, w⟩ hw r s hr hs heq
  rw [writeMember, writeMember] at heq
  simp only [List.append_assoc] at heq
  obtain ⟨hkey, hrest⟩ := quote_append_inj heq
  obtain ⟨rfl, hbehind⟩ := h w hw r s hr hs (List.append_cancel_left hrest)
  rw [String.toList_injective hkey]
  exact ⟨rfl, hbehind⟩

-- ==================================================== exact documents are told

/-- An exact document is told by its text, which shows where it ends. -/
theorem IsExact.isDelimited {v : Value} (hv : IsExact v) :
    IsDelimited IsExact (write style depth) v := by
  induction hv generalizing depth with
  | null =>
      intro w hw r s _ _ h
      have hshape := shape_eq_of_write .null hw h
      cases hw with
      | null => exact ⟨rfl, List.append_cancel_left h⟩
      | _ => cases hshape
  | boolean b =>
      intro w hw r s _ _ h
      have hshape := shape_eq_of_write (.boolean b) hw h
      cases hw with
      | boolean b' =>
          cases hshape
          exact ⟨rfl, List.append_cancel_left h⟩
      | _ => cases hshape
  | natural m =>
      intro w hw r s hr hs h
      have hshape := shape_eq_of_write (.natural m) hw h
      cases hw with
      | natural n =>
          rw [write, write] at h
          obtain ⟨rfl, hrest⟩ := Text.repr_append_inj hr hs h
          exact ⟨rfl, hrest⟩
      | _ => cases hshape
  | string t =>
      intro w hw r s _ _ h
      have hshape := shape_eq_of_write (.string t) hw h
      cases hw with
      | string u =>
          rw [write, write] at h
          obtain ⟨htext, hrest⟩ := quote_append_inj h
          exact ⟨congrArg Value.string (String.toList_injective htext), hrest⟩
      | _ => cases hshape
  | array hvs ih =>
      intro w hw r s _ _ h
      have hshape := shape_eq_of_write (.array hvs) hw h
      cases hw with
      | array hws =>
          rw [write_array, write_array] at h
          have hstart : ∀ v, IsExact v →
              ∃ c t, write style (depth + 1) v = c :: t ∧ c ≠ ']' := by
            intro v hv
            obtain ⟨c, t, hc, hkind⟩ := hv.exists_write style (depth + 1)
            exact ⟨c, t, hc, by rintro rfl; cases hkind⟩
          obtain ⟨rfl, hrest⟩ :=
            bracketed_append_inj (.inl rfl) hstart hvs hws (fun v hv => ih v hv) h
          exact ⟨rfl, hrest⟩
      | _ => cases hshape
  | object hms ih =>
      intro w hw r s _ _ h
      have hshape := shape_eq_of_write (.object hms) hw h
      cases hw with
      | object hns =>
          rw [write_object, write_object] at h
          have hstart : ∀ m : String × Value, IsExact m.2 →
              ∃ c t, writeMember style depth m = c :: t ∧ c ≠ '}' :=
            fun m _ => ⟨'"', _, by rw [writeMember]; rfl, by decide⟩
          obtain ⟨rfl, hrest⟩ := bracketed_append_inj (.inr rfl) hstart hms hns
            (fun m hm => isDelimited_writeMember (ih m hm)) h
          exact ⟨rfl, hrest⟩
      | _ => cases hshape

/-- Exact documents of the same text are the same. -/
theorem IsExact.pretty_inj {v w : Value} (hv : IsExact v) (hw : IsExact w)
    (h : pretty v = pretty w) : v = w := by
  have htext : write .pretty 0 v ++ [] = write .pretty 0 w ++ [] := by
    rw [List.append_nil, List.append_nil]
    exact String.ofList_injective h
  exact (hv.isDelimited w hw [] [] (by rintro c ⟨⟩) (by rintro c ⟨⟩) htext).1

end Json

end SchemaAtlas
