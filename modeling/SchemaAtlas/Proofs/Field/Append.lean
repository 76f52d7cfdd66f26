/-
Bodies put together. A comma outside all brackets parts a body in two
that know nothing of each other: the lexer may begin an expression
behind it as it may at the start of a text, and no bracket is open in
front of it. So the fields of the body are those of the first part and,
moved behind the comma, those of the second. Nothing is asked of either
part by itself; brackets closed without having been opened leave the
depth at zero, and brackets left open in the second part stay there.

- `Segment.split_append`: the entries of a token list around a comma.
- `Field.entries_append`: the entries of a body around a comma.
- `Field.ofSegment?_front`, `Field.ofSegment?_behind`: an entry read in
  its part and in the whole body.
- `Field.split_append_comma`: the fields of a body around a comma.
-/
import SchemaAtlas.Proofs.Field.Comment
import SchemaAtlas.Proofs.Token.Lexeme

namespace SchemaAtlas

theorem PlacedToken.start_shift (x : PlacedToken) (n : Nat) :
    (x.shift n).span.start = x.span.start + n := rfl

theorem PlacedToken.stop_shift (x : PlacedToken) (n : Nat) :
    (x.shift n).span.stop = x.span.stop + n := rfl

namespace Segment

-- ==================================================== entries

/-- A comma outside all brackets ends one entry and begins the next. -/
theorem split_append {depth : Nat} {us : List PlacedToken} {comma : PlacedToken}
    (hdepth : depthBehind depth us = 0) (hcomma : comma.isMark .comma = true) (stop : Nat)
    (vs : List PlacedToken) :
    split stop depth (us ++ comma :: vs) =
      ((split comma.span.start depth us).1,
        (split comma.span.start depth us).2 ++ (split stop 0 vs).1 :: (split stop 0 vs).2) := by
  induction us generalizing depth with
  | nil =>
      obtain rfl : depth = 0 := hdepth
      show (if (decide (0 = 0) && comma.isMark .comma) = true then _ else _) = _
      rw [hcomma]
      rfl
  | cons u us ih =>
      rw [List.cons_append, split, split]
      by_cases hu : (decide (depth = 0) && u.isMark .comma) = true
      · obtain ⟨hzero, hmark⟩ := Bool.and_eq_true_iff.1 hu
        have hbehind : depthBehind 0 us = 0 := by
          have hall : depthBehind (u.token.depthAfter depth) us = 0 := hdepth
          rwa [depthAfter_of_isMark hmark rfl rfl, of_decide_eq_true hzero] at hall
        rw [if_pos hu, if_pos hu, ih hbehind]
        rfl
      · rw [if_neg hu, if_neg hu, ih hdepth]

/-- The first token of the key and the colon behind the key. -/
def ends? (s : Segment) : Option (PlacedToken × PlacedToken) :=
  match s.tokens.dropWhile fun t => t.token.isTrivia with
  | [] => none
  | first :: ts => (colon? 0 (first :: ts)).map fun colon => (first, colon)

theorem ends?_moved (f : Nat → Nat) (s : Segment) :
    (s.moved f).ends? = s.ends?.map fun ends => (ends.1.moved f, ends.2.moved f) := by
  have hdrop : (s.moved f).tokens.dropWhile (fun t => t.token.isTrivia) =
      (s.tokens.dropWhile fun t => t.token.isTrivia).map (·.moved f) :=
    List.dropWhile_map ..
  unfold ends?
  rw [hdrop]
  cases s.tokens.dropWhile fun t => t.token.isTrivia with
  | nil => rfl
  | cons first ts =>
      have hcolon := colon?_moved f 0 (first :: ts)
      rw [List.map_cons] at hcolon ⊢
      simp only [hcolon, Option.map_map]
      rfl

theorem mem_of_ends? {s : Segment} {ends : PlacedToken × PlacedToken} (h : s.ends? = some ends) :
    ends.2 ∈ s.tokens := by
  unfold ends? at h
  cases hdrop : s.tokens.dropWhile fun t => t.token.isTrivia with
  | nil =>
      rw [hdrop] at h
      cases h
  | cons first ts =>
      rw [hdrop] at h
      obtain ⟨colon, hcolon, rfl⟩ := Option.map_eq_some_iff.1 h
      obtain ⟨key, inside, hts, -⟩ := colon?_spec hcolon
      apply (List.dropWhile_suffix fun t : PlacedToken => t.token.isTrivia).subset
      rw [hdrop, hts]
      exact List.mem_append_right key List.mem_cons_self

end Segment

namespace Field

/-- The field whose key begins with the token `first` and ends at the
colon, in an entry that ends at byte `stop`. -/
def ofColon? (body : Text) (first colon : PlacedToken) (stop : Nat) : Option Field :=
  let name := nameOf first (Text.trim (body.slice first.span.start colon.span.start))
  if isSupportedName name then
    some ⟨name, Text.trim (body.slice colon.span.stop stop), Span.of first.span.start stop⟩
  else none

theorem ofSegment?_eq (body : Text) (s : Segment) :
    ofSegment? body s = s.ends?.bind fun ends => ofColon? body ends.1 ends.2 s.stop := by
  unfold ofSegment? Segment.ends?
  cases s.tokens.dropWhile fun t => t.token.isTrivia with
  | nil => rfl
  | cons first ts =>
      simp only
      cases Segment.colon? 0 (first :: ts) <;> rfl

/-- The field moved right by `n` bytes. -/
def shift (f : Field) (n : Nat) : Field :=
  { f with span := f.span.shift n }

/-- At byte `n` of the body stands a comma outside all brackets. -/
def PartedAt (body : Text) (n : Nat) : Prop :=
  ∃ before comma after, tokenize body = before ++ comma :: after
    ∧ comma.isMark .comma = true ∧ comma.span.start = n ∧ depthBehind 0 before = 0

section

variable {a b : Text}

/-- Both parts of a body are read on their own. -/
theorem tokenize_parted (h : PartedAt (a ++ ',' :: b) a.width) :
    depthBehind 0 (tokenize a) = 0 ∧ ∃ comma, comma.isMark .comma = true
      ∧ comma.span.start = a.width ∧ tokenize (a ++ ',' :: b) =
        tokenize a ++ comma :: (tokenize b).map (·.shift (a.width + 1)) := by
  obtain ⟨before, comma, after, htokens, hmark, hstart, hdepth⟩ := h
  obtain ⟨rfl, hbehind⟩ := tokenize_append htokens hstart
  have hafter : after = (tokenize b).map (·.shift (a.width + 1)) := by
    rw [tokensFrom, show munch _ ',' b = _ from Lexeme.munch_mark _ .comma b] at hbehind
    rw [tokenize, ← tokensFrom_shift, Nat.zero_add]
    exact (List.cons.inj hbehind).2
  exact ⟨hdepth, comma, hmark, hstart, hafter ▸ htokens⟩

theorem entries_append (h : PartedAt (a ++ ',' :: b) a.width) :
    entries (a ++ ',' :: b) =
      entries a ++ (entries b).map (·.moved (· + (a.width + 1))) := by
  obtain ⟨hdepth, comma, hmark, hstart, htokens⟩ := tokenize_parted h
  have hwidth : (a ++ ',' :: b).width = b.width + (a.width + 1) := by
    rw [Text.width_append, Text.width_cons, Nat.add_comm b.width, Nat.add_assoc]
    rfl
  have hmoved : (tokenize b).map (·.shift (a.width + 1)) =
      (tokenize b).map (·.moved (· + (a.width + 1))) :=
    List.map_congr_left fun x _ => (PlacedToken.moved_add _ x).symm
  unfold entries
  rw [htokens, Segment.split_append hdepth hmark, hstart, hmoved, hwidth,
    Segment.split_moved (· + (a.width + 1))]
  rfl

-- ==================================================== fields

/-- The tokens of an entry are tokens of the body, in front of its
end. -/
theorem stop_le_of_mem_entries {s : Segment} (hs : s ∈ entries a) :
    s.stop ≤ a.width ∧ ∀ x ∈ s.tokens, x.span.stop ≤ a.width := by
  obtain ⟨before, after, htokens, hentry⟩ := Segment.split_spec hs
  have hmem : ∀ x ∈ before ++ (s.tokens ++ after), x.span.start ≤ a.width
      ∧ x.span.stop ≤ a.width := by
    intro x hx
    rw [← htokens] at hx
    have hbounds := bounds_of_mem_tokensFrom hx
    omega
  refine ⟨?_, fun x hx => (hmem x (by simp [hx])).2⟩
  rw [hentry.stop_eq]
  cases after with
  | nil => exact Nat.le_refl _
  | cons y after => exact (hmem y (by simp)).1

/-- An entry of the first part is the same field in the whole body. -/
theorem ofSegment?_front {s : Segment} (hs : s ∈ entries a) (r : Text) :
    ofSegment? (a ++ r) s = ofSegment? a s := by
  obtain ⟨hstop, htokens⟩ := stop_le_of_mem_entries hs
  rw [ofSegment?_eq, ofSegment?_eq]
  cases hends : s.ends? with
  | none => rfl
  | some ends =>
      have hcolon := htokens ends.2 (Segment.mem_of_ends? hends)
      have hkey := Nat.le_trans ends.2.span.start_le_stop hcolon
      show ofColon? _ _ _ _ = ofColon? _ _ _ _
      rw [ofColon?, Text.slice_append_left hkey, Text.slice_append_left hstop]
      rfl

/-- An entry of the second part is the same field, moved, in the whole
body. -/
theorem ofSegment?_behind (p b : Text) (s : Segment) :
    ofSegment? (p ++ b) (s.moved (· + p.width)) = (ofSegment? b s).map (·.shift p.width) := by
  have hslice : ∀ start stop, (p ++ b).slice (start + p.width) (stop + p.width) =
      b.slice start stop := by
    intro start stop
    rw [Nat.add_comm start, Nat.add_comm stop, Text.slice_append_right]
  rw [ofSegment?_eq, ofSegment?_eq, Segment.ends?_moved]
  cases s.ends? with
  | none => rfl
  | some ends =>
      obtain ⟨first, colon⟩ := ends
      have hname : ∀ key, nameOf (first.shift p.width) key = nameOf first key := by
        intro key
        have hsize : (first.shift p.width).span.size = first.span.size :=
          Nat.add_sub_add_right ..
        unfold nameOf
        rw [hsize]
        rfl
      show ofColon? _ (first.moved _) (colon.moved _) (s.stop + p.width) =
        (ofColon? b first colon s.stop).map _
      rw [PlacedToken.moved_add, PlacedToken.moved_add, ofColon?, ofColon?]
      simp only [hname, PlacedToken.start_shift, PlacedToken.stop_shift, hslice, ← Span.shift_of]
      split <;> rfl

theorem split_append_comma (h : PartedAt (a ++ ',' :: b) a.width) :
    split (a ++ ',' :: b) = split a ++ (split b).map (·.shift (a.width + 1)) := by
  have hwidth : a.width + 1 = Text.width (a ++ [',']) := (Text.width_append a [',']).symm
  have hfront : (entries a).filterMap (ofSegment? (a ++ ',' :: b)) = split a :=
    List.filterMap_congr fun s hs => ofSegment?_front hs _
  have hbehind : ((entries b).map (·.moved (· + (a.width + 1)))).filterMap
      (ofSegment? (a ++ ',' :: b)) = (split b).map (·.shift (a.width + 1)) := by
    rw [List.append_cons, hwidth, List.filterMap_map]
    show (entries b).filterMap _ = ((entries b).filterMap _).map _
    rw [List.map_filterMap]
    exact List.filterMap_congr fun s _ => ofSegment?_behind _ b s
  show (entries (a ++ ',' :: b)).filterMap _ = _
  rw [entries_append h, List.filterMap_append, hfront, hbehind]

end

/-- A body with a comma in an expression and a brace closed that was not
opened. -/
def strayBrace : Text :=
  "x: /,/ \x7d".toList

/-- A body with a comma in brackets and a brace left open. -/
def openBrace : Text :=
  "y: [1, 2], z: \x7b".toList

theorem split_append_comma_stray :
    PartedAt (strayBrace ++ ',' :: openBrace) strayBrace.width
      ∧ (split (strayBrace ++ ',' :: openBrace)).map (·.name) = ["x", "y", "z"]
      ∧ split (strayBrace ++ ',' :: openBrace) =
        split strayBrace ++ (split openBrace).map (·.shift 9) := by
  have hparted : PartedAt (strayBrace ++ ',' :: openBrace) strayBrace.width := by
    refine ⟨tokenize strayBrace, ⟨.mark .comma, Span.of 8 9⟩,
      (tokenize openBrace).map (·.shift 9), ?_, ?_, ?_, ?_⟩ <;> decide +kernel
  exact ⟨hparted, by decide +kernel, split_append_comma hparted⟩

end Field

end SchemaAtlas
