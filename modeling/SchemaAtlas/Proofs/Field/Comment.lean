/-
Fields of a body with a comment written over. Entries, keys and colons
are found among the significant tokens, so they are the same; and what a
definition refers to depends on its significant tokens alone. Only the
text of a key is taken as it is written, comments and all: a comment
between the first token of a key and its colon is the one that counts.

- `Segment.split_significant`, `Field.ofSegment?_stripped`: entries among
  significant tokens.
- `Field.alike_definition`: what a definition is read from.
- `Field.keys`: where the keys of a body stand.
- `Field.SameAs`, `Field.split_blankOut`: the fields of the body.
-/
import Mathlib.Data.List.Forall2
import SchemaAtlas.Proofs.Field
import SchemaAtlas.Proofs.Reference.Trim
import SchemaAtlas.Proofs.Token.BlankOut

namespace SchemaAtlas

namespace Segment

-- ==================================================== significant tokens

/-- The entry without its comments and white space. -/
def stripped (s : Segment) : Segment :=
  ⟨significant s.tokens, s.stop⟩

/-- The entry where the positions of its text are moved. -/
def moved (f : Nat → Nat) (s : Segment) : Segment :=
  ⟨s.tokens.map (·.moved f), f s.stop⟩

theorem isMark_of_isTrivia {t : PlacedToken} (h : t.token.isTrivia = true) (m : Mark) :
    t.isMark m = false := by
  apply decide_eq_false
  intro hmark
  rw [hmark] at h
  cases h

theorem split_significant (stop depth : Nat) (ts : List PlacedToken) :
    split stop depth (significant ts) =
      ((split stop depth ts).1.stripped, (split stop depth ts).2.map stripped) := by
  induction ts generalizing depth with
  | nil => rfl
  | cons t ts ih =>
      by_cases ht : t.token.isTrivia = true
      · rw [significant_trivia ht, ih, split, isMark_of_isTrivia ht, Bool.and_false,
          if_neg Bool.false_ne_true, depthAfter_of_isTrivia ht]
        simp only [stripped, significant_trivia ht]
      · rw [significant_cons, if_neg ht, split, split, ih, ih]
        by_cases hcomma : (decide (depth = 0) && t.isMark .comma) = true
        · rw [if_pos hcomma, if_pos hcomma]
          rfl
        · rw [if_neg hcomma, if_neg hcomma]
          simp only [stripped, significant_cons, if_neg ht]

theorem colon?_significant (depth : Nat) (ts : List PlacedToken) :
    colon? depth (significant ts) = colon? depth ts := by
  induction ts generalizing depth with
  | nil => rfl
  | cons t ts ih =>
      by_cases ht : t.token.isTrivia = true
      · rw [significant_trivia ht, ih, colon?, isMark_of_isTrivia ht, Bool.and_false,
          if_neg Bool.false_ne_true, depthAfter_of_isTrivia ht]
      · rw [significant_cons, if_neg ht, colon?, colon?, ih]

theorem split_moved (f : Nat → Nat) (stop depth : Nat) (ts : List PlacedToken) :
    split (f stop) depth (ts.map (·.moved f)) =
      ((split stop depth ts).1.moved f, (split stop depth ts).2.map (·.moved f)) := by
  induction ts generalizing depth with
  | nil => rfl
  | cons t ts ih =>
      rw [List.map_cons, split, split, ih, ih]
      show (if (decide (depth = 0) && t.isMark .comma) = true then _ else _) = _
      by_cases hcomma : (decide (depth = 0) && t.isMark .comma) = true
      · rw [if_pos hcomma, if_pos hcomma]
        rfl
      · rw [if_neg hcomma, if_neg hcomma]
        rfl

theorem colon?_moved (f : Nat → Nat) (depth : Nat) (ts : List PlacedToken) :
    colon? depth (ts.map (·.moved f)) = (colon? depth ts).map (·.moved f) := by
  induction ts generalizing depth with
  | nil => rfl
  | cons t ts ih =>
      rw [List.map_cons, colon?, colon?, ih]
      show (if (decide (depth = 0) && t.isMark .colon) = true then _ else _) = _
      by_cases hcolon : (decide (depth = 0) && t.isMark .colon) = true
      · rw [if_pos hcolon, if_pos hcolon]
        rfl
      · rw [if_neg hcolon, if_neg hcolon]
        rfl

/-- Where the key of an entry stands: from its first token up to its
colon. -/
def key? (s : Segment) : Option Span :=
  match s.tokens.dropWhile fun t => t.token.isTrivia with
  | [] => none
  | first :: ts => (colon? 0 (first :: ts)).map fun c => Span.of first.span.start c.span.start

end Segment

namespace Field

theorem dropWhile_significant (ts : List PlacedToken) :
    (significant ts).dropWhile (fun t => t.token.isTrivia) =
      significant (ts.dropWhile fun t => t.token.isTrivia) := by
  induction ts with
  | nil => rfl
  | cons t ts ih =>
      by_cases ht : t.token.isTrivia = true
      · rw [significant_trivia ht, List.dropWhile_cons, if_pos ht, ih]
      · rw [significant_cons, if_neg ht, List.dropWhile_cons, if_neg ht, List.dropWhile_cons,
          if_neg ht, significant_cons, if_neg ht]

/-- A list of tokens without the trivia in front begins with one that is
none. -/
theorem not_trivia_of_dropWhile {ts us : List PlacedToken} {first : PlacedToken}
    (h : ts.dropWhile (fun t => t.token.isTrivia) = first :: us) :
    first.token.isTrivia = false := by
  have hhead := List.head?_dropWhile_not (fun t : PlacedToken => t.token.isTrivia) ts
  rw [h] at hhead
  exact hhead

/-- The first token of an entry and its colon are significant. -/
theorem colon?_stripped {first : PlacedToken} (hfirst : first.token.isTrivia = false)
    (ts : List PlacedToken) :
    Segment.colon? 0 (first :: significant ts) = Segment.colon? 0 (first :: ts) := by
  have hcons : first :: significant ts = significant (first :: ts) := by
    rw [significant_cons, hfirst]
    rfl
  rw [hcons, Segment.colon?_significant]

theorem ofSegment?_stripped (body : Text) (s : Segment) :
    ofSegment? body s.stripped = ofSegment? body s := by
  unfold ofSegment?
  rw [Segment.stripped, dropWhile_significant]
  cases hdrop : s.tokens.dropWhile fun t => t.token.isTrivia with
  | nil => rfl
  | cons first ts =>
      have hfirst := not_trivia_of_dropWhile hdrop
      simp only [significant_cons, hfirst, Bool.false_eq_true, if_false, colon?_stripped]

theorem key?_stripped (s : Segment) : s.stripped.key? = s.key? := by
  unfold Segment.key?
  rw [Segment.stripped, dropWhile_significant]
  cases hdrop : s.tokens.dropWhile fun t => t.token.isTrivia with
  | nil => rfl
  | cons first ts =>
      have hfirst := not_trivia_of_dropWhile hdrop
      simp only [significant_cons, hfirst, Bool.false_eq_true, if_false, colon?_stripped]

-- ==================================================== entries

section

variable {body : Text} {s : Segment}

/-- The entries among the significant tokens of a body. -/
theorem map_stripped_entries (body : Text) :
    (entries body).map Segment.stripped =
      (Segment.split body.width 0 (significant (tokenize body))).1
        :: (Segment.split body.width 0 (significant (tokenize body))).2 := by
  rw [Segment.split_significant]
  rfl

theorem split_eq_stripped (body : Text) :
    split body = ((entries body).map Segment.stripped).filterMap (ofSegment? body) := by
  rw [List.filterMap_map]
  show (entries body).filterMap _ = _
  congr 1
  funext s
  exact (ofSegment?_stripped body s).symm

/-- A definition has the significant tokens that stand behind the colon,
but for what trimming does to its end. -/
theorem alike_definition {key inside : List PlacedToken} {colon : PlacedToken}
    (hs : s ∈ (entries body).map Segment.stripped) (htokens : s.tokens = key ++ colon :: inside)
    (hcolon : colon.isMark .colon = true) :
    Alike inside
      (significant (tokenize (Text.trim (body.slice colon.span.stop s.stop)))) := by
  rw [map_stripped_entries] at hs
  obtain ⟨before, after, hbody, hentry⟩ := Segment.split_spec hs
  have hsplit : significant (tokenize body) = (before ++ key) ++ colon :: (inside ++ after) := by
    rw [hbody, htokens]
    simp
  obtain ⟨us, rest, hrest, -, hbehind⟩ := eq_append_cons_of_significant hsplit
  obtain ⟨vs, ws, rfl, hvs, hws⟩ : ∃ vs ws, rest = vs ++ ws ∧ significant vs = inside
      ∧ startOf body.width ws = startOf body.width after := by
    cases after with
    | nil => exact ⟨rest, [], by simp, by rw [hbehind, List.append_nil], rfl⟩
    | cons comma after =>
        obtain ⟨vs, ws, rfl, hvs, -⟩ := eq_append_cons_of_significant hbehind
        exact ⟨vs, comma :: ws, rfl, hvs, rfl⟩
  obtain ⟨hslice, -⟩ := tokenize_slice hrest
  rw [hws, ← hentry.stop_eq, show colon.token = _ from of_decide_eq_true hcolon] at hslice
  have halike := alike_trim colon.span.stop (body.slice colon.span.stop s.stop)
  rw [show tokensFrom true _ _ = vs from hslice, hvs] at halike
  exact halike

end

-- ==================================================== keys

/-- Where the keys of the entries of a body stand. -/
def keys (body : Text) : List Span :=
  (entries body).filterMap Segment.key?

end Field

/-- All of the second span lies in the first. -/
def Span.Covers (s t : Span) : Prop :=
  s.start ≤ t.start ∧ t.stop ≤ s.stop

instance (s t : Span) : Decidable (s.Covers t) :=
  inferInstanceAs (Decidable (_ ∧ _))

namespace Field

/-- The fields have the same name and refer to the same. -/
def SameAs (f g : Field) : Prop :=
  g.name = f.name
    ∧ ∀ schema catalog, g.relationship? schema catalog = f.relationship? schema catalog

section

variable {body : Text} {s : Segment}

/-- The tokens that part an entry into its key and its definition. -/
theorem colon_spec (hs : s ∈ (entries body).map Segment.stripped) {first colon : PlacedToken}
    {ts : List PlacedToken} (hfirst : s.tokens.dropWhile (fun t => t.token.isTrivia) = first :: ts)
    (hcolon : Segment.colon? 0 (first :: ts) = some colon) :
    first ∈ significant (tokenize body) ∧ colon ∈ significant (tokenize body)
      ∧ first.span.start ≤ colon.span.start
      ∧ Span.of first.span.start colon.span.start ∈ keys body
      ∧ ∃ key inside, s.tokens = key ++ colon :: inside ∧ colon.isMark .colon = true := by
  have hkey : Span.of first.span.start colon.span.start ∈ keys body := by
    obtain ⟨s₀, hs₀, rfl⟩ := List.mem_map.1 hs
    refine List.mem_filterMap.2 ⟨s₀, hs₀, ?_⟩
    rw [← key?_stripped, Segment.key?, hfirst]
    show (Segment.colon? 0 (first :: ts)).map _ = _
    rw [hcolon]
    rfl
  rw [map_stripped_entries] at hs
  obtain ⟨before, after, hbody, -⟩ := Segment.split_spec hs
  obtain ⟨lead, hlead⟩ : ∃ lead, s.tokens = lead ++ first :: ts :=
    ⟨s.tokens.takeWhile fun t => t.token.isTrivia, by
      rw [← hfirst, List.takeWhile_append_dropWhile]⟩
  obtain ⟨key, inside, hts, hmark, -⟩ := Segment.colon?_spec hcolon
  have hsplit : significant (tokenize body) = (before ++ lead) ++ ((first :: ts) ++ after) := by
    rw [hbody, hlead]
    simp
  have hmem : colon ∈ first :: ts := by
    rw [hts]
    exact List.mem_append_right key List.mem_cons_self
  refine ⟨?_, ?_, ?_, hkey, lead ++ key, inside, ?_, hmark⟩
  · rw [hsplit]
    simp
  · rw [hsplit]
    exact List.mem_append_right _ (List.mem_append_left after hmem)
  · have hpairs : (first :: ts).Pairwise fun a b => a.span.stop ≤ b.span.start := by
      have hall := (pairwise_tokensFrom true 0 body).filter fun t => !t.token.isTrivia
      rw [show (tokensFrom true 0 body).filter _ = _ from hsplit] at hall
      exact (List.pairwise_append.1 (List.pairwise_append.1 hall).2.1).1
    rcases List.mem_cons.1 hmem with rfl | hmem
    · exact Nat.le_refl _
    · exact Nat.le_trans first.span.start_le_stop ((List.pairwise_cons.1 hpairs).1 colon hmem)
  · rw [hlead, hts, List.append_assoc]

variable {x : PlacedToken} (hx : x.IsErasable body)
include hx

/-- The entries of the body with the comment written over. -/
theorem entries_blankOut :
    (entries (body.blankOut x.span)).map Segment.stripped =
      ((entries body).map Segment.stripped).map (·.moved (body.blankedPlace x.span)) := by
  have hwidth : (body.blankOut x.span).width = body.blankedPlace x.span body.width := by
    obtain ⟨p, l, q, rfl, hp, hl, -⟩ := hx.exists_cut
    rw [Text.blankOut_append p l q hp hl, Text.width_append (p ++ l), Text.width_append p,
      Text.blankedPlace_behind hp hl, Text.width_append, Text.width_append]
  rw [map_stripped_entries, hx.significant_blankOut, hwidth, Segment.split_moved,
    map_stripped_entries]
  rfl

/-- Unless the comment stands between its first token and its colon, a
key reads the same. -/
theorem key_blankOut {first colon : PlacedToken} (hfirst : first ∈ significant (tokenize body))
    (hcolon : colon ∈ significant (tokenize body)) (hle : first.span.start ≤ colon.span.start)
    (hkey : ¬(Span.of first.span.start colon.span.start).Covers x.span) :
    (body.blankOut x.span).slice (body.blankedPlace x.span first.span.start)
        (body.blankedPlace x.span colon.span.start) =
      body.slice first.span.start colon.span.start := by
  obtain ⟨hfirstMem, hfirstTrivia⟩ := List.mem_filter.1 hfirst
  obtain ⟨hcolonMem, hcolonTrivia⟩ := List.mem_filter.1 hcolon
  have hfirstSize := first.span.start_le_stop
  have hcolonSize := colon.span.start_le_stop
  rcases hx.apart_of_mem hfirstMem (by simpa using hfirstTrivia) with hfront | hbehind
  · rcases hx.apart_of_mem hcolonMem (by simpa using hcolonTrivia) with hfront' | hbehind'
    · exact Text.slice_blankOut_front hx hle (Nat.le_trans hcolonSize hfront')
    · -- the comment stands between the two
      refine absurd ⟨Nat.le_trans hfirstSize hfront, ?_⟩ hkey
      exact Nat.le_trans hbehind' (Nat.le_max_left _ _)
  · exact Text.slice_blankOut_behind hx hbehind hle

/-- Unless the comment stands in the key, an entry is the same field. -/
theorem ofSegment?_blankOut (hkeys : ∀ k ∈ keys body, ¬k.Covers x.span)
    (hs : s ∈ (entries body).map Segment.stripped) :
    Option.Rel SameAs (ofSegment? body s)
      (ofSegment? (body.blankOut x.span) (s.moved (body.blankedPlace x.span))) := by
  let f := body.blankedPlace x.span
  have hs' : s.moved f ∈ (entries (body.blankOut x.span)).map Segment.stripped := by
    rw [entries_blankOut hx]
    exact List.mem_map_of_mem hs
  have hdrop : (s.moved f).tokens.dropWhile (fun t => t.token.isTrivia) =
      (s.tokens.dropWhile fun t => t.token.isTrivia).map (·.moved f) :=
    List.dropWhile_map ..
  unfold ofSegment?
  rw [hdrop]
  cases hfirst : s.tokens.dropWhile fun t => t.token.isTrivia with
  | nil => exact .none
  | cons first ts =>
      have hcolon' := Segment.colon?_moved f 0 (first :: ts)
      rw [List.map_cons] at hcolon' ⊢
      simp only [hcolon']
      cases hcolon : Segment.colon? 0 (first :: ts) with
      | none => exact .none
      | some colon =>
          obtain ⟨hfirstMem, hcolonMem, hle, hkey, key, inside, htokens, hmark⟩ :=
            colon_spec hs hfirst hcolon
          have hslice := key_blankOut hx hfirstMem hcolonMem hle (hkeys _ hkey)
          have hsize : (first.moved f).span.size = first.span.size := by
            obtain ⟨hmem, htrivia⟩ := List.mem_filter.1 hfirstMem
            exact Text.size_moved hx hmem (by simpa using htrivia)
          have hname : ∀ k, nameOf (first.moved f) k = nameOf first k := by
            intro k
            unfold nameOf
            rw [hsize]
            rfl
          -- both definitions are alike what stands behind the colon
          have htarget : ∀ schema catalog,
              Reference.read? schema catalog (significant (tokenize (Text.trim
                ((body.blankOut x.span).slice (colon.moved f).span.stop (s.moved f).stop)))) =
              Reference.read? schema catalog (significant (tokenize (Text.trim
                (body.slice colon.span.stop s.stop)))) := by
            intro schema catalog
            have htokens' : (s.moved f).tokens =
                key.map (·.moved f) ++ colon.moved f :: inside.map (·.moved f) := by
              rw [Segment.moved, htokens, List.map_append, List.map_cons]
            have halike := alike_definition hs htokens hmark
            have halike' := alike_definition hs' htokens' hmark
            have hmoved : Alike inside (inside.map (·.moved f)) :=
              .of_tokens (by rw [List.map_map]; rfl)
            rw [← halike'.read?_eq, ← hmoved.read?_eq, halike.read?_eq]
          simp only [Option.map_some, hname]
          rw [show (body.blankOut x.span).slice (first.moved f).span.start
            (colon.moved f).span.start = _ from hslice]
          by_cases hsupported : isSupportedName (nameOf first
              (Text.trim (body.slice first.span.start colon.span.start))) = true
          · rw [if_pos hsupported, if_pos hsupported]
            refine .some ⟨rfl, ?_⟩
            intro schema catalog
            unfold relationship?
            rw [htarget]
          · rw [if_neg hsupported, if_neg hsupported]
            exact .none

/-- Unless the comment stands in a key, the fields of the body are the
same. -/
theorem split_blankOut (hkeys : ∀ k ∈ keys body, ¬k.Covers x.span) :
    List.Forall₂ SameAs (split body) (split (body.blankOut x.span)) := by
  rw [split_eq_stripped, split_eq_stripped (body.blankOut x.span), entries_blankOut hx]
  refine List.rel_filterMap (R := fun s s' => Option.Rel SameAs (ofSegment? body s)
    (ofSegment? (body.blankOut x.span) s')) (fun _ _ h => h) ?_
  rw [List.forall₂_map_right_iff, List.forall₂_same]
  exact fun s hs => ofSegment?_blankOut hx hkeys hs

end

/-- The same fields have the same names. -/
theorem map_name_of_same {fs gs : List Field} (h : List.Forall₂ SameAs fs gs) :
    gs.map Field.name = fs.map Field.name := by
  induction h with
  | nil => rfl
  | cons hfg _ ih => rw [List.map_cons, List.map_cons, hfg.1, ih]

/-- The same fields give the same relationships. -/
theorem relationships_of_same {fs gs : List Field} (h : List.Forall₂ SameAs fs gs)
    (schema : String) (catalog : Catalog) :
    gs.filterMap (·.relationship? schema catalog) =
      fs.filterMap (·.relationship? schema catalog) := by
  induction h with
  | nil => rfl
  | cons hfg _ ih => rw [List.filterMap_cons, List.filterMap_cons, hfg.2, ih]

end Field

end SchemaAtlas
