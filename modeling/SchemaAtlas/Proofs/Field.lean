/-
Fields among the tokens of a body. Commas outside all brackets take a
body apart into entries, and the first colon outside all brackets takes
an entry apart into key and definition. The definition is cut out of
the text and read a third time; as long as nothing in the body is left
open, this reading has the tokens between colon and comma.

- `Segment.split_spec`: the tokens of every entry.
- `Segment.colon?_spec`: the colon of an entry.
- `Field.standsIn_of_mem_split`: every field of a body.
-/
import SchemaAtlas.Field
import SchemaAtlas.Proofs.Token.Position
import SchemaAtlas.Proofs.Token.Trim

namespace SchemaAtlas

-- ==================================================== depth

/-- The bracket depth behind the tokens. -/
def depthBehind (depth : Nat) (ts : List PlacedToken) : Nat :=
  ts.foldl (fun d t => t.token.depthAfter d) depth

/-- The mark does not occur outside all brackets in tokens that begin
at the given depth. -/
def Lacks (m : Mark) (depth : Nat) (ts : List PlacedToken) : Prop :=
  ∀ us t vs, ts = us ++ t :: vs → depthBehind depth us = 0 → t.isMark m = false

section

variable {m : Mark} {depth : Nat} {t : PlacedToken} {ts us : List PlacedToken}

theorem depthBehind_append (depth : Nat) (ts us : List PlacedToken) :
    depthBehind depth (ts ++ us) = depthBehind (depthBehind depth ts) us :=
  List.foldl_append

theorem depthAfter_of_isTrivia (h : t.token.isTrivia = true) : t.token.depthAfter depth = depth := by
  unfold Token.isTrivia at h
  split at h <;> simp_all [Token.depthAfter]

/-- Commas and colons leave the depth alone. -/
theorem depthAfter_of_isMark (h : t.isMark m = true) (ho : m.opens = false)
    (hc : m.closes = false) : t.token.depthAfter depth = depth := by
  have ht : t.token = .mark m := of_decide_eq_true h
  rw [ht, Token.depthAfter, ho, hc]
  rfl

theorem lacks_nil (m : Mark) (depth : Nat) : Lacks m depth [] := by
  intro us t vs h
  exact absurd h (by simp)

theorem Lacks.cons (ht : (decide (depth = 0) && t.isMark m) = false)
    (hts : Lacks m (t.token.depthAfter depth) ts) : Lacks m depth (t :: ts) := by
  intro us u vs h hdepth
  cases us with
  | nil =>
      obtain ⟨rfl, -⟩ := List.cons.inj h
      have hzero : depth = 0 := hdepth
      rwa [hzero, decide_eq_true rfl, Bool.true_and] at ht
  | cons v us =>
      obtain ⟨rfl, rfl⟩ := List.cons.inj h
      exact hts us u vs rfl hdepth

theorem Lacks.append (hts : Lacks m depth ts) (hus : Lacks m (depthBehind depth ts) us) :
    Lacks m depth (ts ++ us) := by
  induction ts generalizing depth with
  | nil => exact hus
  | cons t ts ih =>
      have ht : (decide (depth = 0) && t.isMark m) = false := by
        by_cases hdepth : depth = 0
        · rw [hts [] t ts rfl hdepth, Bool.and_false]
        · rw [decide_eq_false hdepth, Bool.false_and]
      refine .cons ht (ih ?_ hus)
      intro vs v ws h hv
      exact hts (t :: vs) v ws (congrArg (t :: ·) h) hv

theorem lacks_of_trivia (h : significant ts = []) : Lacks m depth ts := by
  intro us t vs hts hdepth
  have ht : t ∈ ts := by
    rw [hts]
    exact List.mem_append_right us List.mem_cons_self
  have htrivia : t.token.isTrivia = true := by simpa using List.filter_eq_nil_iff.1 h t ht
  cases hm : t.isMark m with
  | false => rfl
  | true =>
      have htoken : t.token = .mark m := of_decide_eq_true hm
      rw [htoken] at htrivia
      cases htrivia

theorem depthBehind_of_trivia (h : significant ts = []) : depthBehind depth ts = depth := by
  induction ts with
  | nil => rfl
  | cons t ts ih =>
      by_cases ht : t.token.isTrivia = true
      · rw [significant_trivia ht] at h
        show depthBehind (t.token.depthAfter depth) ts = depth
        rw [depthAfter_of_isTrivia ht, ih h]
      · rw [significant_cons, if_neg ht] at h
        cases h

end

namespace Segment

-- ==================================================== entries

/-- The first entry of a token list, and what the others are made of. -/
theorem split_first (stop depth : Nat) (ts : List PlacedToken) :
    ∃ after, ts = (split stop depth ts).1.tokens ++ after
      ∧ (split stop depth ts).1.stop = startOf stop after
      ∧ Lacks .comma depth (split stop depth ts).1.tokens
      ∧ ((after = [] ∧ (split stop depth ts).2 = [])
        ∨ ∃ comma rest, after = comma :: rest ∧ comma.isMark .comma = true
          ∧ depthBehind depth (split stop depth ts).1.tokens = 0
          ∧ (split stop depth ts).2 = (split stop 0 rest).1 :: (split stop 0 rest).2) := by
  induction ts generalizing depth with
  | nil => exact ⟨[], rfl, rfl, lacks_nil _ _, Or.inl ⟨rfl, rfl⟩⟩
  | cons t ts ih =>
      rw [split]
      by_cases hcomma : (decide (depth = 0) && t.isMark .comma) = true
      · obtain ⟨hdepth, ht⟩ := Bool.and_eq_true_iff.1 hcomma
        rw [if_pos hcomma]
        exact ⟨t :: ts, rfl, rfl, lacks_nil _ _,
          Or.inr ⟨t, ts, rfl, ht, of_decide_eq_true hdepth, rfl⟩⟩
      · rw [if_neg hcomma]
        obtain ⟨after, hts, hstop, hlacks, hafter⟩ := ih (t.token.depthAfter depth)
        exact ⟨after, congrArg (t :: ·) hts, hstop,
          hlacks.cons (Bool.eq_false_iff.2 hcomma), hafter⟩

/-- The entry `s` stands behind the tokens `before`, which end with a
comma outside brackets if there are any, and goes up to the comma with
which the tokens `after` begin, or to the end. -/
structure IsEntry (stop : Nat) (s : Segment) (before after : List PlacedToken) : Prop where
  depth_before : depthBehind 0 before = 0
  begins : before = [] ∨ ∃ front comma, before = front ++ [comma] ∧ comma.isMark .comma = true
  lacks_comma : Lacks .comma 0 s.tokens
  stop_eq : s.stop = startOf stop after
  ends : after = [] ∨ ∃ comma rest, after = comma :: rest ∧ comma.isMark .comma = true
    ∧ depthBehind 0 s.tokens = 0

/-- Every entry stands among the tokens as entries do. -/
theorem split_spec {stop : Nat} {ts : List PlacedToken} {s : Segment}
    (h : s ∈ (split stop 0 ts).1 :: (split stop 0 ts).2) :
    ∃ before after, ts = before ++ (s.tokens ++ after) ∧ IsEntry stop s before after := by
  induction hn : ts.length using Nat.strongRecOn generalizing ts with
  | ind n ih =>
      obtain ⟨after, hts, hstop, hlacks, hafter⟩ := split_first stop 0 ts
      rcases List.mem_cons.1 h with rfl | h
      · refine ⟨[], after, hts, rfl, Or.inl rfl, hlacks, hstop, ?_⟩
        rcases hafter with ⟨hnil, -⟩ | ⟨comma, rest, hrest, hcomma, hdepth, -⟩
        · exact Or.inl hnil
        · exact Or.inr ⟨comma, rest, hrest, hcomma, hdepth⟩
      · rcases hafter with ⟨-, hlater⟩ | ⟨comma, rest, rfl, hcomma, hdepth, hlater⟩
        · rw [hlater] at h
          cases h
        · rw [hlater] at h
          have hlength := congrArg List.length hts
          rw [List.length_append, List.length_cons] at hlength
          obtain ⟨before, behind, hrest, hentry⟩ := ih rest.length (by omega) h rfl
          let first := (split stop 0 ts).1.tokens
          have hfirst : depthBehind 0 (first ++ [comma]) = 0 := by
            rw [depthBehind_append, hdepth]
            exact depthAfter_of_isMark hcomma rfl rfl
          refine ⟨first ++ comma :: before, behind, ?_, ?_, ?_, hentry.lacks_comma,
            hentry.stop_eq, hentry.ends⟩
          · rw [List.append_assoc, List.cons_append, ← hrest]
            exact hts
          · rw [List.append_cons, depthBehind_append, hfirst]
            exact hentry.depth_before
          · rcases hentry.begins with rfl | ⟨front, c, rfl, hc⟩
            · exact Or.inr ⟨first, comma, rfl, hcomma⟩
            · refine Or.inr ⟨first ++ comma :: front, c, ?_, hc⟩
              rw [List.append_assoc]
              rfl

/-- The colon found is the first outside all brackets. -/
theorem colon?_spec {depth : Nat} {ts : List PlacedToken} {colon : PlacedToken}
    (h : colon? depth ts = some colon) :
    ∃ key inside, ts = key ++ colon :: inside ∧ colon.isMark .colon = true
      ∧ depthBehind depth key = 0 ∧ Lacks .colon depth key := by
  induction ts generalizing depth with
  | nil => cases h
  | cons t ts ih =>
      rw [colon?] at h
      by_cases hcolon : (decide (depth = 0) && t.isMark .colon) = true
      · rw [if_pos hcolon] at h
        cases h
        obtain ⟨hdepth, ht⟩ := Bool.and_eq_true_iff.1 hcolon
        exact ⟨[], ts, rfl, ht, of_decide_eq_true hdepth, lacks_nil _ _⟩
      · rw [if_neg hcolon] at h
        obtain ⟨key, inside, rfl, hmark, hdepth, hlacks⟩ := ih h
        exact ⟨t :: key, inside, rfl, hmark, hdepth, hlacks.cons (Bool.eq_false_iff.2 hcolon)⟩

end Segment

namespace Field

-- ==================================================== fields

/-- The entries of a body. -/
def entries (body : Text) : List Segment :=
  let segments := Segment.split body.width 0 (tokenize body)
  segments.1 :: segments.2

/-- The field stands in the body as an entry does: it begins at the
start or behind a comma outside all brackets and ends at the next such
comma or at the end; its first colon outside all brackets parts the key
from the tokens `inside`; and the definition, which stands at byte `n`
and is read alone, has the significant tokens of `inside`. -/
def StandsIn (body : Text) (f : Field) : Prop :=
  ∃ before key colon inside after n,
    tokenize body = before ++ (key ++ colon :: (inside ++ after))
    ∧ Segment.IsEntry body.width ⟨key ++ colon :: inside, f.span.stop⟩ before after
    ∧ f.span.start = startOf colon.span.start (significant key)
    ∧ colon.isMark .colon = true ∧ depthBehind 0 key = 0 ∧ Lacks .colon 0 key
    ∧ body.slice n (n + Text.width f.definition) = f.definition
    ∧ significant inside = (significant (tokenize f.definition)).map (·.shift n)

section

variable {body : Text} {s : Segment} {f : Field}

/-- A key that no trivia precede begins at its first token. -/
theorem startOf_significant_key {first colon : PlacedToken} {ts key inside : List PlacedToken}
    (h : first :: ts = key ++ colon :: inside) (hfirst : first.token.isTrivia = false) :
    startOf colon.span.start (significant key) = first.span.start := by
  cases key with
  | nil =>
      obtain ⟨rfl, -⟩ := List.cons.inj h
      rfl
  | cons t key =>
      obtain ⟨rfl, -⟩ := List.cons.inj h
      rw [significant_cons, hfirst]
      rfl

/-- The tokens from which a field is made out of its entry. -/
theorem ofSegment?_spec (h : ofSegment? body s = some f) :
    ∃ key colon inside, s.tokens = key ++ colon :: inside
      ∧ colon.isMark .colon = true ∧ depthBehind 0 key = 0 ∧ Lacks .colon 0 key
      ∧ f.definition = Text.trim (body.slice colon.span.stop s.stop)
      ∧ f.span = Span.of (startOf colon.span.start (significant key)) s.stop := by
  have hlead : significant (s.tokens.takeWhile fun t => t.token.isTrivia) = [] := by
    apply List.filter_eq_nil_iff.2
    intro t ht
    simpa using List.mem_takeWhile_imp ht
  have hsplit := List.takeWhile_append_dropWhile (p := fun t => t.token.isTrivia) (l := s.tokens)
  have hhead := List.head?_dropWhile_not (fun t : PlacedToken => t.token.isTrivia) s.tokens
  unfold ofSegment? at h
  generalize s.tokens.takeWhile (fun t => t.token.isTrivia) = lead at hlead hsplit
  split at h
  · cases h
  · next first ts hdrop =>
      rw [hdrop] at hsplit hhead
      split at h
      · cases h
      · next colon hcolon =>
          obtain ⟨key, inside, hts, hmark, hdepth, hlacks⟩ := Segment.colon?_spec hcolon
          have hfirst : first.token.isTrivia = false := hhead
          dsimp only at h
          split at h
          · cases h
            refine ⟨lead ++ key, colon, inside, ?_, hmark, ?_, ?_, rfl, ?_⟩
            · rw [← hsplit, hts, List.append_assoc]
            · rw [depthBehind_append, depthBehind_of_trivia hlead, hdepth]
            · apply (lacks_of_trivia hlead).append
              rw [depthBehind_of_trivia hlead]
              exact hlacks
            · rw [significant_append, hlead, List.nil_append, startOf_significant_key hts hfirst]
          · cases h

/-- A piece of a text, trimmed and read alone, has the significant
tokens that it has in its place, moved to where it stands. -/
theorem trim_reads {p q r : Text} {ts : List PlacedToken} (hq : tokensFrom true p.width q = ts)
    (hopen : lexWarnings ts = []) :
    ∃ n, (p ++ q ++ r).slice n (n + Text.width (Text.trim q)) = Text.trim q
      ∧ significant ts = (significant (tokenize (Text.trim q))).map (·.shift n) := by
  let lead := q.takeWhile Text.isBlank
  obtain ⟨z, -, hz⟩ := Text.exists_trimEnd (Text.trimStart q)
  have hrest : q = lead ++ (Text.trim q ++ z) := by
    show q = lead ++ (Text.trimEnd (Text.trimStart q) ++ z)
    rw [← hz, Text.trimStart, List.takeWhile_append_dropWhile]
  refine ⟨p.width + Text.width lead, ?_, ?_⟩
  · have hwhole : p ++ q ++ r = (p ++ lead) ++ Text.trim q ++ (z ++ r) := by
      rw [List.append_assoc p, List.append_assoc, List.append_assoc, ← List.append_assoc _ z,
        ← List.append_assoc lead, ← hrest]
    rw [hwhole, ← Text.width_append]
    exact Text.slice_append _ _ _
  · have hmove := tokensFrom_shift true 0 (p.width + Text.width lead) (Text.trim q)
    rw [Nat.zero_add] at hmove
    rw [← hq] at hopen
    rw [← hq, ← significant_map (f := (·.shift _)) fun _ => rfl, tokenize, ← hmove]
    exact significant_trim hopen

/-- An entry begins at one of its tokens, so it ends behind its start. -/
theorem startOf_key_le {us key inside after : List PlacedToken} {colon : PlacedToken}
    (h : tokenize body = us ++ ((key ++ colon :: inside) ++ after)) :
    startOf colon.span.start (significant key) ≤ startOf body.width after := by
  obtain ⟨x, hx, hstart⟩ : ∃ x ∈ us ++ (key ++ colon :: inside),
      startOf colon.span.start (significant key) = x.span.start := by
    cases hkey : significant key with
    | nil => exact ⟨colon, by simp, rfl⟩
    | cons x xs =>
        have hmem : x ∈ significant key := by simp [hkey]
        exact ⟨x, by simp [(List.mem_filter.1 hmem).1], rfl⟩
  rw [← List.append_assoc] at h
  have hle := stop_le_startOf h hx
  rw [Nat.zero_add] at hle
  rw [hstart]
  exact Nat.le_trans x.span.start_le_stop hle

/-- Every field of a body in which nothing is left open stands in it. -/
theorem standsIn_of_mem_split (hopen : lexWarnings (tokenize body) = []) (h : f ∈ split body) :
    f.StandsIn body := by
  obtain ⟨⟨tokens, stop⟩, hs, hf⟩ := List.mem_filterMap.1 h
  obtain ⟨before, after, htokens, hentry⟩ := Segment.split_spec hs
  obtain ⟨key, colon, inside, rfl, hcolon, hdepth, hlacks, hdefinition, hspan⟩ :=
    ofSegment?_spec hf
  have hstop : stop = startOf body.width after := hentry.stop_eq
  have hend : f.span.stop = stop := by
    rw [hspan, Span.stop_of, hstop, Nat.max_eq_left]
    exact startOf_key_le htokens
  have hbody : tokenize body = (before ++ key) ++ colon :: (inside ++ after) := by
    rw [htokens]
    simp
  have hinside : lexWarnings inside = [] := by
    apply List.filterMap_eq_nil_iff.2
    intro x hx
    apply List.filterMap_eq_nil_iff.1 hopen x
    rw [hbody]
    simp [hx]
  obtain ⟨p, q, r, rfl, hcut, hq, hafter⟩ := tokensFrom_between hbody
  rw [Nat.zero_add] at hcut hq hafter
  rw [Nat.zero_add, ← hstop] at hafter
  rw [show colon.token = _ from of_decide_eq_true hcolon] at hq
  rw [hcut, hafter, Text.slice_append] at hdefinition
  obtain ⟨n, hslice, hreads⟩ := trim_reads (r := r) hq hinside
  rw [← hdefinition] at hslice hreads
  refine ⟨before, key, colon, inside, after, n, ?_, hend ▸ hentry, ?_, hcolon, hdepth, hlacks,
    hslice, hreads⟩
  · rw [htokens, List.append_assoc]
    rfl
  · rw [hspan]
    rfl

end

end Field

end SchemaAtlas
