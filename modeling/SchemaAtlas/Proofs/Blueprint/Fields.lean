/-
The fields of a rendered blueprint. The text between the braces of a
declaration falls apart at the commas that were written between the
fields: brackets and braces keep the commas of a definition inside it.
Every part is read as the field it was written for.

- `Passed`: tokens at which no entry of a body ends.
- `FieldPlan.IsReadAs`: what is read of a field.
- `split_body`: the fields of a rendered body.
-/
import SchemaAtlas.Proofs.Blueprint.Unit

namespace SchemaAtlas

namespace Text

-- ==================================================== trimming

/-- A text that begins and ends with something. -/
structure IsFramed (t : Text) : Prop where
  ne_nil : t ≠ []
  head : ∀ c ∈ t.head?, isBlank c = false
  last : ∀ c ∈ t.getLast?, isBlank c = false

theorem dropWhile_framed {s t : Text} (hs : s.all isBlank = true) (hne : t ≠ [])
    (ht : ∀ c ∈ t.head?, isBlank c = false) : (s ++ t).dropWhile isBlank = t := by
  rw [List.dropWhile_append_of_pos (List.all_eq_true.1 hs)]
  cases t with
  | nil => exact absurd rfl hne
  | cons c cs => rw [List.dropWhile_cons, ht c rfl]; rfl

/-- Trimming takes away what is blank around a text and nothing more. -/
theorem trim_framed {s t e : Text} (hs : s.all isBlank = true) (he : e.all isBlank = true)
    (ht : t.IsFramed) : trim (s ++ t ++ e) = t := by
  have hstart : trimStart (s ++ t ++ e) = t ++ e := by
    rw [trimStart, List.append_assoc]
    refine dropWhile_framed hs (by simp [ht.ne_nil]) ?_
    rw [List.head?_append_of_ne_nil _ ht.ne_nil]
    exact ht.head
  have hend : ((t ++ e).reverse.dropWhile isBlank) = t.reverse := by
    rw [List.reverse_append]
    refine dropWhile_framed (by simpa using he) (by simp [ht.ne_nil]) ?_
    rw [List.head?_reverse]
    exact ht.last
  rw [trim, hstart, trimEnd, hend, List.reverse_reverse]

theorem isFramed_enclosed {a b : Char} (ha : isBlank a = false) (hb : isBlank b = false)
    (t : Text) : IsFramed (a :: (t ++ [b])) := by
  refine ⟨List.cons_ne_nil a _, ?_, ?_⟩
  · intro c hc
    cases hc
    exact ha
  · intro c hc
    rw [← List.cons_append, List.getLast?_concat] at hc
    cases hc
    exact hb

/-- The text between two positions, by what stands in front of it. -/
theorem slice_eq {text s t u : Text} {start stop : Nat} (h : text = s ++ t ++ u)
    (hstart : start = s.width) (hstop : stop = s.width + t.width) :
    text.slice start stop = t := by
  rw [h, hstart, hstop, slice_append]

end Text

theorem Word.isFramed_text (w : Word) : w.text.IsFramed := by
  have hmem : ∀ c ∈ w.text, Text.isBlank c = false := fun c hc =>
    Text.isBlank_of_continuesWord (Word.continuesWord_of_mem hc)
  refine ⟨?_, ?_, ?_⟩
  · obtain ⟨c, cs, ht, -⟩ := w.text_eq_cons
    rw [ht]
    exact List.cons_ne_nil c cs
  · intro c hc
    exact hmem c (List.mem_of_mem_head? hc)
  · intro c hc
    exact hmem c (List.mem_of_mem_getLast? hc)

namespace Blueprint

open Lexeme

-- ==================================================== passing over tokens

/-- No entry ends at the tokens `ts`, which lead from one bracket depth
to another. -/
def Passed (depth depth' : Nat) (ts : List PlacedToken) : Prop :=
  ∀ stop rest, Segment.split stop depth (ts ++ rest) =
    ({ (Segment.split stop depth' rest).1 with
        tokens := ts ++ (Segment.split stop depth' rest).1.tokens },
      (Segment.split stop depth' rest).2)

theorem passed_nil (depth : Nat) : Passed depth depth [] := fun _ _ => rfl

theorem Passed.cons {depth depth' : Nat} {t : PlacedToken} {ts : List PlacedToken}
    (ht : (decide (depth = 0) && t.isMark .comma) = false)
    (hts : Passed (t.token.depthAfter depth) depth' ts) : Passed depth depth' (t :: ts) := by
  intro stop rest
  rw [List.cons_append, Segment.split, ht]
  simp only [Bool.false_eq_true, if_false]
  rw [hts stop rest]
  rfl

theorem Passed.append {depth depth' depth'' : Nat} {ts us : List PlacedToken}
    (hts : Passed depth depth' ts) (hus : Passed depth' depth'' us) :
    Passed depth depth'' (ts ++ us) := by
  intro stop rest
  rw [List.append_assoc, hts stop (us ++ rest), hus stop rest]
  simp

/-- Inside brackets no entry ends, whatever stands there, as long as it
opens and closes none. -/
theorem passed_inside {depth : Nat} (hd : depth ≠ 0) {ps : List Lexeme}
    (h : ∀ p ∈ ps, p.token.depthAfter depth = depth) (start : Nat) :
    Passed depth depth (place start ps) := by
  induction ps generalizing start with
  | nil => exact passed_nil depth
  | cons p ps ih =>
      rw [place_cons]
      refine .cons (by simp [hd]) ?_
      show Passed (p.token.depthAfter depth) depth _
      rw [h p List.mem_cons_self]
      exact ih (fun q hq => h q (List.mem_cons_of_mem p hq)) _

/-- What is passed inside brackets is passed together with them. -/
theorem passed_enclosed {depth : Nat} {o c : Mark} (ho : o.opens = true)
    (hc : c.opens = false ∧ c.closes = true) {ps : List Lexeme}
    (h : ∀ start, Passed (depth + 1) (depth + 1) (place start ps)) (start : Nat) :
    Passed depth depth (place start (.mark o :: (ps ++ [.mark c]))) := by
  have hdepth : (Token.mark o).depthAfter depth = depth + 1 := by
    simp [Token.depthAfter, ho]
  have hdepth' : (Token.mark c).depthAfter (depth + 1) = depth := by
    simp [Token.depthAfter, hc]
  have hcomma : o ≠ .comma := by
    rintro rfl
    cases ho
  rw [place_cons, place_append]
  refine .cons (by simp [PlacedToken.isMark, token, hcomma]) ?_
  show Passed ((Token.mark o).depthAfter depth) depth _
  rw [hdepth]
  refine .append (h _) (.cons (by simp) ?_)
  show Passed ((Token.mark c).depthAfter (depth + 1)) depth []
  rw [hdepth']
  exact passed_nil depth

section

variable (depth start : Nat)

theorem passed_word (w : Word) : Passed depth depth (place start [.word w]) := by
  refine .cons (by simp [PlacedToken.isMark, token]) ?_
  show Passed ((wordToken w.text).depthAfter depth) depth []
  rw [wordToken_depthAfter]
  exact passed_nil depth

theorem passed_bracketed (many : Bool) {ps : List Lexeme}
    (h : ∀ depth start, Passed depth depth (place start ps)) :
    Passed depth depth (place start (bracketed many ps)) := by
  cases many with
  | false => exact h depth start
  | true => exact passed_enclosed rfl ⟨rfl, rfl⟩ (h (depth + 1)) start

theorem passed_idReference (q : Quotable) : Passed depth depth (place start (idReference q)) := by
  have hmembers : ∀ p ∈ idMembers q, p.token.depthAfter (depth + 1) = depth + 1 := by
    simp [idMembers, token, Token.depthAfter, Mark.opens, Mark.closes]
  exact passed_enclosed rfl ⟨rfl, rfl⟩ (passed_inside (Nat.succ_ne_zero depth) hmembers) start

/-- No entry ends inside a definition. -/
theorem passed_shape (s : Shape) : Passed depth depth (place start s.lexemes) := by
  cases s with
  | plain type => exact passed_word depth start type
  | reference many target =>
      exact passed_bracketed depth start many fun d n => passed_idReference d n target
  | nested many schema =>
      exact passed_bracketed depth start many fun d n => passed_word d n schema

/-- No entry ends inside a field. -/
theorem passed_field (f : FieldPlan) : Passed 0 0 (place start f.lexemes) := by
  refine .cons (by rfl) (.cons (by simp [PlacedToken.isMark, token]) ?_)
  show Passed ((wordToken f.name.text).depthAfter 0) 0 _
  rw [wordToken_depthAfter]
  exact .cons (by rfl) (.cons (by rfl) (passed_shape 0 _ f.shape))

end

-- ==================================================== one field

/-- A field says what a plan says: its name and its definition. -/
def FieldPlan.IsReadAs (f : FieldPlan) (d : Field) : Prop :=
  d.name = f.name.name ∧ d.definition = spell f.shape.lexemes

/-- A definition begins and ends with something. -/
theorem isFramed_shape (s : Shape) : (spell s.lexemes).IsFramed := by
  have henclosed : ∀ (o c : Mark) (ps : List Lexeme),
      (spell (.mark o :: (ps ++ [.mark c]))).IsFramed := by
    intro o c ps
    have hmark : ∀ m : Mark, Text.isBlank m.char = false := by
      intro m
      cases m <;> rfl
    rw [spell_cons, spell_append]
    exact Text.isFramed_enclosed (hmark o) (hmark c) (spell ps)
  have hword : ∀ w : Word, (spell [.word w]).IsFramed := by
    intro w
    rw [spell_cons, spell_nil, List.append_nil]
    exact w.isFramed_text
  cases s with
  | plain type => exact hword type
  | reference many target =>
      cases many with
      | false => exact henclosed .leftBrace .rightBrace (idMembers target)
      | true => exact henclosed .leftBracket .rightBracket (idReference target)
  | nested many schema =>
      cases many with
      | false => exact hword schema
      | true => exact henclosed .leftBracket .rightBracket [.word schema]

theorem isSupportedName_word (w : Word) : Field.isSupportedName w.name = true := by
  have hne : w.name.toList.isEmpty = false := by
    obtain ⟨c, cs, ht, -⟩ := w.text_eq_cons
    rw [Word.name, String.toList_ofList, ht]
    rfl
  have hblank : w.name.toList.any Text.isBlank = false := by
    rw [Word.name, String.toList_ofList, List.any_eq_false]
    intro c hc
    rw [Text.isBlank_of_continuesWord (Word.continuesWord_of_mem hc)]
    decide
  rw [Field.isSupportedName, hne, hblank]
  rfl

/-- An entry that begins with a word and a colon is a field of that
name. -/
theorem ofSegment?_word {body : Text} {w : Word} {sb sw sc : Span} {ts : List PlacedToken}
    {stop : Nat} (hkey : Text.trim (body.slice sw.start sc.start) = w.text) :
    Field.ofSegment? body
        ⟨⟨.space, sb⟩ :: ⟨wordToken w.text, sw⟩ :: ⟨.mark .colon, sc⟩ :: ts, stop⟩ =
      some ⟨w.name, Text.trim (body.slice sc.stop stop), Span.of sw.start stop⟩ := by
  have hfirst : (⟨.space, sb⟩ :: ⟨wordToken w.text, sw⟩ :: ⟨.mark .colon, sc⟩ :: ts).dropWhile
      (fun t : PlacedToken => t.token.isTrivia) =
      ⟨wordToken w.text, sw⟩ :: ⟨.mark .colon, sc⟩ :: ts := by
    rw [List.dropWhile_cons_of_pos (by rfl), List.dropWhile_cons_of_neg (by simp)]
  have hcolon : Segment.colon? 0 (⟨wordToken w.text, sw⟩ :: ⟨.mark .colon, sc⟩ :: ts) =
      some ⟨.mark .colon, sc⟩ := by
    simp [Segment.colon?, PlacedToken.isMark]
  have hname : Field.nameOf ⟨wordToken w.text, sw⟩ w.text = w.name := by
    simp [Field.nameOf, Word.name]
  unfold Field.ofSegment?
  rw [hfirst]
  simp only [hcolon, hkey, hname, isSupportedName_word, if_true]

/-- The entry that a field was written as is read as that field. -/
theorem ofSegment?_field {body u v : Text} (f : FieldPlan) {tail : List Lexeme}
    (htail : (spell tail).all Text.isBlank = true)
    (hbody : body = u ++ spell (f.lexemes ++ tail) ++ v) :
    ∃ d, f.IsReadAs d ∧
      Field.ofSegment? body ⟨place u.width (f.lexemes ++ tail),
        u.width + (spell (f.lexemes ++ tail)).width⟩ = some d := by
  let name := f.name.text
  let stop := u.width + (spell (f.lexemes ++ tail)).width
  have hkey : Text.trim (body.slice (u.width + 1) (u.width + 1 + name.width)) = name := by
    have hsplit : body = u ++ [' '] ++ name ++ (':' :: ' ' :: spell (f.shape.lexemes ++ tail) ++ v) := by
      simp [hbody, FieldPlan.lexemes, Lexeme.text, Mark.char, name]
    have htrim := Text.trim_framed (t := name) (s := []) (e := []) rfl rfl f.name.isFramed_text
    rw [Text.slice_eq hsplit (by simp [Char.utf8Size]) (by simp [Char.utf8Size])]
    rwa [List.nil_append, List.append_nil] at htrim
  have hdefinition : Text.trim (body.slice (u.width + 1 + name.width + 1) stop) =
      spell f.shape.lexemes := by
    have hsplit : body = u ++ ' ' :: name ++ [':'] ++ ([' '] ++ spell f.shape.lexemes ++ spell tail)
        ++ v := by
      simp [hbody, FieldPlan.lexemes, Lexeme.text, Mark.char, name]
    rw [Text.slice_eq hsplit]
    · exact Text.trim_framed rfl htail (isFramed_shape f.shape)
    · simp [Char.utf8Size, Nat.add_assoc]
    · simp [stop, FieldPlan.lexemes, Lexeme.text, Mark.char, name, Char.utf8Size, Nat.add_assoc]
  refine ⟨⟨f.name.name, spell f.shape.lexemes, Span.of (u.width + 1) stop⟩, ⟨rfl, rfl⟩, ?_⟩
  have htokens : place u.width (f.lexemes ++ tail) =
      ⟨.space, Span.of u.width (u.width + 1)⟩
        :: ⟨wordToken name, Span.of (u.width + 1) (u.width + 1 + name.width)⟩
        :: ⟨.mark .colon, Span.of (u.width + 1 + name.width) (u.width + 1 + name.width + 1)⟩
        :: place (u.width + 1 + name.width + 1) (.blank :: f.shape.lexemes ++ tail) := rfl
  have hstop : max (u.width + 1 + name.width + 1) (u.width + 1 + name.width) =
      u.width + 1 + name.width + 1 := Nat.max_eq_left (Nat.le_succ _)
  rw [htokens]
  refine (ofSegment?_word hkey).trans ?_
  rw [Span.stop_of, hstop, hdefinition]
  rfl

-- ==================================================== all fields

/-- The entries of a token list that ends at byte `stop`. -/
def entries (stop : Nat) (ts : List PlacedToken) : List Segment :=
  (Segment.split stop 0 ts).1 :: (Segment.split stop 0 ts).2

theorem Passed.entries_eq {ts : List PlacedToken} (h : Passed 0 0 ts) (stop : Nat) :
    entries stop ts = [⟨ts, stop⟩] := by
  have hts := h stop []
  rw [List.append_nil] at hts
  rw [entries, hts]
  simp [Segment.split]

/-- A comma ends the entry in front of it. -/
theorem Passed.entries_comma {ts : List PlacedToken} (h : Passed 0 0 ts) (stop : Nat) (sc : Span)
    (rest : List PlacedToken) :
    entries stop (ts ++ ⟨.mark .comma, sc⟩ :: rest) = ⟨ts, sc.start⟩ :: entries stop rest := by
  rw [entries, h stop]
  simp [entries, Segment.split, PlacedToken.isMark]

/-- The entries of a rendered body are read as the fields in turn. -/
theorem fields_entries {body u : Text} (fs : List FieldPlan)
    (hbody : body = u ++ spell (fieldLexemes fs ++ [.blank])) :
    List.Forall₂ FieldPlan.IsReadAs fs
      ((entries body.width (place u.width (fieldLexemes fs ++ [.blank]))).filterMap
        (Field.ofSegment? body)) := by
  induction fs using fieldLexemes.induct generalizing u with
  | case1 => exact .nil
  | case2 f =>
      have hpassed : Passed 0 0 (place u.width (f.lexemes ++ [.blank])) := by
        rw [place_append]
        exact .append (passed_field _ f) (.cons (by rfl) (passed_nil 0))
      have hwidth : body.width = u.width + (spell (f.lexemes ++ [.blank])).width := by
        rw [hbody, Text.width_append]
        rfl
      have hfield : body = u ++ spell (f.lexemes ++ [.blank]) ++ [] := by
        rw [hbody, List.append_nil]
        rfl
      obtain ⟨d, hd, hread⟩ := ofSegment?_field f (by rfl) hfield
      rw [fieldLexemes, hpassed.entries_eq, hwidth, List.filterMap_cons_some hread]
      exact .cons hd .nil
  | case3 f fs hne ih =>
      let ps := fieldLexemes fs ++ [.blank]
      have hlexemes : fieldLexemes (f :: fs) ++ [.blank] = f.lexemes ++ .mark .comma :: ps := by
        rw [fieldLexemes, List.append_assoc]
        · rfl
        · exact hne
      -- for the later fields the first one belongs to the text in front
      let u' := u ++ spell f.lexemes ++ [',']
      have hwidth : u'.width = u.width + (spell f.lexemes).width + 1 := by
        simp [u', Char.utf8Size, Nat.add_assoc]
      have hfield : body = u ++ spell (f.lexemes ++ []) ++ ',' :: spell ps := by
        rw [hbody, hlexemes, List.append_nil, spell_append, ← List.append_assoc]
        rfl
      have hlater : body = u' ++ spell ps := by
        rw [hfield, List.append_nil]
        simp [u']
      have htokens : place u.width (f.lexemes ++ .mark .comma :: ps) =
          place u.width f.lexemes ++ ⟨.mark .comma, Span.of (u.width + (spell f.lexemes).width)
            (u.width + (spell f.lexemes).width + 1)⟩ :: place u'.width ps := by
        rw [place_append, hwidth]
        rfl
      obtain ⟨d, hd, hread⟩ := ofSegment?_field f (by rfl) hfield
      rw [List.append_nil] at hread
      rw [hlexemes, htokens, (passed_field u.width f).entries_comma, Span.start_of,
        List.filterMap_cons_some hread]
      exact .cons hd (ih hlater)

/-- The fields of a rendered body are those of the schema. -/
theorem split_body (s : SchemaPlan) :
    List.Forall₂ FieldPlan.IsReadAs s.fields (Field.split (spell s.body)) := by
  unfold Field.split
  rw [tokenize_spell (separated_body s)]
  exact fields_entries s.fields (List.nil_append _).symm

end Blueprint

end SchemaAtlas
