/-
Scanning the lines of a rendered blueprint. The scanner finds one thing
on each line, the declaration or the registration it was written for:
no word of a body can be taken for the beginning of either, and the
braces of a body match.

- `Skips`: tokens at which the scanner finds nothing.
- `Balanced`: tokens in which every brace is closed.
- `all_declaration`, `all_registration`: the findings on one line.
-/
import SchemaAtlas.Proofs.Blueprint.Basic
import SchemaAtlas.Proofs.Catalog.Shape

namespace SchemaAtlas

namespace Lexeme

-- ==================================================== significant tokens

/-- The significant tokens of lexemes that begin at byte `start`. -/
def tokensAt (start : Nat) (ps : List Lexeme) : List PlacedToken :=
  significant (place start ps)

section

variable (start : Nat) (ps : List Lexeme)

@[simp] theorem tokensAt_nil : tokensAt start [] = [] := rfl

theorem tokensAt_append (qs : List Lexeme) :
    tokensAt start (ps ++ qs) = tokensAt start ps ++ tokensAt (start + (spell ps).width) qs := by
  unfold tokensAt significant
  rw [place_append, List.filter_append]

@[simp] theorem tokensAt_word (w : Word) :
    tokensAt start (.word w :: ps) =
      ⟨wordToken w.text, Span.of start (start + w.text.width)⟩
        :: tokensAt (start + w.text.width) ps := by
  simp [tokensAt, significant, token, text]

@[simp] theorem tokensAt_mark (m : Mark) :
    tokensAt start (.mark m :: ps) =
      ⟨.mark m, Span.of start (start + m.char.utf8Size)⟩
        :: tokensAt (start + m.char.utf8Size) ps := by
  simp [tokensAt, significant, token, text, Token.isTrivia]

@[simp] theorem tokensAt_quoted (q : Quotable) :
    tokensAt start (.quoted q :: ps) =
      ⟨.string (String.ofList q.text) '\'' true,
        Span.of start (start + (quoted q).text.width)⟩
        :: tokensAt (start + (quoted q).text.width) ps := by
  simp [tokensAt, significant, token, Token.isTrivia]

@[simp] theorem tokensAt_blank : tokensAt start (.blank :: ps) = tokensAt (start + 1) ps := by
  simp [tokensAt, significant, token, text, Token.isTrivia, Char.utf8Size]

@[simp] theorem tokensAt_lineBreak :
    tokensAt start (.lineBreak :: ps) = tokensAt (start + 1) ps := by
  simp [tokensAt, significant, token, text, Token.isTrivia, Char.utf8Size]

end

end Lexeme

namespace Blueprint

open Lexeme

-- ==================================================== passing over tokens

/-- Marks behind which a word neither declares nor registers. -/
def isCalm (m : Mark) : Bool :=
  m ≠ .leftParen && m ≠ .leftAngle

/-- The scanner finds nothing at the tokens `ts` when `rest` follows. -/
def Skips (ts rest : List PlacedToken) : Prop :=
  ∀ unit before,
    Finding.all unit before (ts ++ rest) = Finding.all unit (ts.reverse ++ before) rest

theorem skips_nil (rest : List PlacedToken) : Skips [] rest := fun _ _ => rfl

theorem Skips.cons {t : PlacedToken} {ts rest : List PlacedToken}
    (ht : ∀ unit before, Finding.at? unit before t (ts ++ rest) = none)
    (hts : Skips ts rest) : Skips (t :: ts) rest := by
  intro unit before
  rw [List.cons_append, Finding.all, ht unit before]
  show Finding.all unit (t :: before) (ts ++ rest) = _
  rw [hts unit (t :: before), List.reverse_cons, List.append_assoc]
  rfl

theorem Skips.append {ts us rest : List PlacedToken} (hts : Skips ts (us ++ rest))
    (hus : Skips us rest) : Skips (ts ++ us) rest := by
  intro unit before
  rw [List.append_assoc, hts unit before, hus unit (ts.reverse ++ before),
    List.reverse_append, List.append_assoc]

/-- A mark begins nothing. -/
theorem Skips.mark {m : Mark} {sp : Span} {ts rest : List PlacedToken} (h : Skips ts rest) :
    Skips (⟨.mark m, sp⟩ :: ts) rest :=
  h.cons fun _ _ => rfl

/-- A literal begins nothing. -/
theorem Skips.string {c : String} {q : Char} {closed : Bool} {sp : Span}
    {ts rest : List PlacedToken} (h : Skips ts rest) :
    Skips (⟨.string c q closed, sp⟩ :: ts) rest :=
  h.cons fun _ _ => rfl

/-- A calm mark opens no call. -/
theorem call?_mark {m : Mark} (hm : isCalm m = true) (sm : Span) (ts : List PlacedToken) :
    Shape.call? (⟨.mark m, sm⟩ :: ts) = none := by
  have hne : m ≠ .leftParen ∧ m ≠ .leftAngle := by simpa [isCalm] using hm
  have hskip : Shape.skipTypeArguments (⟨.mark m, sm⟩ :: ts) = some (⟨.mark m, sm⟩ :: ts) := by
    simp [Shape.skipTypeArguments, PlacedToken.isMark, hne.2]
  rw [Shape.call?, hskip]
  cases ts with
  | nil => rfl
  | cons u ts =>
      cases ts with
      | nil => rfl
      | cons v ts => simp [PlacedToken.isMark, hne.1]

/-- No finding at a word with a calm mark behind it. -/
theorem at?_word {m : Mark} (hm : isCalm m = true) (w : Text) (sp sm : Span)
    (unit : SourceUnit) (before ts : List PlacedToken) :
    Finding.at? unit before ⟨wordToken w, sp⟩ (⟨.mark m, sm⟩ :: ts) = none := by
  have hdecl : Finding.ofDeclaration unit (⟨.mark m, sm⟩ :: ts) = none := by
    cases ts <;> rfl
  have hmodel : Finding.ofModel unit before sp (⟨.mark m, sm⟩ :: ts) = none := by
    rw [Finding.ofModel, call?_mark hm]
  unfold Finding.at?
  rcases wordToken_cases w with ⟨k, h⟩ | h
  · simp [h, hdecl]
  · simp only [h]
    split
    · next hk => cases hk
    · exact hmodel
    · rfl

/-- A word with a calm mark behind it begins nothing. -/
theorem Skips.word {m : Mark} (hm : isCalm m = true) {w : Text} {sp sm : Span}
    {ts rest : List PlacedToken} (h : Skips (⟨.mark m, sm⟩ :: ts) rest) :
    Skips (⟨wordToken w, sp⟩ :: ⟨.mark m, sm⟩ :: ts) rest :=
  h.cons (at?_word hm w sp sm · · _)

/-- A last word with a calm mark behind it begins nothing. -/
theorem skips_word {m : Mark} (hm : isCalm m = true) {w : Text} {sp sm : Span}
    {rest : List PlacedToken} : Skips [⟨wordToken w, sp⟩] (⟨.mark m, sm⟩ :: rest) :=
  (skips_nil _).cons (at?_word hm w sp sm · · _)

-- ==================================================== declarations

theorem skips_idMembers (start : Nat) (q : Quotable) (rest : List PlacedToken) :
    Skips (tokensAt start (idMembers q)) rest := by
  simp only [idMembers, tokensAt_mark, tokensAt_blank, tokensAt_word, tokensAt_quoted,
    tokensAt_nil]
  refine .word rfl (.mark (.word rfl (.mark (.word rfl (.mark ?_)))))
  exact .word rfl (.mark (.word rfl (.mark (.string (skips_nil rest)))))

theorem skips_idReference (start : Nat) (q : Quotable) (rest : List PlacedToken) :
    Skips (tokensAt start (idReference q)) rest := by
  rw [idReference, List.cons_append, tokensAt_mark, tokensAt_append, tokensAt_mark]
  exact .mark (.append (skips_idMembers _ q _) (.mark (skips_nil rest)))

section

variable {m : Mark} (hm : isCalm m = true) (sm : Span) (rest : List PlacedToken)
include hm

theorem skips_bracketed (start : Nat) (many : Bool) {ps : List Lexeme}
    (h : ∀ {m : Mark}, isCalm m = true → ∀ sm rest start,
      Skips (tokensAt start ps) (⟨.mark m, sm⟩ :: rest)) :
    Skips (tokensAt start (bracketed many ps)) (⟨.mark m, sm⟩ :: rest) := by
  cases many with
  | false => exact h hm sm rest start
  | true =>
      simp only [bracketed, if_true, tokensAt_mark, tokensAt_append, tokensAt_nil]
      exact .mark (.append (h rfl _ _ _) (.mark (skips_nil _)))

theorem skips_shape (start : Nat) (s : Shape) :
    Skips (tokensAt start s.lexemes) (⟨.mark m, sm⟩ :: rest) := by
  have hword : ∀ (w : Word) {m : Mark}, isCalm m = true → ∀ sm rest start,
      Skips (tokensAt start [.word w]) (⟨.mark m, sm⟩ :: rest) := by
    intro w m hm sm rest start
    rw [tokensAt_word, tokensAt_nil]
    exact skips_word hm
  cases s with
  | plain type => exact hword type hm sm rest start
  | reference many target =>
      exact skips_bracketed hm sm rest start many fun _ _ _ n => skips_idReference n target _
  | nested many schema => exact skips_bracketed hm sm rest start many (hword schema)

theorem skips_field (start : Nat) (f : FieldPlan) :
    Skips (tokensAt start f.lexemes) (⟨.mark m, sm⟩ :: rest) := by
  simp only [FieldPlan.lexemes, tokensAt_blank, tokensAt_word, tokensAt_mark]
  exact .word rfl (.mark (skips_shape hm sm rest _ f.shape))

theorem skips_fields (start : Nat) (fs : List FieldPlan) :
    Skips (tokensAt start (fieldLexemes fs)) (⟨.mark m, sm⟩ :: rest) := by
  induction fs using fieldLexemes.induct generalizing start with
  | case1 => exact skips_nil _
  | case2 f => exact skips_field hm sm rest start f
  | case3 f fs _ ih =>
      rw [fieldLexemes, tokensAt_append, tokensAt_mark]
      · exact .append (skips_field rfl _ _ start f) (.mark (ih _))
      · assumption

end

section

variable (start : Nat) (s : SchemaPlan) (rest : List PlacedToken)

theorem skips_new : Skips (tokensAt start s.newLexemes) rest := by
  unfold SchemaPlan.newLexemes
  split
  · simp only [tokensAt_word, tokensAt_blank, tokensAt_nil]
    exact (skips_nil rest).cons fun _ _ => rfl
  · exact skips_nil rest

theorem skips_path : Skips (tokensAt start s.pathLexemes) rest := by
  unfold SchemaPlan.pathLexemes
  split
  · simp only [tokensAt_word, tokensAt_mark, tokensAt_nil]
    exact .word rfl (.mark ((skips_nil rest).cons fun _ _ => rfl))
  · simp only [tokensAt_word, tokensAt_nil]
    exact (skips_nil rest).cons fun _ _ => rfl

theorem skips_argument : Skips (tokensAt start s.argumentLexemes) rest := by
  unfold SchemaPlan.argumentLexemes
  split
  · simp only [tokensAt_word, tokensAt_mark, tokensAt_nil]
    exact .mark (.word rfl (.mark (skips_nil rest)))
  · exact skips_nil rest

/-- Behind its first word a heading holds nothing to be found. -/
theorem skips_heading : Skips (tokensAt start s.heading) rest := by
  simp only [SchemaPlan.heading, tokensAt_append, List.append_assoc]
  refine .append ?_ (.append (skips_new _ s _) (.append (skips_path _ s _)
    (.append (skips_argument _ s _) ?_)))
  · simp only [tokensAt_blank, tokensAt_word, tokensAt_mark, tokensAt_nil]
    exact .word rfl (.mark (skips_nil _))
  · rw [tokensAt_mark]
    exact .mark (skips_nil rest)

end

-- ==================================================== matching braces

/-- Tokens in which every brace is closed again. -/
def Balanced (ts : List PlacedToken) : Prop :=
  ∀ depth rest, Shape.closeBraces depth (ts ++ rest) =
    (Shape.closeBraces depth rest).map fun b => (ts ++ b.1, b.2)

theorem balanced_nil : Balanced [] := by
  intro depth rest
  simp

theorem Balanced.append {ts us : List PlacedToken} (hts : Balanced ts) (hus : Balanced us) :
    Balanced (ts ++ us) := by
  intro depth rest
  rw [List.append_assoc, hts depth (us ++ rest), hus depth rest, Option.map_map]
  simp [Function.comp_def]

theorem Balanced.cons {t : PlacedToken} {ts : List PlacedToken}
    (hl : t.token ≠ .mark .leftBrace) (hr : t.token ≠ .mark .rightBrace) (h : Balanced ts) :
    Balanced (t :: ts) := by
  intro depth rest
  rw [List.cons_append, Shape.closeBraces_other hl hr, h depth rest, Option.map_map]
  rfl

theorem Balanced.word {w : Text} {sp : Span} {ts : List PlacedToken} (h : Balanced ts) :
    Balanced (⟨wordToken w, sp⟩ :: ts) :=
  h.cons (wordToken_ne_mark w _) (wordToken_ne_mark w _)

/-- Between braces balanced tokens stay balanced. -/
theorem Balanced.braces {ts : List PlacedToken} (h : Balanced ts) (sl sr : Span) :
    Balanced (⟨.mark .leftBrace, sl⟩ :: (ts ++ [⟨.mark .rightBrace, sr⟩])) := by
  intro depth rest
  rw [List.cons_append, Shape.closeBraces_opening rfl, List.append_assoc, h (depth + 1),
    List.singleton_append, Shape.closeBraces_closing rfl]
  simp [Function.comp_def]

/-- Balanced tokens are all that stands in front of the brace behind
them. -/
theorem Balanced.closeBraces_eq {ts : List PlacedToken} (h : Balanced ts) (sp : Span)
    (rest : List PlacedToken) :
    Shape.closeBraces 0 (ts ++ ⟨.mark .rightBrace, sp⟩ :: rest) =
      some (ts, ⟨.mark .rightBrace, sp⟩, rest) := by
  rw [h 0]
  simp [Shape.closeBraces]

theorem Balanced.mark {m : Mark} {sp : Span} {ts : List PlacedToken}
    (hl : m ≠ .leftBrace) (hr : m ≠ .rightBrace) (h : Balanced ts) :
    Balanced (⟨.mark m, sp⟩ :: ts) :=
  h.cons (fun e => hl (Token.mark.inj e)) (fun e => hr (Token.mark.inj e))

section

variable (start : Nat)

theorem balanced_idReference (q : Quotable) : Balanced (tokensAt start (idReference q)) := by
  rw [idReference, List.cons_append, tokensAt_mark, tokensAt_append, tokensAt_mark]
  refine .braces ?_ _ _
  simp only [idMembers, tokensAt_mark, tokensAt_blank, tokensAt_word, tokensAt_quoted,
    tokensAt_nil]
  have hm : ∀ {m : Mark} {sp : Span} {ts : List PlacedToken}, m = .colon ∨ m = .dot ∨ m = .comma →
      Balanced ts → Balanced (⟨.mark m, sp⟩ :: ts) := by
    rintro m sp ts (rfl | rfl | rfl) h <;> exact h.mark (by decide) (by decide)
  refine .word (hm (by simp) (.word (hm (by simp) (.word (hm (by simp) (.word (hm (by simp) ?_)))))))
  exact .word (hm (by simp) (balanced_nil.cons (by simp) (by simp)))

theorem balanced_bracketed (many : Bool) {ps : List Lexeme}
    (h : ∀ n, Balanced (tokensAt n ps)) : Balanced (tokensAt start (bracketed many ps)) := by
  cases many with
  | false => exact h start
  | true =>
      simp only [bracketed, if_true, tokensAt_mark, tokensAt_append, tokensAt_nil]
      exact .mark (by decide) (by decide)
        (.append (h _) (balanced_nil.mark (by decide) (by decide)))

theorem balanced_shape (s : Shape) : Balanced (tokensAt start s.lexemes) := by
  have hword : ∀ (w : Word) n, Balanced (tokensAt n [.word w]) := by
    intro w n
    rw [tokensAt_word]
    exact balanced_nil.word
  cases s with
  | plain type => exact hword type start
  | reference many target => exact balanced_bracketed start many fun n => balanced_idReference n target
  | nested many schema => exact balanced_bracketed start many (hword schema)

theorem balanced_field (f : FieldPlan) : Balanced (tokensAt start f.lexemes) := by
  simp only [FieldPlan.lexemes, tokensAt_blank, tokensAt_word, tokensAt_mark]
  exact .word (.mark (by decide) (by decide) (balanced_shape _ f.shape))

theorem balanced_fields (fs : List FieldPlan) : Balanced (tokensAt start (fieldLexemes fs)) := by
  induction fs using fieldLexemes.induct generalizing start with
  | case1 => exact balanced_nil
  | case2 f => exact balanced_field start f
  | case3 f fs _ ih =>
      rw [fieldLexemes, tokensAt_append, tokensAt_mark]
      · exact .append (balanced_field start f) (.mark (by decide) (by decide) (ih _))
      · assumption

end

-- ==================================================== headers

section

variable (start : Nat) (s : SchemaPlan)

/-- Only a written `new` is skipped. -/
theorem skipNew_new (next : Nat) (rest : List PlacedToken) :
    Shape.skipNew (tokensAt start s.newLexemes ++ (tokensAt next s.pathLexemes ++ rest)) =
      tokensAt next s.pathLexemes ++ rest := by
  unfold SchemaPlan.newLexemes
  split
  · simp only [tokensAt_word, tokensAt_blank, tokensAt_nil]
    rfl
  · unfold SchemaPlan.pathLexemes
    split <;> simp only [tokensAt_word, tokensAt_mark, tokensAt_nil] <;> rfl

omit start s in
theorem dottedPath_dot {name : String} {sn sd : Span} {ts : List PlacedToken}
    {path : String × List PlacedToken} (h : Shape.dottedPath ts = some path) :
    Shape.dottedPath (⟨.identifier name, sn⟩ :: ⟨.mark .dot, sd⟩ :: ts) = some path := by
  simp [Shape.dottedPath, PlacedToken.isMark, h]

/-- The constructor's path ends with `Schema`. -/
theorem dottedPath_path {t : PlacedToken} (ht : t.isMark .dot = false)
    (rest : List PlacedToken) :
    Shape.dottedPath (tokensAt start s.pathLexemes ++ t :: rest) = some ("Schema", t :: rest) := by
  have hend : ∀ sp, Shape.dottedPath (⟨wordToken "Schema".toList, sp⟩ :: t :: rest) =
      some ("Schema", t :: rest) := by
    intro sp
    show (if t.isMark .dot = true then _ else some ("Schema", t :: rest)) = _
    rw [ht]
    rfl
  unfold SchemaPlan.pathLexemes
  split
  · simp only [tokensAt_word, tokensAt_mark, tokensAt_nil, List.cons_append, List.nil_append]
    exact dottedPath_dot (hend _)
  · simp only [tokensAt_word, tokensAt_nil, List.cons_append, List.nil_append]
    exact hend _

/-- A type argument is skipped. -/
theorem skipTypeArguments_argument (sp : Span) (rest : List PlacedToken) :
    Shape.skipTypeArguments (tokensAt start s.argumentLexemes ++ ⟨.mark .leftParen, sp⟩ :: rest) =
      some (⟨.mark .leftParen, sp⟩ :: rest) := by
  unfold SchemaPlan.argumentLexemes
  split
  · next i _ =>
      simp only [tokensAt_word, tokensAt_mark, tokensAt_nil, List.cons_append, List.nil_append]
      rcases wordToken_cases i.text with ⟨k, h⟩ | h <;> rw [h] <;> rfl
  · rfl

/-- Behind the equals sign a heading names the constructor `Schema`. -/
theorem dottedPath_heading (next last : Nat) (sp : Span) (rest : List PlacedToken) :
    Shape.dottedPath (Shape.skipNew (tokensAt start s.newLexemes ++ (tokensAt next s.pathLexemes
      ++ (tokensAt last s.argumentLexemes ++ ⟨.mark .leftParen, sp⟩ :: rest)))) =
      some ("Schema", tokensAt last s.argumentLexemes ++ ⟨.mark .leftParen, sp⟩ :: rest) := by
  have hhead : ∃ t ts, tokensAt last s.argumentLexemes ++ ⟨.mark .leftParen, sp⟩ :: rest = t :: ts
      ∧ t.isMark .dot = false := by
    unfold SchemaPlan.argumentLexemes
    split
    · simp only [tokensAt_mark, List.cons_append]
      exact ⟨_, _, rfl, rfl⟩
    · exact ⟨_, _, rfl, rfl⟩
  obtain ⟨t, ts, hts, ht⟩ := hhead
  rw [skipNew_new, hts]
  exact dottedPath_path next s ht ts

omit start s in
/-- A head is recognized by its path and what its type argument leaves. -/
theorem header?_eq {name : String} {sn se sp sb : Span} {ts us rest : List PlacedToken}
    (hpath : Shape.dottedPath (Shape.skipNew ts) = some ("Schema", us))
    (hargument : Shape.skipTypeArguments us =
      some (⟨.mark .leftParen, sp⟩ :: ⟨.mark .leftBrace, sb⟩ :: rest)) :
    Shape.header? (⟨.identifier name, sn⟩ :: ⟨.mark .equals, se⟩ :: ts) =
      some ⟨name, sn, sb, rest⟩ := by
  simp [Shape.header?, PlacedToken.isMark, hpath, hargument]

/-- The head of a declaration is recognized, whatever its wording. -/
theorem header?_heading (sp : Span) (rest : List PlacedToken) :
    ∃ nameSpan, Shape.header? (tokensAt start s.heading ++ ⟨.mark .leftBrace, sp⟩ :: rest) =
      some ⟨s.name.name, nameSpan, sp, rest⟩ := by
  simp only [SchemaPlan.heading, tokensAt_append, List.append_assoc, tokensAt_blank,
    tokensAt_word, tokensAt_mark, tokensAt_nil, List.cons_append, List.nil_append,
    Word.wordToken_of_not_reserved s.name_not_reserved]
  exact ⟨_, header?_eq (dottedPath_heading _ s _ _ _ _) (skipTypeArguments_argument _ s _ _)⟩

end

-- ==================================================== findings

/-- A declaration says what a plan says: its name and its body. -/
def SchemaPlan.IsDeclaredBy (s : SchemaPlan) (d : Declaration) : Prop :=
  d.name = s.name.name ∧ d.body = spell s.body

/-- A registration says what a plan says: the schema and the model. -/
def SchemaPlan.IsRegisteredBy (s : SchemaPlan) (r : Registration) : Prop :=
  r.schemaName = s.name.name ∧ s.model.map (fun m => String.ofList m.text) = some r.displayName

/-- A line yields what is found at its first token, if there is nothing
to be found behind. -/
theorem all_of_first {unit : SourceUnit} {before ts rest : List PlacedToken}
    {t : PlacedToken} {f : Finding} (hf : Finding.at? unit before t (ts ++ rest) = some f)
    (hts : Skips ts rest) :
    Finding.all unit before (t :: ts ++ rest) =
      f :: Finding.all unit ((t :: ts).reverse ++ before) rest := by
  rw [List.cons_append, Finding.all, hf]
  show f :: Finding.all unit (t :: before) (ts ++ rest) = _
  rw [hts unit (t :: before), List.reverse_cons, List.append_assoc]
  rfl

/-- A head with balanced tokens and a closing brace behind it declares
the text between the braces. -/
theorem ofDeclaration_eq {ts body rest : List PlacedToken} {name : String} {sn sb sc : Span}
    (hhead : Shape.header? ts = some ⟨name, sn, sb, body ++ ⟨.mark .rightBrace, sc⟩ :: rest⟩)
    (hbody : Balanced body) (unit : SourceUnit) :
    Finding.ofDeclaration unit ts =
      some (.declaration ⟨name, unit.text.slice sb.stop sc.start, unit.global sn,
        sb.stop + unit.start, unit.name⟩) := by
  simp [Finding.ofDeclaration, hhead, hbody.closeBraces_eq]

section

variable (u v : Text) (unit : Option String) (before rest : List PlacedToken) (s : SchemaPlan)

/-- The first word of a declaration's line is a keyword that binds. -/
theorem wordToken_opening : wordToken s.opening.text = .keyword s.keyword := by
  show wordToken s.keyword.word.toList = .keyword s.keyword
  cases s.keyword <;> rfl

/-- The tokens of a declaration's line, and where its braces stand. -/
theorem tokensAt_declaration (start : Nat) :
    ∃ sk sb sc sp ss inner outer,
      tokensAt start s.declaration =
          ⟨.keyword s.keyword, sk⟩ :: (tokensAt outer s.heading ++ ⟨.mark .leftBrace, sb⟩
            :: (tokensAt inner (fieldLexemes s.fields) ++ ⟨.mark .rightBrace, sc⟩
              :: ⟨.mark .rightParen, sp⟩ :: [⟨.mark .semicolon, ss⟩]))
        ∧ sb.stop = start + s.opening.text.width + (spell s.heading).width + 1
        ∧ sc.start = sb.stop + (spell s.body).width := by
  simp only [SchemaPlan.declaration, SchemaPlan.body, List.cons_append, List.append_assoc,
    List.nil_append, tokensAt_word, tokensAt_append, tokensAt_mark, tokensAt_blank,
    tokensAt_nil, wordToken_opening]
  refine ⟨_, _, _, _, _, _, _, rfl, ?_, ?_⟩
  · rw [Span.stop_of, Nat.max_eq_left (Nat.le_add_right _ _)]
    rfl
  · simp [Lexeme.text, Mark.char, Char.utf8Size, Nat.add_assoc]

/-- Behind its first word a declaration's line holds nothing more to be
found. -/
theorem skips_behind_opening (inner outer : Nat) (sb sc sp ss : Span) :
    Skips (tokensAt outer s.heading ++ ⟨.mark .leftBrace, sb⟩
      :: (tokensAt inner (fieldLexemes s.fields) ++ ⟨.mark .rightBrace, sc⟩
        :: ⟨.mark .rightParen, sp⟩ :: [⟨.mark .semicolon, ss⟩])) rest := by
  refine .append (skips_heading outer s _) (.mark (.append ?_ ?_))
  · exact skips_fields rfl sc _ inner s.fields
  · exact .mark (.mark (.mark (skips_nil rest)))

/-- A declaration's line yields the declaration and nothing else. -/
theorem all_declaration :
    ∃ d, s.IsDeclaredBy d ∧
      Finding.all (.alone unit (u ++ spell s.declaration ++ v)) before
          (tokensAt u.width s.declaration ++ rest) =
        .declaration d :: Finding.all (.alone unit (u ++ spell s.declaration ++ v))
          ((tokensAt u.width s.declaration).reverse ++ before) rest := by
  obtain ⟨sk, sb, sc, sp, ss, inner, outer, htokens, hsb, hsc⟩ :=
    tokensAt_declaration s u.width
  obtain ⟨sn, hhead⟩ := header?_heading outer s sb (tokensAt inner (fieldLexemes s.fields)
    ++ ⟨.mark .rightBrace, sc⟩ :: ⟨.mark .rightParen, sp⟩ :: ⟨.mark .semicolon, ss⟩ :: rest)
  let text := u ++ spell s.declaration ++ v
  let d : Declaration := ⟨s.name.name, text.slice sb.stop sc.start, sn, sb.stop, unit⟩
  have hfound : Finding.at? (.alone unit text) before ⟨.keyword s.keyword, sk⟩
      (tokensAt outer s.heading ++ ⟨.mark .leftBrace, sb⟩
        :: (tokensAt inner (fieldLexemes s.fields) ++ ⟨.mark .rightBrace, sc⟩
          :: ⟨.mark .rightParen, sp⟩ :: [⟨.mark .semicolon, ss⟩]) ++ rest) =
      some (.declaration d) := by
    show (if s.keyword.bindsName = true then Finding.ofDeclaration (.alone unit text) _
      else none) = _
    rw [if_pos s.bindsName_keyword, List.append_assoc, List.cons_append, List.append_assoc]
    exact ofDeclaration_eq hhead (balanced_fields inner s.fields) (.alone unit text)
  have hbody : d.body = spell s.body := by
    -- the text in front of the body, and the text behind it
    let front := u ++ (s.opening.text ++ (spell s.heading ++ ['{']))
    let back := '}' :: ')' :: ';' :: v
    have htext : text = front ++ spell s.body ++ back := by
      simp [text, front, back, SchemaPlan.declaration, Lexeme.text, Mark.char]
    have hfront : front.width = sb.stop := by
      simp [front, hsb, Char.utf8Size, Nat.add_assoc]
    show text.slice sb.stop sc.start = spell s.body
    rw [hsc, htext, ← hfront, Text.slice_append]
  refine ⟨d, ⟨rfl, hbody⟩, ?_⟩
  rw [htokens]
  exact all_of_first hfound (skips_behind_opening rest s inner outer sb sc sp ss)

omit s in
/-- A call of `model` with a literal and an identifier registers. -/
theorem at?_registration {text : Text} {model name : String} {q : Char} {sm sa sb sc sn sd : Span} :
    Finding.at? (.alone unit text) before ⟨wordToken "model".toList, sm⟩
        (⟨.mark .leftParen, sa⟩ :: ⟨.string model q true, sb⟩ :: ⟨.mark .comma, sc⟩
          :: ⟨.identifier name, sn⟩ :: ⟨.mark .rightParen, sd⟩ :: rest) =
      some (.registration ⟨model, name, Finding.formAfter before, sm.union sn⟩) := rfl

/-- A registration's line yields the registration and nothing else. -/
theorem all_registration {l : List Lexeme} (h : s.registration? = some l) (text : Text)
    (start : Nat) :
    ∃ r, s.IsRegisteredBy r ∧
      Finding.all (.alone unit text) before (tokensAt start l ++ rest) =
        .registration r ::
          Finding.all (.alone unit text) ((tokensAt start l).reverse ++ before) rest := by
  obtain ⟨m, hm, rfl⟩ := Option.map_eq_some_iff.1 h
  simp only [tokensAt_word, tokensAt_mark, tokensAt_quoted, tokensAt_blank, tokensAt_nil]
  have hname := Word.wordToken_of_not_reserved s.name_not_reserved
  refine ⟨_, ⟨rfl, ?_⟩, all_of_first (hname ▸ at?_registration unit before _)
    (.mark (.string (.mark (.word rfl (.mark (.mark (skips_nil rest)))))))⟩
  rw [hm]
  rfl

end

end Blueprint

end SchemaAtlas
