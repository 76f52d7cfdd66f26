/-
Texts put together from lexemes, and what the lexer makes of them. A
lexeme is a word, a mark, a literal in single quotes, a blank or a line
break. Written one after the other, lexemes are read back as they are,
unless two words or two blanks stand next to each other: those would be
read as one.

- `Lexeme.spell`: the text of a list of lexemes.
- `Lexeme.place`: their tokens with the spans they cover.
- `tokensFrom_spell`: the lexer gives back the lexemes.
-/
import Mathlib.Data.List.Chain
import SchemaAtlas.Proofs.Text.Classes
import SchemaAtlas.Proofs.Token.Locality

namespace SchemaAtlas

-- ==================================================== words and literals

/-- A text that the lexer reads as one word. -/
def isWord : Text → Bool
  | [] => false
  | c :: cs => beginsWord c && cs.all continuesWord

/-- An identifier or a reserved word. -/
structure Word where
  text : Text
  isWord_text : isWord text = true
  deriving DecidableEq

/-- A text that can stand between single quotes as it is. -/
structure Quotable where
  text : Text
  plain_text : text.all (fun c => c ≠ '\'' && c ≠ '\\' && c ≠ '\n') = true
  deriving DecidableEq

namespace Word

/-- The word as a name. -/
def name (w : Word) : String :=
  String.ofList w.text

/-- The word is one that the lexer keeps for itself. -/
def isReserved (w : Word) : Bool :=
  (Keyword.ofWord? w.name).isSome

theorem name_inj {v w : Word} : v.name = w.name ↔ v = w := by
  constructor
  · intro h
    have ht : v.text = w.text := String.ofList_injective h
    cases v
    cases w
    simp_all
  · rintro rfl
    rfl

/-- A word has a first character. -/
theorem text_eq_cons (w : Word) :
    ∃ c cs, w.text = c :: cs ∧ beginsWord c = true ∧ cs.all continuesWord = true := by
  obtain ⟨text, h⟩ := w
  cases text with
  | nil => cases h
  | cons c cs => exact ⟨c, cs, rfl, by simpa [isWord] using h⟩

theorem continuesWord_of_mem {w : Word} {c : Char} (h : c ∈ w.text) : continuesWord c = true := by
  obtain ⟨d, ds, ht, hd, hds⟩ := w.text_eq_cons
  rw [ht] at h
  rcases List.mem_cons.1 h with rfl | h
  · exact Text.continuesWord_of_beginsWord hd
  · exact List.all_eq_true.1 hds c h

end Word

-- ==================================================== tokens of words

section WordToken

variable (w : Text)

theorem wordToken_cases :
    (∃ k, wordToken w = .keyword k) ∨ wordToken w = .identifier (String.ofList w) := by
  unfold wordToken
  cases Keyword.ofWord? (String.ofList w) with
  | some k => exact Or.inl ⟨k, rfl⟩
  | none => exact Or.inr rfl

@[simp] theorem wordToken_isTrivia : (wordToken w).isTrivia = false := by
  rcases wordToken_cases w with ⟨k, h⟩ | h <;> rw [h] <;> rfl

@[simp] theorem wordToken_ne_mark (m : Mark) : wordToken w ≠ .mark m := by
  rcases wordToken_cases w with ⟨k, h⟩ | h <;> rw [h] <;> intro e <;> cases e

@[simp] theorem wordToken_depthAfter (depth : Nat) :
    (wordToken w).depthAfter depth = depth := by
  rcases wordToken_cases w with ⟨k, h⟩ | h <;> rw [h] <;> rfl

@[simp] theorem wordToken_closedString? : (wordToken w).closedString? = none := by
  rcases wordToken_cases w with ⟨k, h⟩ | h <;> rw [h] <;> rfl

end WordToken

/-- A word that is not reserved is an identifier. -/
theorem Word.wordToken_of_not_reserved {w : Word} (h : w.isReserved = false) :
    wordToken w.text = .identifier w.name := by
  unfold isReserved name at h
  unfold wordToken
  cases hk : Keyword.ofWord? (String.ofList w.text) with
  | some k => rw [hk] at h; cases h
  | none => rfl

-- ==================================================== lexemes

/-- A piece of source text that is one token. -/
inductive Lexeme
  | word (w : Word)
  | mark (m : Mark)
  | quoted (q : Quotable)
  | blank
  | lineBreak
  deriving DecidableEq

namespace Lexeme

/-- The characters of a lexeme. -/
def text : Lexeme → Text
  | word w => w.text
  | mark m => [m.char]
  | quoted q => '\'' :: q.text ++ ['\'']
  | blank => [' ']
  | lineBreak => ['\n']

/-- The token that a lexeme is. -/
def token : Lexeme → Token
  | word w => wordToken w.text
  | mark m => .mark m
  | quoted q => .string (String.ofList q.text) '\'' true
  | blank => .space
  | lineBreak => .newline

/-- Two lexemes that stay apart when the second directly follows the
first. -/
def staysApart : Lexeme → Lexeme → Bool
  | word _, word _ => false
  | blank, blank => false
  | _, _ => true

/-- Lexemes of which neighbours stay apart. -/
def Separated (ps : List Lexeme) : Prop :=
  ps.IsChain fun p q => p.staysApart q = true

/-- The text of a list of lexemes. -/
def spell (ps : List Lexeme) : Text :=
  ps.flatMap text

/-- The lexemes of lines, a line break behind each of them. -/
def unlines (ls : List (List Lexeme)) : List Lexeme :=
  ls.flatMap fun l => l ++ [lineBreak]

/-- The tokens of lexemes that begin at byte `start`. -/
def place (start : Nat) : List Lexeme → List PlacedToken
  | [] => []
  | p :: ps =>
      ⟨p.token, Span.of start (start + p.text.width)⟩ :: place (start + p.text.width) ps

@[simp] theorem spell_nil : spell [] = [] := rfl

@[simp] theorem spell_cons (p : Lexeme) (ps : List Lexeme) :
    spell (p :: ps) = p.text ++ spell ps := rfl

@[simp] theorem spell_append (ps qs : List Lexeme) : spell (ps ++ qs) = spell ps ++ spell qs :=
  List.flatMap_append

@[simp] theorem unlines_nil : unlines [] = [] := rfl

@[simp] theorem unlines_cons (l : List Lexeme) (ls : List (List Lexeme)) :
    unlines (l :: ls) = l ++ lineBreak :: unlines ls := by
  rw [unlines, List.flatMap_cons, List.append_assoc]
  rfl

@[simp] theorem unlines_append (ls ks : List (List Lexeme)) :
    unlines (ls ++ ks) = unlines ls ++ unlines ks :=
  List.flatMap_append

@[simp] theorem place_nil (start : Nat) : place start [] = [] := rfl

@[simp] theorem place_cons (start : Nat) (p : Lexeme) (ps : List Lexeme) :
    place start (p :: ps) =
      ⟨p.token, Span.of start (start + p.text.width)⟩ :: place (start + p.text.width) ps := rfl

theorem place_append (start : Nat) (ps qs : List Lexeme) :
    place start (ps ++ qs) = place start ps ++ place (start + (spell ps).width) qs := by
  induction ps generalizing start with
  | nil => simp
  | cons p ps ih => simp [ih, Nat.add_assoc]

-- ==================================================== reading one lexeme

/-- What follows a lexeme does not lengthen it. -/
def EndsBefore (p : Lexeme) (rest : Text) : Prop :=
  match p with
  | word _ => ∀ c ∈ rest.head?, continuesWord c = false
  | blank => ∀ c ∈ rest.head?, isInlineBlank c = false
  | _ => True

/-- A run of characters of a class ends where the class does. -/
theorem span_append {p : Char → Bool} {body rest : Text} (hb : ∀ c ∈ body, p c = true)
    (hr : ∀ c ∈ rest.head?, p c = false) :
    (body ++ rest).takeWhile p = body ∧ (body ++ rest).dropWhile p = rest := by
  rw [List.takeWhile_append_of_pos hb, List.dropWhile_append_of_pos hb]
  cases rest with
  | nil => simp
  | cons c r => simp [hr c rfl]

/-- A literal is read up to its closing quote. -/
theorem stringTail_quotable (q : Quotable) (rest : Text) :
    stringTail '\'' (q.text ++ '\'' :: rest) = (q.text, true, rest) := by
  refine stringTail_content (by decide) ?_ ?_ ?_ rest
  all_goals
    intro hc
    simpa using List.all_eq_true.1 q.plain_text _ hc

theorem munch_mark (b : Bool) (m : Mark) (rest : Text) :
    munch b m.char rest = ⟨.mark m, [m.char], rest⟩ := by
  cases m <;> cases b <;> rfl

/-- A lexeme is read as its token, and what follows is left alone. -/
theorem munch_lexeme (b : Bool) (p : Lexeme) {rest : Text} (h : p.EndsBefore rest) :
    ∃ c r, p.text ++ rest = c :: r ∧ munch b c r = ⟨p.token, p.text, rest⟩ := by
  cases p with
  | word w =>
      obtain ⟨c, cs, ht, hc, hcs⟩ := w.text_eq_cons
      obtain ⟨hslash, hquote, hdigit⟩ := Text.beginsWord_spec hc
      refine ⟨c, cs ++ rest, by simp [text, ht], ?_⟩
      obtain ⟨htake, hdrop⟩ := span_append (List.all_eq_true.1 hcs) h
      simp [munch, munchPlain, hslash, hquote, hdigit, hc, htake, hdrop, text, token, ht]
  | mark m => exact ⟨m.char, rest, rfl, munch_mark b m rest⟩
  | quoted q =>
      refine ⟨'\'', q.text ++ '\'' :: rest, by simp [text], ?_⟩
      have hq : isQuote '\'' = true := rfl
      simp [munch, munchPlain, hq, munchString, stringTail_quotable, text, token]
  | blank =>
      refine ⟨' ', rest, rfl, ?_⟩
      obtain ⟨htake, hdrop⟩ := span_append (List.forall_mem_nil _) h
      rw [List.nil_append] at htake hdrop
      have hm : munch b ' ' rest =
          ⟨.space, ' ' :: rest.takeWhile isInlineBlank, rest.dropWhile isInlineBlank⟩ := by
        cases b <;> rfl
      rw [hm, htake, hdrop]
      rfl
  | lineBreak =>
      refine ⟨'\n', rest, rfl, ?_⟩
      cases b <;> rfl

theorem tokensFrom_lexeme (b : Bool) (start : Nat) (p : Lexeme) {rest : Text}
    (h : p.EndsBefore rest) :
    tokensFrom b start (p.text ++ rest) =
      ⟨p.token, Span.of start (start + p.text.width)⟩
        :: tokensFrom (p.token.regexAfter b) (start + p.text.width) rest := by
  obtain ⟨c, r, hcr, hm⟩ := munch_lexeme b p h
  rw [hcr, tokensFrom, hm]

-- ==================================================== reading a list

/-- A lexeme ends where one that stays apart from it begins. -/
theorem endsBefore_of_staysApart {p q : Lexeme} (h : p.staysApart q = true) (rest : Text) :
    p.EndsBefore (q.text ++ rest) := by
  cases p with
  | word v =>
      intro c hc
      cases q with
      | word w => cases h
      | mark m => cases hc; cases m <;> rfl
      | quoted q => cases hc; rfl
      | blank => cases hc; rfl
      | lineBreak => cases hc; rfl
  | blank =>
      intro c hc
      cases q with
      | word w =>
          obtain ⟨d, ds, ht, hd, -⟩ := w.text_eq_cons
          rw [show (word w).text = w.text from rfl, ht] at hc
          cases hc
          have hb := Text.isBlank_of_continuesWord (Text.continuesWord_of_beginsWord hd)
          rw [isInlineBlank, hb, Bool.false_and]
      | mark m => cases hc; cases m <;> rfl
      | quoted q => cases hc; rfl
      | blank => cases h
      | lineBreak => cases hc; rfl
  | mark m => exact trivial
  | quoted q => exact trivial
  | lineBreak => exact trivial

theorem endsBefore_nil (p : Lexeme) : p.EndsBefore [] := by
  cases p with
  | word w => intro c hc; cases hc
  | blank => intro c hc; cases hc
  | mark m => exact trivial
  | quoted q => exact trivial
  | lineBreak => exact trivial

/-- The lexer gives back the lexemes of which a text is put together,
wherever the text stands. -/
theorem tokensFrom_spell {ps : List Lexeme} (h : Separated ps) (b : Bool) (start : Nat) :
    tokensFrom b start (spell ps) = place start ps := by
  induction ps generalizing b start with
  | nil => rw [spell_nil, tokensFrom]; rfl
  | cons p ps ih =>
      have hp : p.EndsBefore (spell ps) := by
        cases ps with
        | nil => exact p.endsBefore_nil
        | cons q qs => exact endsBefore_of_staysApart h.rel (spell qs)
      rw [spell_cons, tokensFrom_lexeme b start p hp, place_cons, ih h.tail]

theorem tokenize_spell {ps : List Lexeme} (h : Separated ps) : tokenize (spell ps) = place 0 ps :=
  tokensFrom_spell h true 0

-- ==================================================== warnings and lines

/-- No lexeme is left open. -/
theorem lexWarnings_place (start : Nat) (ps : List Lexeme) :
    lexWarnings (place start ps) = [] := by
  induction ps generalizing start with
  | nil => rfl
  | cons p ps ih =>
      have hp : PlacedToken.warning? ⟨p.token, Span.of start (start + p.text.width)⟩ = none := by
        cases p with
        | word w =>
            rcases wordToken_cases w.text with ⟨k, h⟩ | h <;>
              simp [PlacedToken.warning?, token, h]
        | mark m => rfl
        | quoted q => rfl
        | blank => rfl
        | lineBreak => rfl
      rw [place_cons, lexWarnings, List.filterMap_cons_none hp]
      exact ih (start + p.text.width)

end Lexeme

end SchemaAtlas
