/-
Text enclosed by quotes or by the marks of a block comment. What the
enclosure admits is content: it can neither end the token nor hide its
end, so the whole is one closed token whatever follows, and behind it
the lexer goes on as it does behind any other content.

- `Enclosure`, `Enclosure.Admits`: what encloses, and what it can hold.
- `Enclosure.munch_wrap`, `Enclosure.tokensFrom_wrap`: the token.
- `Enclosure.map_blanked_tokenize`: texts with other content in an
  enclosure.
-/
import SchemaAtlas.Proofs.Catalog.Recast
import SchemaAtlas.Proofs.Token.Extension
import SchemaAtlas.Proofs.Token.Position

namespace SchemaAtlas

/-- What stands around the content of a literal or a comment. -/
inductive Enclosure
  | quotes (quote : Char)
  | comment

namespace Enclosure

/-- The content in its enclosure. -/
def wrap : Enclosure → Text → Text
  | quotes quote, c => quote :: (c ++ [quote])
  | comment, c => '/' :: '*' :: (c ++ ['*', '/'])

/-- The enclosure can hold the content: quotes one without backslashes
and without the quote, a comment one without its end; and neither a line
break. -/
def Admits : Enclosure → Text → Prop
  | quotes quote, c => isQuote quote = true ∧ '\n' ∉ c ∧ quote ∉ c ∧ '\\' ∉ c
  | comment, c => '\n' ∉ c ∧ ¬['*', '/'] <:+: c

instance (e : Enclosure) (c : Text) : Decidable (e.Admits c) :=
  match e with
  | quotes quote =>
      inferInstanceAs (Decidable (isQuote quote = true ∧ '\n' ∉ c ∧ quote ∉ c ∧ '\\' ∉ c))
  | comment => inferInstanceAs (Decidable ('\n' ∉ c ∧ ¬['*', '/'] <:+: c))

/-- The token that content and enclosure are. -/
def token : Enclosure → Text → Token
  | quotes quote, c => .string (String.ofList c) quote true
  | comment, _ => .blockComment true

-- ==================================================== one token

variable {e : Enclosure} {c : Text}

theorem wrap_ne_nil (e : Enclosure) (c : Text) : e.wrap c ≠ [] := by
  cases e <;> exact List.cons_ne_nil _ _

theorem Admits.line_wrap (h : e.Admits c) : '\n' ∉ e.wrap c := by
  cases e with
  | quotes quote =>
      obtain ⟨hquote, hline, -⟩ := h
      have hne : quote ≠ '\n' := by
        rintro rfl
        cases hquote
      simp [wrap, hline, Ne.symm hne]
  | comment => simp [wrap, h.1]

/-- Content and enclosure are one token, whatever follows. -/
theorem Admits.munch_wrap (h : e.Admits c) (b : Bool) (s : Text) :
    ∃ first r, e.wrap c ++ s = first :: r ∧ munch b first r = ⟨e.token c, e.wrap c, s⟩ := by
  cases e with
  | quotes quote =>
      obtain ⟨hquote, hline, hfree, hescape⟩ := h
      have hescaped : quote ≠ '\\' := by
        rintro rfl
        cases hquote
      refine ⟨quote, c ++ quote :: s, by simp [wrap], ?_⟩
      rw [munch_quote hquote, munchString, stringTail_content hescaped hline hfree hescape]
      rfl
  | comment =>
      refine ⟨'/', '*' :: (c ++ '*' :: '/' :: s), by simp [wrap], ?_⟩
      rw [munch_star, commentTail_content h.2]
      rfl

theorem Admits.tokensFrom_wrap (h : e.Admits c) (b : Bool) (n : Nat) (s : Text) :
    tokensFrom b n (e.wrap c ++ s) =
      ⟨e.token c, Span.of n (n + (e.wrap c).width)⟩
        :: tokensFrom ((e.token c).regexAfter b) (n + (e.wrap c).width) s := by
  obtain ⟨first, r, hwrap, hmunch⟩ := h.munch_wrap b s
  rw [hwrap, tokensFrom, hmunch]

-- ==================================================== other content

/-- Tokens without their places and the contents of closed literals. -/
def blanked : Recast :=
  ⟨fun _ => Span.of 0 0, fun _ => ""⟩

section

variable {p s c' : Text} (h : e.Admits c) (h' : e.Admits c')

theorem map_blanked_tokensFrom (b : Bool) (m n : Nat) (s : Text) :
    (tokensFrom b m s).map blanked.placed = (tokensFrom b n s).map blanked.placed := by
  have hzero : ∀ k, (tokensFrom b k s).map blanked.placed =
      (tokensFrom b 0 s).map blanked.placed := by
    intro k
    have hshift := tokensFrom_shift b 0 k s
    rw [Nat.zero_add] at hshift
    rw [hshift, List.map_map]
    rfl
  rw [hzero, hzero n]

/-- A token begins where the enclosure does. -/
def BeginsIn (t : Text) (n : Nat) : Prop :=
  ∃ x ∈ tokenize t, x.span.start = n

include h in
/-- The tokens around one that begins where the enclosure does. -/
theorem Admits.tokenize_wrap (hbegins : BeginsIn (p ++ e.wrap c ++ s) p.width) :
    ∃ n, tokenize (p ++ e.wrap c ++ s) =
      tokenize p ++ ⟨e.token c, Span.of p.width (p.width + (e.wrap c).width)⟩
        :: tokensFrom ((e.token c).regexAfter (regexBehind true (tokenize p))) n s := by
  obtain ⟨x, hx, hstart⟩ := hbegins
  obtain ⟨us, vs, hsplit⟩ := List.append_of_mem hx
  rw [List.append_assoc] at hsplit ⊢
  obtain ⟨rfl, hbehind⟩ := tokenize_append hsplit hstart
  rw [h.tokensFrom_wrap] at hbehind
  exact ⟨_, hsplit.trans (congrArg (tokenize p ++ ·) hbehind)⟩

/-- The same token but for its content, in the same or another place. -/
theorem placed_token (e : Enclosure) (c c' : Text) (sp sp' : Span) :
    blanked.placed ⟨e.token c', sp'⟩ = blanked.placed ⟨e.token c, sp⟩ := by
  cases e <;> rfl

theorem regexAfter_token (e : Enclosure) (c c' : Text) (b : Bool) :
    (e.token c').regexAfter b = (e.token c).regexAfter b := by
  cases e <;> rfl

include h h'

/-- Other content, the same tokens but for places and contents. -/
theorem map_blanked_tokenize (hbegins : BeginsIn (p ++ e.wrap c ++ s) p.width)
    (hbegins' : BeginsIn (p ++ e.wrap c' ++ s) p.width) :
    (tokenize (p ++ e.wrap c' ++ s)).map blanked.placed =
      (tokenize (p ++ e.wrap c ++ s)).map blanked.placed := by
  obtain ⟨n, htokens⟩ := h.tokenize_wrap hbegins
  obtain ⟨n', htokens'⟩ := h'.tokenize_wrap hbegins'
  rw [htokens, htokens', List.map_append, List.map_append, List.map_cons, List.map_cons,
    placed_token e c c' (Span.of p.width (p.width + (e.wrap c).width)), regexAfter_token e c c',
    map_blanked_tokensFrom _ n' n]

end

end Enclosure

end SchemaAtlas
