/-
A grammar of declarations and registrations, apart from the matchers
that read them. Brackets nest; a path is a name with further names
behind dots; type arguments are one list of nested angle brackets in
which no statement ends and nothing is called. The matchers count, one
bracket at a time, and give up at the first token that does not fit;
they accept the tokens that the grammar describes and no others.

A counter above zero stands for brackets opened before the tokens at
hand. `Enclosed` says of tokens with so many of them closed that what
stands around each closing bracket nests; one token in front of such a
list keeps it of that kind, which is all that a matcher does in a step.

- `Shape.Nested`, `Shape.closeBraces_eq_some_iff`,
  `Shape.closeAngles_eq_some_iff`: brackets.
- `Shape.Dots`, `Shape.dottedPath_eq_some_iff`: paths.
- `Shape.IsHeader`, `Shape.header?_eq_some_iff`: declarations.
- `Shape.IsCall`, `Shape.call?_eq_some_iff`: registrations.
-/
import SchemaAtlas.Proofs.Catalog.Shape

namespace SchemaAtlas

/-- A token is one mark only. -/
theorem PlacedToken.isMark_of_ne {t : PlacedToken} {m n : Mark} (h : t.isMark m = true)
    (hne : m ≠ n) : t.isMark n = false := by
  apply decide_eq_false
  rw [show t.token = .mark m from of_decide_eq_true h]
  exact fun hmark => hne (Token.mark.inj hmark)

theorem Token.identifier?_eq_some_iff {t : Token} {name : String} :
    t.identifier? = some name ↔ t = .identifier name := by
  cases t <;> simp [Token.identifier?]

namespace Shape

-- ==================================================== nested brackets

/-- Tokens in which the brackets of one kind match each other and no
barred mark occurs. -/
inductive Nested (opening closing : Mark) (barred : List Mark) : List PlacedToken → Prop
  | nil : Nested opening closing barred []
  | plain {t : PlacedToken} {ts : List PlacedToken}
      (ht : ∀ m ∈ opening :: closing :: barred, t.isMark m = false)
      (hts : Nested opening closing barred ts) : Nested opening closing barred (t :: ts)
  | pair {o c : PlacedToken} {us ts : List PlacedToken} (ho : o.isMark opening = true)
      (hus : Nested opening closing barred us) (hc : c.isMark closing = true)
      (hts : Nested opening closing barred ts) :
      Nested opening closing barred (o :: (us ++ c :: ts))

/-- Tokens inside as many brackets as `depth` says and one more: nested
ones, and the closing brackets of all but the outermost. -/
inductive Enclosed (opening closing : Mark) (barred : List Mark) : Nat → List PlacedToken → Prop
  | outermost {us : List PlacedToken} (hus : Nested opening closing barred us) :
      Enclosed opening closing barred 0 us
  | inner {depth : Nat} {c : PlacedToken} {us vs : List PlacedToken}
      (hus : Nested opening closing barred us) (hc : c.isMark closing = true)
      (hvs : Enclosed opening closing barred depth vs) :
      Enclosed opening closing barred (depth + 1) (us ++ c :: vs)

namespace Enclosed

variable {opening closing : Mark} {barred : List Mark} {depth : Nat} {t : PlacedToken}
  {ts : List PlacedToken}

theorem nested (h : Enclosed opening closing barred 0 ts) : Nested opening closing barred ts := by
  cases h with
  | outermost hus => exact hus

theorem cons_plain (ht : ∀ m ∈ opening :: closing :: barred, t.isMark m = false)
    (h : Enclosed opening closing barred depth ts) :
    Enclosed opening closing barred depth (t :: ts) := by
  cases h with
  | outermost hus => exact .outermost (.plain ht hus)
  | inner hus hc hvs => exact .inner (.plain ht hus) hc hvs

theorem cons_closing (ht : t.isMark closing = true) (h : Enclosed opening closing barred depth ts) :
    Enclosed opening closing barred (depth + 1) (t :: ts) :=
  .inner .nil ht h

/-- An opening bracket makes a pair of what was the first closing one. -/
theorem cons_opening (ht : t.isMark opening = true)
    (h : Enclosed opening closing barred (depth + 1) ts) :
    Enclosed opening closing barred depth (t :: ts) := by
  cases h with
  | inner hus hc hvs =>
      cases hvs with
      | outermost hvs => exact .outermost (.pair ht hus hc hvs)
      | @inner _ d us' vs' hus' hd hvs' =>
          have hpair := Enclosed.inner (.pair ht hus hc hus') hd hvs'
          rwa [List.cons_append, List.append_assoc, List.cons_append] at hpair

end Enclosed

/-- Tokens in which braces match. -/
abbrev NestedBraces : List PlacedToken → Prop :=
  Nested .leftBrace .rightBrace []

/-- Tokens in which angle brackets match, all within one statement and
in front of any call. -/
abbrev NestedAngles : List PlacedToken → Prop :=
  Nested .leftAngle .rightAngle [.semicolon, .leftParen]

section

variable {depth : Nat} {t closing : PlacedToken} {ts us rest : List PlacedToken}

-- ==================================================== braces

/-- Nested braces in front are passed over. -/
theorem closeBraces_append (h : NestedBraces us) (depth : Nat) (ts : List PlacedToken) :
    closeBraces depth (us ++ ts) =
      (closeBraces depth ts).map fun b => (us ++ b.1, b.2) := by
  induction h generalizing depth ts with
  | nil => exact (congrFun Option.map_id _).symm
  | plain ht _ ih =>
      rw [List.cons_append, closeBraces_other (of_decide_eq_false (ht _ (by simp)))
        (of_decide_eq_false (ht _ (by simp))), ih, Option.map_map]
      rfl
  | @pair o c us vs ho _ hc _ ihus ihvs =>
      rw [List.cons_append, List.append_assoc, List.cons_append,
        closeBraces_opening (of_decide_eq_true ho), ihus,
        closeBraces_closing (of_decide_eq_true hc), ihvs]
      simp only [Option.map_map]
      congr 1
      funext b
      simp

theorem enclosed_of_closeBraces (h : closeBraces depth ts = some (us, closing, rest)) :
    Enclosed .leftBrace .rightBrace [] depth us := by
  fun_induction closeBraces depth ts generalizing us with
  | case1 => cases h
  | case2 t ts ht =>
      cases h
      exact .outermost .nil
  | case3 t ts ht depth ih =>
      obtain ⟨vs, rfl, hvs⟩ := eq_some_of_map_cons h
      exact (ih hvs).cons_closing (decide_eq_true ht)
  | case4 depth t ts ht ih =>
      obtain ⟨vs, rfl, hvs⟩ := eq_some_of_map_cons h
      exact (ih hvs).cons_opening (decide_eq_true ht)
  | case5 depth t ts hright hleft ih =>
      obtain ⟨vs, rfl, hvs⟩ := eq_some_of_map_cons h
      refine (ih hvs).cons_plain ?_
      simpa [PlacedToken.isMark] using And.intro hleft hright

/-- The brace found is the one that closes the tokens in front of it. -/
theorem closeBraces_eq_some_iff :
    closeBraces 0 ts = some (us, closing, rest) ↔
      ts = us ++ closing :: rest ∧ closing.isMark .rightBrace = true ∧ NestedBraces us := by
  constructor
  · intro h
    obtain ⟨hts, hclosing, -⟩ := closeBraces_spec h
    exact ⟨hts, decide_eq_true hclosing, (enclosed_of_closeBraces h).nested⟩
  · rintro ⟨rfl, hclosing, hus⟩
    obtain ⟨token, span⟩ := closing
    obtain rfl : token = .mark .rightBrace := of_decide_eq_true hclosing
    rw [closeBraces_append hus, closeBraces]
    simp

/-- Tokens in which no brace closes the one in front of them. -/
theorem closeBraces_eq_none_iff :
    closeBraces 0 ts = none ↔
      ¬∃ us closing rest, ts = us ++ closing :: rest ∧ closing.isMark .rightBrace = true
        ∧ NestedBraces us := by
  rw [Option.eq_none_iff_forall_not_mem]
  constructor
  · rintro h ⟨us, closing, rest, hts⟩
    exact h _ (closeBraces_eq_some_iff.2 hts)
  · rintro h ⟨us, closing, rest⟩ hts
    exact h ⟨us, closing, rest, closeBraces_eq_some_iff.1 hts⟩

-- ==================================================== type arguments

theorem closeAngles_plain
    (ht : ∀ m ∈ [Mark.leftAngle, .rightAngle, .semicolon, .leftParen], t.isMark m = false) :
    closeAngles depth (t :: ts) = closeAngles depth ts := by
  have hleft : t.token ≠ .mark .leftAngle := of_decide_eq_false (ht _ (by simp))
  have hright : t.token ≠ .mark .rightAngle := of_decide_eq_false (ht _ (by simp))
  have hsemicolon : t.token ≠ .mark .semicolon := of_decide_eq_false (ht _ (by simp))
  have hparen : t.token ≠ .mark .leftParen := of_decide_eq_false (ht _ (by simp))
  rw [closeAngles.eq_def]
  simp only

theorem closeAngles_opening (ht : t.isMark .leftAngle = true) :
    closeAngles depth (t :: ts) = closeAngles (depth + 1) ts := by
  obtain ⟨token, span⟩ := t
  obtain rfl : token = .mark .leftAngle := of_decide_eq_true ht
  rfl

theorem closeAngles_closing (ht : t.isMark .rightAngle = true) :
    closeAngles (depth + 1) (t :: ts) = closeAngles depth ts := by
  obtain ⟨token, span⟩ := t
  obtain rfl : token = .mark .rightAngle := of_decide_eq_true ht
  rfl

/-- Nested angle brackets in front are passed over. -/
theorem closeAngles_append (h : NestedAngles us) (depth : Nat) (ts : List PlacedToken) :
    closeAngles depth (us ++ ts) = closeAngles depth ts := by
  induction h generalizing depth ts with
  | nil => rfl
  | plain ht _ ih => rw [List.cons_append, closeAngles_plain ht, ih]
  | @pair o c us vs ho _ hc _ ihus ihvs =>
      rw [List.cons_append, List.append_assoc, List.cons_append, closeAngles_opening ho, ihus,
        closeAngles_closing hc, ihvs]

theorem enclosed_of_closeAngles (h : closeAngles depth ts = some rest) :
    ∃ us closing, ts = us ++ closing :: rest ∧ closing.isMark .rightAngle = true
      ∧ Enclosed .leftAngle .rightAngle [.semicolon, .leftParen] depth us := by
  fun_induction closeAngles depth ts with
  | case1 => cases h
  | case2 depth t ts ht ih =>
      obtain ⟨us, closing, rfl, hclosing, hus⟩ := ih h
      exact ⟨t :: us, closing, rfl, hclosing, hus.cons_opening (decide_eq_true ht)⟩
  | case3 t ts ht =>
      cases h
      exact ⟨[], t, rfl, decide_eq_true ht, .outermost .nil⟩
  | case4 t ts ht depth ih =>
      obtain ⟨us, closing, rfl, hclosing, hus⟩ := ih h
      exact ⟨t :: us, closing, rfl, hclosing, hus.cons_closing (decide_eq_true ht)⟩
  | case5 => cases h
  | case6 => cases h
  | case7 depth t ts hleft hright hsemicolon hparen ih =>
      obtain ⟨us, closing, rfl, hclosing, hus⟩ := ih h
      refine ⟨t :: us, closing, rfl, hclosing, hus.cons_plain ?_⟩
      simpa [PlacedToken.isMark] using And.intro hleft ⟨hright, hsemicolon, hparen⟩

/-- The bracket found is the one that closes the tokens in front of
it. -/
theorem closeAngles_eq_some_iff :
    closeAngles 0 ts = some rest ↔
      ∃ us closing, ts = us ++ closing :: rest ∧ closing.isMark .rightAngle = true
        ∧ NestedAngles us := by
  constructor
  · intro h
    obtain ⟨us, closing, hts, hclosing, hus⟩ := enclosed_of_closeAngles h
    exact ⟨us, closing, hts, hclosing, hus.nested⟩
  · rintro ⟨us, closing, rfl, hclosing, hus⟩
    obtain ⟨token, span⟩ := closing
    obtain rfl : token = .mark .rightAngle := of_decide_eq_true hclosing
    rw [closeAngles_append hus, closeAngles]

/-- No type arguments, or one list of them. -/
inductive TypeArguments : List PlacedToken → Prop
  | absent : TypeArguments []
  | list {o c : PlacedToken} {us : List PlacedToken} (ho : o.isMark .leftAngle = true)
      (hus : NestedAngles us) (hc : c.isMark .rightAngle = true) :
      TypeArguments (o :: (us ++ [c]))

theorem typeArguments_of_skip (h : skipTypeArguments ts = some rest) :
    ∃ args, ts = args ++ rest ∧ TypeArguments args := by
  cases ts with
  | nil =>
      cases h
      exact ⟨[], rfl, .absent⟩
  | cons t ts =>
      rw [skipTypeArguments] at h
      by_cases ht : t.isMark .leftAngle = true
      · rw [if_pos ht] at h
        obtain ⟨us, c, rfl, hc, hus⟩ := closeAngles_eq_some_iff.1 h
        exact ⟨t :: (us ++ [c]), by simp, .list ht hus hc⟩
      · rw [if_neg ht] at h
        cases h
        exact ⟨[], rfl, .absent⟩

/-- Type arguments in front of anything but a list of them are passed
over. -/
theorem skipTypeArguments_append {args : List PlacedToken} (h : TypeArguments args)
    (ht : t.isMark .leftAngle = false) (ts : List PlacedToken) :
    skipTypeArguments (args ++ t :: ts) = some (t :: ts) := by
  cases h with
  | absent => rw [List.nil_append, skipTypeArguments, if_neg (Bool.eq_false_iff.1 ht)]
  | @list o c us ho hus hc =>
      rw [List.cons_append, List.append_assoc, skipTypeArguments, if_pos ho]
      exact closeAngles_eq_some_iff.2 ⟨us, c, rfl, hc, hus⟩

end

-- ==================================================== paths

/-- Names behind dots; with one of the name `first` in front of them, if
it is one, the last name of all is `last`. -/
inductive Dots : Option String → List PlacedToken → Option String → Prop
  | nil (first : Option String) : Dots first [] first
  | cons {first last : Option String} {d n : PlacedToken} {name : String}
      {us : List PlacedToken} (hd : d.isMark .dot = true) (hn : n.token.identifier? = some name)
      (hus : Dots (some name) us last) : Dots first (d :: n :: us) last

/-- Whether a path in front of the tokens goes on. -/
def Continues (ts : List PlacedToken) : Prop :=
  ∃ d n rest, ts = d :: n :: rest ∧ d.isMark .dot = true ∧ n.token.identifier?.isSome = true

/-- The tokens are a path, which ends with the name `last` and does not
go on into the tokens behind it. -/
inductive IsPath (last : String) : List PlacedToken → List PlacedToken → Prop
  | mk {n : PlacedToken} {us : List PlacedToken} {first : String} {rest : List PlacedToken}
      (hn : n.token.identifier? = some first) (hus : Dots (some first) us (some last))
      (hrest : ¬Continues rest) : IsPath last (n :: us) rest

section

variable {ts rest : List PlacedToken} {last : String}

theorem not_continues_nil : ¬Continues [] := by
  rintro ⟨d, n, rest, h, -⟩
  cases h

theorem not_continues {t : PlacedToken} (ht : t.isMark .dot = false) : ¬Continues (t :: ts) := by
  rintro ⟨d, n, rest, hts, hd, -⟩
  obtain ⟨rfl, -⟩ := List.cons.inj hts
  rw [ht] at hd
  cases hd

theorem dottedPath_eq_none {t : PlacedToken} (ht : t.token.identifier? = none)
    (ts : List PlacedToken) : dottedPath (t :: ts) = none := by
  obtain ⟨token, span⟩ := t
  cases token <;> first | rfl | cases ht

theorem dottedPath_isSome {t : PlacedToken} (ht : t.token.identifier?.isSome = true)
    (ts : List PlacedToken) : (dottedPath (t :: ts)).isSome = true := by
  obtain ⟨name, hname⟩ := Option.isSome_iff_exists.1 ht
  obtain ⟨token, span⟩ := t
  obtain rfl : token = .identifier name := Token.identifier?_eq_some_iff.1 hname
  cases ts with
  | nil => rfl
  | cons d rest =>
      show Option.isSome (if d.isMark .dot = true then _ else _) = true
      split
      · cases dottedPath rest <;> rfl
      · rfl

/-- A name is all of a path that does not go on. -/
theorem dottedPath_end {n : PlacedToken} {name : String} (hn : n.token.identifier? = some name)
    (hrest : ¬Continues rest) : dottedPath (n :: rest) = some (name, rest) := by
  obtain ⟨token, span⟩ := n
  obtain rfl : token = .identifier name := Token.identifier?_eq_some_iff.1 hn
  match rest with
  | [] => rfl
  | d :: rest =>
      show (if d.isMark .dot = true then _ else _) = _
      by_cases hd : d.isMark .dot = true
      · rw [if_pos hd]
        cases rest with
        | nil => rfl
        | cons m rest =>
            have hm : m.token.identifier? = none := by
              rw [← Option.not_isSome_iff_eq_none]
              exact fun hm => hrest ⟨d, m, rest, rfl, hd, hm⟩
            rw [dottedPath_eq_none hm]
      · rw [if_neg hd]

theorem dottedPath_dot {n d : PlacedToken} {path : String × List PlacedToken}
    (hn : n.token.identifier?.isSome = true) (hd : d.isMark .dot = true)
    (h : dottedPath ts = some path) : dottedPath (n :: d :: ts) = some path := by
  obtain ⟨name, hname⟩ := Option.isSome_iff_exists.1 hn
  obtain ⟨token, span⟩ := n
  obtain rfl : token = .identifier name := Token.identifier?_eq_some_iff.1 hname
  show (if d.isMark .dot = true then _ else _) = _
  rw [if_pos hd, h]

/-- The path found begins the tokens, and it does not go on. -/
theorem dottedPath_eq_some_iff :
    dottedPath ts = some (last, rest) ↔ ∃ us, ts = us ++ rest ∧ IsPath last us rest := by
  constructor
  · intro h
    fun_induction dottedPath ts with
    | case1 => cases h
    | case2 t name ht d ts hd path hpath ih =>
        obtain ⟨us, rfl, hn, hus, hrest⟩ := ih (hpath.trans h)
        exact ⟨t :: d :: _, rfl, .mk (Token.identifier?_eq_some_iff.2 ht) (.cons hd hn hus) hrest⟩
    | case3 t name ht d ts hd hnone ih =>
        cases h
        refine ⟨[t], rfl, .mk (Token.identifier?_eq_some_iff.2 ht) (.nil _) ?_⟩
        rintro ⟨d', n, rest, hts, -, hn⟩
        obtain ⟨rfl, rfl⟩ := List.cons.inj hts
        have hsome := dottedPath_isSome hn rest
        rw [hnone] at hsome
        cases hsome
    | case4 t name ht d ts hd =>
        cases h
        exact ⟨[t], rfl, .mk (Token.identifier?_eq_some_iff.2 ht) (.nil _)
          (not_continues (Bool.eq_false_iff.2 hd))⟩
    | case5 t name ht =>
        cases h
        exact ⟨[t], rfl, .mk (Token.identifier?_eq_some_iff.2 ht) (.nil _) not_continues_nil⟩
    | case6 => cases h
  · rintro ⟨_, rfl, @⟨n, us, first, rest, hn, hus, hrest⟩⟩
    generalize hstart : some first = start at hus
    generalize hend : some last = stop at hus
    induction hus generalizing n first with
    | nil =>
        cases hstart.trans hend.symm
        exact dottedPath_end hn hrest
    | cons hd hm _ ih =>
        rw [List.cons_append, List.cons_append]
        exact dottedPath_dot (by rw [hn]; rfl) hd (ih hm rfl hend)

end

-- ==================================================== declarations

/-- The tokens behind the keyword of a declaration, through the brace
that opens its body: `Name = [new] path.Schema [<...>] ( {`. -/
inductive IsHeader : List PlacedToken → Header → Prop
  | mk {n e p b : PlacedToken} {name : String} {news path args behind : List PlacedToken}
      (hn : n.token.identifier? = some name) (he : e.isMark .equals = true)
      (hnews : news = [] ∨ ∃ w, news = [w] ∧ w.token = .keyword .newWord)
      (hpath : IsPath "Schema" path (args ++ p :: b :: behind)) (hargs : TypeArguments args)
      (hp : p.isMark .leftParen = true) (hb : b.isMark .leftBrace = true) :
      IsHeader (n :: e :: (news ++ (path ++ (args ++ p :: b :: behind))))
        ⟨name, n.span, b.span, behind⟩

section

variable {ts rest : List PlacedToken}

theorem skipNew_spec (ts : List PlacedToken) :
    ∃ news, ts = news ++ skipNew ts
      ∧ (news = [] ∨ ∃ w, news = [w] ∧ w.token = .keyword .newWord) := by
  cases ts with
  | nil => exact ⟨[], rfl, Or.inl rfl⟩
  | cons t ts =>
      rw [skipNew]
      by_cases ht : t.token = .keyword .newWord
      · rw [if_pos ht]
        exact ⟨[t], rfl, Or.inr ⟨t, rfl, ht⟩⟩
      · rw [if_neg ht]
        exact ⟨[], rfl, Or.inl rfl⟩

/-- The word `new` begins no path. -/
theorem skipNew_append {news path : List PlacedToken} {last : String}
    (hnews : news = [] ∨ ∃ w, news = [w] ∧ w.token = .keyword .newWord)
    (hpath : IsPath last path rest) (ts : List PlacedToken) :
    skipNew (news ++ (path ++ ts)) = path ++ ts := by
  obtain ⟨hn, -, -⟩ := hpath
  rcases hnews with rfl | ⟨w, rfl, hw⟩
  · rw [List.nil_append, List.cons_append, skipNew, if_neg]
    rw [Token.identifier?_eq_some_iff.1 hn]
    exact Token.noConfusion
  · rw [List.singleton_append, skipNew, if_pos hw]

theorem header?_eq_some_iff {hd : Header} : header? ts = some hd ↔ IsHeader ts hd := by
  constructor
  · intro h
    obtain ⟨n, e, name, us, path, p, b, behind, rfl, hn, he, hpath, harguments, hp, hb, rfl⟩ :=
      header?_cases h
    obtain ⟨news, hus, hnews⟩ := skipNew_spec us
    obtain ⟨front, hskip, hmaximal⟩ := dottedPath_eq_some_iff.1 hpath
    obtain ⟨args, rfl, hargs⟩ := typeArguments_of_skip harguments
    rw [hus, hskip]
    exact .mk (Token.identifier?_eq_some_iff.2 hn) he hnews hmaximal hargs hp hb
  · rintro @⟨n, e, p, b, name, news, path, args, behind, hn, he, hnews, hpath, hargs, hp, hb⟩
    have hparen : p.isMark .leftAngle = false := PlacedToken.isMark_of_ne hp Mark.noConfusion
    obtain ⟨token, span⟩ := n
    obtain rfl : token = .identifier name := Token.identifier?_eq_some_iff.1 hn
    show (if e.isMark .equals = true then _ else _) = _
    rw [if_pos he, skipNew_append hnews hpath, dottedPath_eq_some_iff.2 ⟨path, rfl, hpath⟩]
    simp only [skipTypeArguments_append hargs hparen, hp, hb, Bool.and_self, if_true]

end

-- ==================================================== registrations

/-- The tokens behind the word `model` through the comma behind the
model's name: `[<...>] ( 'Name' ,`. -/
inductive IsCall : List PlacedToken → Call → Prop
  | mk {p s c : PlacedToken} {model : String} {args behind : List PlacedToken}
      (hargs : TypeArguments args) (hp : p.isMark .leftParen = true)
      (hs : s.token.closedString? = some model) (hc : c.isMark .comma = true) :
      IsCall (args ++ p :: s :: c :: behind) ⟨model, c.span, behind⟩

/-- The tokens behind that comma: an identifier and a closing
parenthesis or another comma. -/
inductive IsArgument : List PlacedToken → String × Span → Prop
  | mk {s t : PlacedToken} {name : String} {rest : List PlacedToken}
      (hs : s.token.identifier? = some name)
      (ht : t.isMark .rightParen = true ∨ t.isMark .comma = true) :
      IsArgument (s :: t :: rest) (name, s.span)

section

variable {ts : List PlacedToken}

theorem call?_eq_some_iff {c : Call} : call? ts = some c ↔ IsCall ts c := by
  constructor
  · intro h
    unfold call? at h
    split at h
    · next p s c behind hskip =>
        split at h
        · next hmarks =>
            obtain ⟨args, rfl, hargs⟩ := typeArguments_of_skip hskip
            obtain ⟨hp, hc⟩ := Bool.and_eq_true_iff.1 hmarks
            obtain ⟨model, hs, rfl⟩ := Option.map_eq_some_iff.1 h
            exact .mk hargs hp hs hc
        · cases h
    · cases h
  · rintro @⟨p, s, c, model, args, behind, hargs, hp, hs, hc⟩
    have hparen : p.isMark .leftAngle = false := PlacedToken.isMark_of_ne hp Mark.noConfusion
    unfold call?
    simp only [skipTypeArguments_append hargs hparen, hp, hc, hs, Bool.and_self, if_true,
      Option.map_some]

theorem schemaArgument?_eq_some_iff {a : String × Span} :
    schemaArgument? ts = some a ↔ IsArgument ts a := by
  constructor
  · intro h
    unfold schemaArgument? at h
    split at h
    · split at h
      · next hmark =>
          obtain ⟨name, hs, rfl⟩ := Option.map_eq_some_iff.1 h
          exact .mk hs (by simpa using hmark)
      · cases h
    · cases h
  · rintro @⟨s, t, name, rest, hs, ht⟩
    rw [schemaArgument?, if_pos (by simpa using ht), hs]
    rfl

end

end Shape

end SchemaAtlas
