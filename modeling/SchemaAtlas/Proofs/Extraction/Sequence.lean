/-
What is found in an input stands in the order of the source. Tokens
begin one behind the other, and a model call begins with the word it is
found at. A body left open is reported at its brace, which stands behind
the keyword it is found at; so its report could come before that of
another brace further in front. It does not, since heads of declarations
do not overlap: between a keyword and the parenthesis of its schema only
type arguments can hold another keyword, and the head that begins there
would have to be done before the arguments close.

- `Shape.closeAngles_header`, `Shape.exists_behind_of_header?`: where the
  next head of a declaration can begin.
- `Finding.Precedes`, `Finding.pairwise_all`: the findings of a unit.
- `Catalog.pairwise_registered`, `SourceUnit.pairwise_warnings`: those of
  an input.
-/
import SchemaAtlas.Proofs.Catalog.Recognition
import SchemaAtlas.Proofs.Extraction.Place

namespace SchemaAtlas

-- ==================================================== heads

namespace Shape

variable {ts rest : List PlacedToken}

/-- The token occurs in a head in front of its type arguments. -/
def LeadsHeader (t : PlacedToken) : Prop :=
  t.token.identifier?.isSome = true ∨ t.isMark .equals = true ∨ t.isMark .dot = true
    ∨ t.token = .keyword .newWord

theorem LeadsHeader.plain {t : PlacedToken} (h : LeadsHeader t) :
    ∀ m ∈ [Mark.leftAngle, .rightAngle, .semicolon, .leftParen], t.isMark m = false := by
  intro m hm
  rcases h with hname | hequals | hdot | hnew
  · obtain ⟨name, hname⟩ := Option.isSome_iff_exists.1 hname
    apply decide_eq_false
    rw [Token.identifier?_eq_some_iff.1 hname]
    exact Token.noConfusion
  · apply PlacedToken.isMark_of_ne hequals
    rintro rfl
    simp at hm
  · apply PlacedToken.isMark_of_ne hdot
    rintro rfl
    simp at hm
  · apply decide_eq_false
    rw [hnew]
    exact Token.noConfusion

/-- A keyword that opens a declaration occurs in no other place. -/
theorem LeadsHeader.bindsName_eq_false {t : PlacedToken} {k : Keyword} (h : LeadsHeader t)
    (hk : t.token = .keyword k) : k.bindsName = false := by
  rcases h with hname | hequals | hdot | hnew
  · rw [hk] at hname
    cases hname
  · cases hk.symm.trans (of_decide_eq_true hequals)
  · cases hk.symm.trans (of_decide_eq_true hdot)
  · cases hk.symm.trans hnew
    rfl

theorem leadsHeader_of_mem_dots {first last : Option String} {us : List PlacedToken}
    (h : Dots first us last) : ∀ t ∈ us, LeadsHeader t := by
  induction h with
  | nil => exact List.forall_mem_nil _
  | cons hd hn _ ih =>
      refine List.forall_mem_cons.2 ⟨Or.inr (Or.inr (Or.inl hd)), List.forall_mem_cons.2 ⟨?_, ih⟩⟩
      exact Or.inl (by rw [hn]; rfl)

/-- A head is divided by its type arguments. -/
theorem header?_parts {hd : Header} (h : header? ts = some hd) :
    ∃ front args p b, ts = front ++ (args ++ p :: b :: hd.behind)
      ∧ (∀ t ∈ front, LeadsHeader t) ∧ TypeArguments args ∧ p.isMark .leftParen = true
      ∧ b.isMark .leftBrace = true ∧ b.span = hd.brace := by
  obtain @⟨n, e, p, b, name, news, path, args, behind, hn, he, hnews, hpath, hargs, hp, hb⟩ :=
    header?_eq_some_iff.1 h
  refine ⟨n :: e :: (news ++ path), args, p, b, by simp, ?_, hargs, hp, hb, rfl⟩
  refine List.forall_mem_cons.2 ⟨Or.inl (by rw [hn]; rfl),
    List.forall_mem_cons.2 ⟨Or.inr (Or.inl he), List.forall_mem_append.2 ⟨?news, ?path⟩⟩⟩
  case news =>
    rcases hnews with rfl | ⟨w, rfl, hw⟩
    · exact List.forall_mem_nil _
    · exact List.forall_mem_singleton.2 (Or.inr (Or.inr (Or.inr hw)))
  case path =>
    obtain ⟨hname, hdots, -⟩ := hpath
    exact List.forall_mem_cons.2 ⟨Or.inl (by rw [hname]; rfl), leadsHeader_of_mem_dots hdots⟩

theorem TypeArguments.nestedAngles {args : List PlacedToken} (h : TypeArguments args) :
    NestedAngles args := by
  cases h with
  | absent => exact .nil
  | list ho hus hc => exact .pair ho hus hc .nil

/-- A head closes no angle bracket that was open in front of it before
its parenthesis ends the attempt. -/
theorem closeAngles_header {hd : Header} (h : header? ts = some hd) (depth : Nat) :
    closeAngles depth ts = none := by
  obtain ⟨front, args, p, b, rfl, hfront, hargs, hp, -, -⟩ := header?_parts h
  have hnested : NestedAngles front := by
    clear h
    induction front with
    | nil => exact .nil
    | cons t front ih =>
        obtain ⟨ht, hfront⟩ := List.forall_mem_cons.1 hfront
        exact .plain ht.plain (ih hfront)
  obtain ⟨token, span⟩ := p
  obtain rfl : token = .mark .leftParen := of_decide_eq_true hp
  rw [closeAngles_append hnested, closeAngles_append hargs.nestedAngles]
  rfl

/-- Where a bracket is closed behind some tokens, those in between leave
a bracket open. -/
theorem closeAngles_of_append {depth : Nat} {us : List PlacedToken}
    (h : closeAngles depth (us ++ ts) = some rest) (hlt : rest.length < ts.length) :
    ∃ depth', closeAngles depth' ts = some rest := by
  induction us generalizing depth with
  | nil => exact ⟨depth, h⟩
  | cons u us ih =>
      rw [List.cons_append, closeAngles.eq_def] at h
      simp only at h
      split at h
      · exact ih h
      · split at h
        · rw [← Option.some.inj h, List.length_append] at hlt
          omega
        · exact ih h
      · cases h
      · cases h
      · exact ih h

/-- A token that does not occur in the front part occurs behind it. -/
theorem exists_append_of_not_mem {α : Type} {k : α} {front rest us vs : List α}
    (hk : k ∉ front) (h : front ++ rest = us ++ k :: vs) :
    ∃ ws, us = front ++ ws ∧ rest = ws ++ k :: vs := by
  rcases List.append_eq_append_iff.1 h with ⟨ws, rfl, hrest⟩ | ⟨ws, rfl, hvs⟩
  · exact ⟨ws, rfl, hrest⟩
  · cases ws with
    | nil => exact ⟨[], by simp, hvs.symm⟩
    | cons w ws =>
        obtain ⟨rfl, -⟩ := List.cons.inj hvs
        simp at hk

theorem isMark_of_keyword {t : PlacedToken} {k : Keyword} (ht : t.token = .keyword k) (m : Mark) :
    t.isMark m = false := by
  apply decide_eq_false
  rw [ht]
  exact Token.noConfusion

/-- No head begins behind a word among type arguments: it would have to
be done before they close. -/
theorem header?_of_arguments {ws xs : List PlacedToken} {t : PlacedToken}
    (hargs : TypeArguments (ws ++ t :: xs)) (hmark : ∀ m, t.isMark m = false)
    (rest : List PlacedToken) : header? (xs ++ rest) = none := by
  generalize hall : ws ++ t :: xs = all at hargs
  cases hargs with
  | absent => simp at hall
  | @list o c inner ho hinner hc =>
      cases ws with
      | nil =>
          obtain ⟨rfl, -⟩ := List.cons.inj hall
          rw [hmark] at ho
          cases ho
      | cons w ws =>
          have hinside : ws ++ t :: xs = inner ++ [c] := (List.cons.inj hall).2
          have hclose : closeAngles 0 (ws ++ t :: (xs ++ rest)) = some rest := by
            refine closeAngles_eq_some_iff.2 ⟨inner, c, ?_, hc, hinner⟩
            rw [← List.cons_append, ← List.append_assoc, hinside, List.append_assoc]
            rfl
          have hshorter : rest.length < (t :: (xs ++ rest)).length := by
            rw [List.length_cons, List.length_append]
            omega
          obtain ⟨depth, hdepth⟩ := closeAngles_of_append hclose hshorter
          rw [closeAngles_plain fun m _ => hmark m] at hdepth
          refine Option.eq_none_iff_forall_ne_some.2 fun hd hheader => ?_
          rw [closeAngles_header hheader] at hdepth
          cases hdepth

/-- A declaration whose keyword stands behind that of another one stands
behind its opening brace. -/
theorem exists_behind_of_header? {us vs : List PlacedToken} {t : PlacedToken} {k : Keyword}
    {hd hd' : Header} (h : header? (us ++ t :: vs) = some hd) (h' : header? vs = some hd')
    (ht : t.token = .keyword k) (hk : k.bindsName = true) :
    ∃ ws, hd.behind = ws ++ t :: vs := by
  have hne : ∀ {x : PlacedToken} {m}, x.isMark m = true → t ≠ x := by
    rintro x m hx rfl
    rw [isMark_of_keyword ht m] at hx
    cases hx
  obtain ⟨front, args, p, b, hparts, hfront, hargs, hp, hb, -⟩ := header?_parts h
  have hnot : t ∉ front := by
    intro hmem
    rw [(hfront t hmem).bindsName_eq_false ht] at hk
    cases hk
  obtain ⟨ws, -, hrest⟩ := exists_append_of_not_mem hnot hparts.symm
  rcases List.append_eq_append_iff.1 hrest with ⟨xs, rfl, hbehind⟩ | ⟨xs, rfl, hvs⟩
  · have hpb : t ∉ [p, b] := by simp [hne hp, hne hb]
    have hsplit : [p, b] ++ hd.behind = xs ++ t :: vs := hbehind
    obtain ⟨ys, -, hys⟩ := exists_append_of_not_mem hpb hsplit
    exact ⟨ys, hys⟩
  · cases xs with
    | nil => exact absurd (List.cons.inj hvs).1 (hne hp)
    | cons x xs =>
        rw [List.cons_append] at hvs
        obtain ⟨rfl, rfl⟩ := List.cons.inj hvs
        rw [header?_of_arguments hargs (isMark_of_keyword ht)] at h'
        cases h'

end Shape

-- ==================================================== findings

namespace Warning

/-- Of two warnings under one code, this one is about something further
in front. -/
def Precedes (w w' : Warning) : Prop :=
  w.code = w'.code → w.primary.start < w'.primary.start

end Warning

namespace Finding

variable {text : Text} {unit : Option String}

/-- The finding stands in front of the other one, if they are of one
kind. -/
def Precedes : Finding → Finding → Prop
  | registration r, registration r' => r.span.start < r'.span.start
  | warning w, warning w' => w.Precedes w'
  | _, _ => True

/-- What holds of findings at two tokens, one behind the other, holds of
all findings and later ones. -/
theorem pairwise_all_of_yields {P : Finding → Finding → Prop} {before ts : List PlacedToken}
    (h : ∀ front us vs t t' f f', ts = front ++ t :: (us ++ t' :: vs) →
      (∃ before, Yields text unit before t (us ++ t' :: vs) f) →
      (∃ before, Yields text unit before t' vs f') → P f f') :
    (all (.alone unit text) before ts).Pairwise P := by
  induction ts generalizing before with
  | nil => exact .nil
  | cons t ts ih =>
      have hlater : (all (.alone unit text) (t :: before) ts).Pairwise P := by
        apply ih
        intro front us vs u u' f f' hts hf hf'
        exact h (t :: front) us vs u u' f f' (by rw [hts]; rfl) hf hf'
      rw [all]
      cases hat : at? (.alone unit text) before t ts with
      | none => exact hlater
      | some f =>
          refine List.pairwise_cons.2 ⟨?_, hlater⟩
          intro f' hf'
          obtain ⟨us, t', vs, hts, hat'⟩ := exists_of_mem_all hf'
          rw [hts] at hat
          exact h [] us vs t t' f f' (by rw [hts]; rfl) ⟨before, at?_eq_some_iff.1 hat⟩
            ⟨_, at?_eq_some_iff.1 hat'⟩

namespace Yields

variable {before behind : List PlacedToken} {t : PlacedToken}

theorem start_union {x y : PlacedToken} (h : x.span.start < y.span.start) :
    (x.span.union y.span).start = x.span.start :=
  Nat.min_eq_left (Nat.le_of_lt h)

/-- A registration begins with the word it is found at. -/
theorem start_registration {r : Registration}
    (h : Yields text unit before t behind (.registration r))
    (ht : ∀ y ∈ behind, t.span.start < y.span.start) : r.span.start = t.span.start := by
  cases h with
  | registration hword hcall hargument =>
      obtain ⟨y, hy, -, rfl⟩ :=
        Shape.schemaArgument?_spec (Shape.schemaArgument?_eq_some_iff.2 hargument)
      have hsuffix := (Shape.call?_suffix (Shape.call?_eq_some_iff.2 hcall)).1
      exact start_union (ht y (hsuffix.subset hy))

/-- So does a call that is reported. -/
theorem start_malformed {model : String} {call : Span}
    (h : Yields text unit before t behind (.warning (.malformedRegistration model call)))
    (ht : ∀ y ∈ behind, t.span.start < y.span.start) : call.start = t.span.start := by
  cases h with
  | @malformed c hword hcall hargument =>
      obtain ⟨y, hy, hlast⟩ := Shape.exists_last_of_call? (Shape.call?_eq_some_iff.2 hcall)
      have hend : c.behind.head?.elim c.comma PlacedToken.span = y.span := by
        rw [← hlast]
        cases c.behind <;> rfl
      rw [hend]
      exact start_union (ht y hy)

/-- A brace that is reported is that of a head behind a keyword. -/
theorem header_of_openBody {name : String} {brace declared : Span}
    (h : Yields text unit before t behind (.warning (.openBody name brace declared))) :
    ∃ k hd, t.token = .keyword k ∧ k.bindsName = true ∧ Shape.header? behind = some hd
      ∧ hd.brace = brace := by
  cases h with
  | @openBody hd hword hheader hopen =>
      obtain ⟨k, hk⟩ : ∃ k, t.token = .keyword k := by
        simp only [List.mem_cons, List.not_mem_nil, or_false] at hword
        rcases hword with h | h | h <;> exact ⟨_, h⟩
      rw [hk] at hword
      exact ⟨k, hd, hk, bindsName_iff.2 hword, Shape.header?_eq_some_iff.2 hheader, rfl⟩

end Yields

/-- Braces that are never closed stand in the order of the keywords. -/
theorem brace_start_lt {us vs : List PlacedToken} {t : PlacedToken} {k : Keyword}
    {hd hd' : Shape.Header}
    (hts : (us ++ t :: vs).Pairwise fun x y => x.span.start < y.span.start)
    (h : Shape.header? (us ++ t :: vs) = some hd) (h' : Shape.header? vs = some hd')
    (ht : t.token = .keyword k) (hk : k.bindsName = true) : hd.brace.start < hd'.brace.start := by
  obtain ⟨ws, hws⟩ := Shape.exists_behind_of_header? h h' ht hk
  obtain ⟨front, args, p, b, hparts, -, -, -, -, hb⟩ := Shape.header?_parts h
  obtain ⟨front', args', p', b', hparts', -, -, -, -, hb'⟩ := Shape.header?_parts h'
  rw [hparts, ← List.append_assoc] at hts
  have hpairs := (List.pairwise_append.1 hts).2.1
  rw [← hb, ← hb']
  apply (List.pairwise_cons.1 (List.pairwise_cons.1 hpairs).2).1
  rw [hws, hparts']
  simp

/-- The findings among tokens that begin one behind the other. -/
theorem pairwise_all {before ts : List PlacedToken}
    (hts : ts.Pairwise fun x y => x.span.start < y.span.start) :
    (all (.alone unit text) before ts).Pairwise Precedes := by
  apply pairwise_all_of_yields
  rintro front us vs t t' f f' rfl ⟨_, hf⟩ ⟨_, hf'⟩
  obtain ⟨ht, hpairs⟩ := List.pairwise_cons.1 (List.pairwise_append.1 hts).2.1
  have ht' := (List.pairwise_cons.1 (List.pairwise_append.1 hpairs).2.1).1
  have hlt : t.span.start < t'.span.start := ht t' (by simp)
  cases f <;> cases f' <;> try trivial
  case registration.registration r r' =>
    show r.span.start < r'.span.start
    rwa [hf.start_registration ht, hf'.start_registration ht']
  case warning.warning w w' =>
    intro hcode
    -- findings warn of open bodies and malformed calls only
    cases w <;> cases w' <;> try cases hcode
    case openBody.openBody =>
      obtain ⟨-, hd, -, -, hheader, rfl⟩ := hf.header_of_openBody
      obtain ⟨k, hd', hk, hbinds, hheader', rfl⟩ := hf'.header_of_openBody
      exact brace_start_lt hpairs hheader hheader' hk hbinds
    case malformedRegistration.malformedRegistration model call model' call' =>
      show call.start < call'.start
      rwa [hf.start_malformed ht, hf'.start_malformed ht']
    all_goals nomatch hf

end Finding

-- ==================================================== units

namespace UnitScan

theorem pairwise_significant_starts (t : Text) :
    (significant (tokenize t)).Pairwise fun x y => x.span.start < y.span.start := by
  refine (SourceUnit.pairwise_significant t).imp_of_mem ?_
  intro x y hx _ hxy
  exact Nat.lt_of_lt_of_le (bounds_of_mem_tokensFrom (List.mem_filter.1 hx).1).2.1 hxy

variable (unit : Option String) (t : Text)

theorem pairwise_registrations :
    (of unit t).registrations.Pairwise fun r r' => r.span.start < r'.span.start := by
  refine List.pairwise_filterMap.2 ((Finding.pairwise_all (pairwise_significant_starts t)).imp ?_)
  intro f f' hprecedes r hr r' hr'
  cases f <;> cases hr
  cases f' <;> cases hr'
  exact hprecedes

/-- What the lexer warns of. -/
theorem pairwise_lexWarnings : (lexWarnings (tokenize t)).Pairwise Warning.Precedes := by
  have hprimary : ∀ {x : PlacedToken} {w : Warning}, x.warning? = some w → w.primary = x.span := by
    intro x w hw
    unfold PlacedToken.warning? at hw
    split at hw <;> cases hw <;> rfl
  refine List.pairwise_filterMap.2 ((pairwise_tokensFrom true 0 t).imp_of_mem ?_)
  intro x y hx _ hxy w hw w' hw' _
  rw [hprimary hw, hprimary hw']
  exact Nat.lt_of_lt_of_le (bounds_of_mem_tokensFrom hx).2.1 hxy

theorem pairwise_warnings : (of unit t).warnings.Pairwise Warning.Precedes := by
  rw [warnings_of]
  refine List.pairwise_append.2 ⟨pairwise_lexWarnings t, ?matched, ?across⟩
  case matched =>
    refine List.pairwise_filterMap.2 ((Finding.pairwise_all (pairwise_significant_starts t)).imp ?_)
    intro f f' hprecedes w hw w' hw'
    cases f <;> cases hw
    cases f' <;> cases hw'
    exact hprecedes
  case across =>
    -- the lexer and the matchers warn under different codes
    intro w hw w' hw' hcode
    obtain ⟨x, -, hw⟩ := List.mem_filterMap.1 hw
    obtain ⟨f, hf, hw'⟩ := List.mem_filterMap.1 hw'
    cases f <;> cases hw'
    obtain ⟨us, k, ts, -, hat⟩ := Finding.exists_of_mem_all hf
    unfold PlacedToken.warning? at hw
    cases Finding.at?_eq_some_iff.1 hat <;> split at hw <;> cases hw <;> cases hcode

end UnitScan

theorem Span.Marks.start_lt_width {s : Span} {t q : Text} (h : s.Marks t q) (hq : q ≠ []) :
    s.start < t.width := by
  have hpos : 0 < q.width := Nat.pos_of_ne_zero fun hwidth => hq (Text.width_eq_zero.1 hwidth)
  have hstop := h.stop_eq
  have hle := h.stop_le_width
  omega

theorem Warning.IsPlaced.start_lt_width {t : Text} {w : Warning} (h : w.IsPlaced t) :
    w.primary.start < t.width := by
  cases w with
  | openString literal quote =>
      obtain ⟨-, -, content, -, -, hmarks⟩ := h
      exact hmarks.start_lt_width (List.cons_ne_nil _ _)
  | openComment comment =>
      obtain ⟨-, r, hmarks⟩ := h
      exact hmarks.start_lt_width (List.cons_ne_nil _ _)
  | openBody name brace declared => exact h.1.start_lt_width (List.cons_ne_nil _ _)
  | malformedRegistration model call =>
      obtain ⟨m, hmarks⟩ := h
      exact hmarks.start_lt_width (List.cons_ne_nil 'm' _)
  | unknownSchema => exact h.elim
  | redeclared => exact h.elim
  | sharedDisplayName => exact h.elim

theorem Registration.IsPlaced.start_lt_width {t : Text} {r : Registration} (h : r.IsPlaced t) :
    r.span.start < t.width := by
  obtain ⟨m, hmarks⟩ := h
  exact hmarks.start_lt_width (List.cons_ne_nil 'm' _)

theorem Warning.primary_shift (n : Nat) (w : Warning) :
    (w.shift n).primary = w.primary.shift n := by
  cases w <;> rfl

-- ==================================================== inputs

/-- What stands in order within each unit, and within the unit's place,
stands in order in the input. -/
theorem SourceUnit.pairwise_flatMap_split {α : Type} {part : UnitScan → List α} (pos : α → Nat)
    {R : α → α → Prop} (input : Text) (hunit : ∀ u : SourceUnit, (part u.scan).Pairwise R)
    (hplace : ∀ u : SourceUnit, ∀ x ∈ part u.scan,
      u.start ≤ pos x ∧ pos x < u.start + u.text.width)
    (hR : ∀ x y, pos x < pos y → R x y) :
    ((split input).flatMap fun u => part u.scan).Pairwise R := by
  refine List.pairwise_flatMap.2 ⟨fun u _ => hunit u, ?_⟩
  refine (pairwise_split input).imp ?_
  intro u v huv x hx y hy
  apply hR
  have hu := hplace u x hx
  have hv := hplace v y hy
  unfold EndsBefore at huv
  omega

/-- The registrations of an input, in the order of the source. -/
theorem Catalog.pairwise_registered (input : Text) :
    (registered input).Pairwise fun r r' => r.span.start < r'.span.start := by
  refine SourceUnit.pairwise_flatMap_split (fun r : Registration => r.span.start) input ?_ ?_
    fun _ _ h => h
  · intro u
    rw [u.registrations_scan]
    refine List.pairwise_map.2 ((UnitScan.pairwise_registrations u.name u.text).imp ?_)
    intro r r' h
    exact Nat.add_lt_add_right h u.start
  · intro u r hr
    rw [u.registrations_scan] at hr
    obtain ⟨r', hr', rfl⟩ := List.mem_map.1 hr
    have hlt := ((UnitScan.isPlaced u.name u.text).2.1 r' hr').start_lt_width
    show u.start ≤ r'.span.start + u.start ∧ r'.span.start + u.start < u.start + u.text.width
    omega

/-- What the units of an input show by themselves, in the order of the
source for each code. -/
theorem SourceUnit.pairwise_warnings (input : Text) :
    ((split input).flatMap fun u => u.scan.warnings).Pairwise Warning.Precedes := by
  refine pairwise_flatMap_split (fun w : Warning => w.primary.start) input ?_ ?_
    fun _ _ h _ => h
  · intro u
    rw [u.warnings_scan]
    refine List.pairwise_map.2 ((UnitScan.pairwise_warnings u.name u.text).imp ?_)
    intro w w' h hcode
    rw [Warning.code_shift, Warning.code_shift] at hcode
    rw [Warning.primary_shift, Warning.primary_shift]
    exact Nat.add_lt_add_right (h hcode) u.start
  · intro u w hw
    rw [u.warnings_scan] at hw
    obtain ⟨w', hw', rfl⟩ := List.mem_map.1 hw
    have hlt := ((UnitScan.isPlaced u.name u.text).2.2 w' hw').start_lt_width
    rw [Warning.primary_shift, Span.start_shift]
    omega

end SchemaAtlas
