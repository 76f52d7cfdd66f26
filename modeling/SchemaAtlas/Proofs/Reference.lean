/-
What references are read from. The rules go by the tokens of a
definition and their order, not by where the tokens stand, and tokens
such as a literal left open tell them nothing. So two definitions have
the same reference if their tokens are the same up to a tail of such
tokens.

- `Alike`: token lists of which the rules make the same.
- `Alike.read?_eq`: the reference of alike definitions.
-/
import SchemaAtlas.Reference

namespace SchemaAtlas

-- ==================================================== alike token lists

/-- Whether no rule looks for such a token: a literal left open or a
character without a meaning. -/
def Token.isInert : Token → Bool
  | .string _ _ closed => !closed
  | .other _ => true
  | _ => false

/-- The same tokens, up to tails that tell the rules nothing. -/
inductive Alike : List PlacedToken → List PlacedToken → Prop
  | inert {ts us : List PlacedToken} (hts : ∀ t ∈ ts, t.token.isInert = true)
      (hus : ∀ u ∈ us, u.token.isInert = true) : Alike ts us
  | cons {t u : PlacedToken} {ts us : List PlacedToken} (htoken : t.token = u.token)
      (hrest : Alike ts us) : Alike (t :: ts) (u :: us)

section

variable {t u : PlacedToken} {ts us : List PlacedToken}

theorem PlacedToken.isMark_congr (h : t.token = u.token) (m : Mark) : t.isMark m = u.isMark m := by
  rw [isMark, isMark, h]

/-- An inert token is no mark, no name and no literal. -/
theorem Token.isInert_spec {x : Token} (h : x.isInert = true) :
    x.identifier? = none ∧ x.closedString? = none ∧ (∀ m, x ≠ .mark m)
      ∧ ∀ n, x ≠ .identifier n := by
  cases x with
  | string content quote closed =>
      cases closed with
      | true => cases h
      | false => simp [identifier?, closedString?]
  | other c => simp [identifier?, closedString?]
  | keyword | identifier | number | regex | mark | lineComment | blockComment | space | newline =>
      cases h

theorem PlacedToken.isMark_of_isInert (h : t.token.isInert = true) (m : Mark) :
    t.isMark m = false :=
  decide_eq_false ((Token.isInert_spec h).2.2.1 m)

end

namespace Alike

open Reference Shape

section

variable {t u : PlacedToken} {ts us : List PlacedToken}

/-- Where tokens stand makes no difference. -/
theorem of_tokens (h : ts.map PlacedToken.token = us.map PlacedToken.token) : Alike ts us := by
  induction ts generalizing us with
  | nil =>
      rw [List.map_eq_nil_iff.1 h.symm]
      exact .inert (List.forall_mem_nil _) (List.forall_mem_nil _)
  | cons t ts ih =>
      obtain ⟨u, us', rfl, htoken, hrest⟩ := List.map_eq_cons_iff.1 h.symm
      exact .cons htoken.symm (ih hrest.symm)

protected theorem refl (ts : List PlacedToken) : Alike ts ts :=
  of_tokens rfl

theorem right {us' : List PlacedToken} (h : Alike ts us)
    (htokens : us.map PlacedToken.token = us'.map PlacedToken.token) : Alike ts us' := by
  induction h generalizing us' with
  | inert hts hus =>
      refine .inert hts ?_
      intro u hu
      obtain ⟨v, hv, hvu⟩ := List.mem_map.1 (htokens ▸ List.mem_map_of_mem hu)
      rw [← hvu]
      exact hus v hv
  | cons htoken _ ih =>
      obtain ⟨v, vs, rfl, hv, hvs⟩ := List.map_eq_cons_iff.1 htokens.symm
      exact .cons (htoken.trans hv.symm) (ih hvs.symm)

theorem tail (h : Alike ts us) : Alike ts.tail us.tail := by
  cases h with
  | inert hts hus =>
      exact .inert (fun t ht => hts t (List.mem_of_mem_tail ht))
        fun u hu => hus u (List.mem_of_mem_tail hu)
  | cons _ hrest => exact hrest

-- ==================================================== markers

section

variable (h : ∀ t ∈ ts, t.token.isInert = true)
include h

theorem pathEnd?_inert (last : Option String) : pathEnd? last ts = last := by
  match ts with
  | [] => rfl
  | [d] => rfl
  | d :: n :: ts => simp [pathEnd?, (Token.isInert_spec (h n (by simp))).1]

theorem pathEnd?_cons_inert (last : Option String) (t : PlacedToken) :
    pathEnd? last (t :: ts) = last := by
  cases ts with
  | nil => rfl
  | cons n ts => simp [pathEnd?, (Token.isInert_spec (h n (by simp))).1]

theorem beginsIdType_inert : beginsIdType ts = false := by
  match ts with
  | [] => rfl
  | [t] => rfl
  | [t, c] => rfl
  | t :: c :: x :: ts => simp [beginsIdType, (Token.isInert_spec (h t (by simp))).2.2.2 "type"]

theorem beginsIdType_cons_inert (t : PlacedToken) : beginsIdType (t :: ts) = false := by
  match ts with
  | [] => rfl
  | [c] => rfl
  | c :: x :: ts => simp [beginsIdType, PlacedToken.isMark_of_isInert (h c (by simp))]

theorem beginsIdType_cons_cons_inert (t c : PlacedToken) :
    beginsIdType (t :: c :: ts) = false := by
  cases ts with
  | nil => rfl
  | cons x ts =>
      have hx := (Token.isInert_spec (h x (by simp))).1
      have hts := pathEnd?_inert (fun u hu => h u (List.mem_cons_of_mem x hu)) none
      simp [beginsIdType, hx, hts]

theorem refTarget?_inert : refTarget? ts = none := by
  match ts with
  | [] => rfl
  | [t] => rfl
  | [t, c] => rfl
  | t :: c :: x :: ts => simp [refTarget?, (Token.isInert_spec (h t (by simp))).2.2.2 "ref"]

theorem refTarget?_cons_inert (t : PlacedToken) : refTarget? (t :: ts) = none := by
  match ts with
  | [] => rfl
  | [c] => rfl
  | c :: x :: ts => simp [refTarget?, PlacedToken.isMark_of_isInert (h c (by simp))]

theorem refTarget?_cons_cons_inert (t c : PlacedToken) : refTarget? (t :: c :: ts) = none := by
  cases ts with
  | nil => rfl
  | cons x ts => simp [refTarget?, (Token.isInert_spec (h x (by simp))).2.1]

end

theorem pathEnd?_eq (last : Option String) {ts us : List PlacedToken} (h : Alike ts us) :
    pathEnd? last ts = pathEnd? last us := by
  match h with
  | .inert hts hus => rw [pathEnd?_inert hts, pathEnd?_inert hus]
  | .cons _ (.inert hts hus) => rw [pathEnd?_cons_inert hts, pathEnd?_cons_inert hus]
  | .cons hd (.cons hn hrest) =>
      rw [pathEnd?, pathEnd?, hn, PlacedToken.isMark_congr hd]
      simp only [pathEnd?_eq _ hrest]

theorem beginsIdType_eq (h : Alike ts us) : beginsIdType ts = beginsIdType us := by
  match h with
  | .inert hts hus => rw [beginsIdType_inert hts, beginsIdType_inert hus]
  | .cons _ (.inert hts hus) => rw [beginsIdType_cons_inert hts, beginsIdType_cons_inert hus]
  | .cons _ (.cons _ (.inert hts hus)) =>
      rw [beginsIdType_cons_cons_inert hts, beginsIdType_cons_cons_inert hus]
  | .cons ht (.cons hc (.cons hx hrest)) =>
      rw [beginsIdType, beginsIdType, ht, hx, PlacedToken.isMark_congr hc, pathEnd?_eq _ hrest]

theorem refTarget?_eq (h : Alike ts us) : refTarget? ts = refTarget? us := by
  match h with
  | .inert hts hus => rw [refTarget?_inert hts, refTarget?_inert hus]
  | .cons _ (.inert hts hus) => rw [refTarget?_cons_inert hts, refTarget?_cons_inert hus]
  | .cons _ (.cons _ (.inert hts hus)) =>
      rw [refTarget?_cons_cons_inert hts, refTarget?_cons_cons_inert hus]
  | .cons ht (.cons hc (.cons hx hrest)) =>
      rw [refTarget?, refTarget?, ht, hx, PlacedToken.isMark_congr hc]

theorem firstRef?_inert (h : ∀ t ∈ ts, t.token.isInert = true) : firstRef? ts = none := by
  induction ts with
  | nil => rfl
  | cons t ts ih =>
      rw [firstRef?, refTarget?_inert h, ih fun u hu => h u (List.mem_cons_of_mem t hu)]

theorem firstRef?_eq (h : Alike ts us) : firstRef? ts = firstRef? us := by
  induction h with
  | inert hts hus => rw [firstRef?_inert hts, firstRef?_inert hus]
  | cons htoken hrest ih => rw [firstRef?, firstRef?, refTarget?_eq (.cons htoken hrest), ih]

theorem behindIdType?_inert (h : ∀ t ∈ ts, t.token.isInert = true) : behindIdType? ts = none := by
  induction ts with
  | nil => rfl
  | cons t ts ih =>
      rw [behindIdType?, beginsIdType_inert h, if_neg Bool.false_ne_true]
      exact ih fun u hu => h u (List.mem_cons_of_mem t hu)

theorem typedTarget?_eq (h : Alike ts us) : typedTarget? ts = typedTarget? us := by
  unfold typedTarget?
  induction h with
  | inert hts hus => rw [behindIdType?_inert hts, behindIdType?_inert hus]
  | cons htoken hrest ih =>
      rw [behindIdType?, behindIdType?, beginsIdType_eq (.cons htoken hrest)]
      split
      · exact firstRef?_eq hrest
      · exact ih

theorem holdsIdType_inert (n : Nat) (h : ∀ t ∈ ts, t.token.isInert = true) :
    holdsIdType n ts = false := by
  induction n generalizing ts with
  | zero => rfl
  | succ n ih =>
      cases ts with
      | nil => rfl
      | cons t ts =>
          rw [holdsIdType, beginsIdType_inert h, ih fun u hu => h u (List.mem_cons_of_mem t hu)]
          rfl

theorem holdsIdType_eq (n : Nat) (h : Alike ts us) : holdsIdType n ts = holdsIdType n us := by
  induction h generalizing n with
  | inert hts hus => rw [holdsIdType_inert n hts, holdsIdType_inert n hus]
  | cons htoken hrest ih =>
      cases n with
      | zero => rfl
      | succ n =>
          rw [holdsIdType, holdsIdType, beginsIdType_eq (.cons htoken hrest), ih n]

theorem refBeforeIdType?_inert (h : ∀ t ∈ ts, t.token.isInert = true) :
    refBeforeIdType? ts = none := by
  induction ts with
  | nil => rfl
  | cons t ts ih =>
      rw [refBeforeIdType?, beginsIdType_inert h, if_neg Bool.false_ne_true, refTarget?_inert h]
      exact ih fun u hu => h u (List.mem_cons_of_mem t hu)

theorem refBeforeIdType?_eq (h : Alike ts us) : refBeforeIdType? ts = refBeforeIdType? us := by
  induction h with
  | inert hts hus => rw [refBeforeIdType?_inert hts, refBeforeIdType?_inert hus]
  | cons htoken hrest ih =>
      rw [refBeforeIdType?, refBeforeIdType?, beginsIdType_eq (.cons htoken hrest),
        refTarget?_eq (.cons htoken hrest), ih]

-- ==================================================== shape

theorem beginsObjectArray_cons_inert (h : ∀ t ∈ ts, t.token.isInert = true) (t : PlacedToken) :
    beginsObjectArray (t :: ts) = false := by
  cases ts with
  | nil => rfl
  | cons u ts => simp [beginsObjectArray, PlacedToken.isMark_of_isInert (h u (by simp))]

theorem beginsObjectArray_inert (h : ∀ t ∈ ts, t.token.isInert = true) :
    beginsObjectArray ts = false := by
  cases ts with
  | nil => rfl
  | cons t ts => exact beginsObjectArray_cons_inert (fun u hu => h u (List.mem_cons_of_mem t hu)) t

theorem beginsObjectArray_eq (h : Alike ts us) : beginsObjectArray ts = beginsObjectArray us := by
  match h with
  | .inert hts hus => rw [beginsObjectArray_inert hts, beginsObjectArray_inert hus]
  | .cons _ (.inert hts hus) =>
      rw [beginsObjectArray_cons_inert hts, beginsObjectArray_cons_inert hus]
  | .cons ht (.cons hu _) =>
      rw [beginsObjectArray, beginsObjectArray, PlacedToken.isMark_congr ht,
        PlacedToken.isMark_congr hu]

theorem holdsObjectArray_inert (h : ∀ t ∈ ts, t.token.isInert = true) :
    holdsObjectArray ts = false := by
  induction ts with
  | nil => rfl
  | cons t ts ih =>
      rw [holdsObjectArray, beginsObjectArray_inert h,
        ih fun u hu => h u (List.mem_cons_of_mem t hu)]
      rfl

theorem holdsObjectArray_eq (h : Alike ts us) : holdsObjectArray ts = holdsObjectArray us := by
  induction h with
  | inert hts hus => rw [holdsObjectArray_inert hts, holdsObjectArray_inert hus]
  | cons htoken hrest ih =>
      rw [holdsObjectArray, holdsObjectArray, beginsObjectArray_eq (.cons htoken hrest), ih]

theorem isArrayShaped_inert (h : ∀ t ∈ ts, t.token.isInert = true) : isArrayShaped ts = false := by
  cases ts with
  | nil => rfl
  | cons t ts =>
      rw [isArrayShaped, PlacedToken.isMark_of_isInert (h t (by simp)), holdsObjectArray_inert h]
      rfl

theorem isArrayShaped_eq (h : Alike ts us) : isArrayShaped ts = isArrayShaped us := by
  cases h with
  | inert hts hus => rw [isArrayShaped_inert hts, isArrayShaped_inert hus]
  | cons htoken hrest =>
      rw [isArrayShaped, isArrayShaped, PlacedToken.isMark_congr htoken,
        holdsObjectArray_eq (.cons htoken hrest)]

-- ==================================================== objects

theorem closeBraces_inert (depth : Nat) (h : ∀ t ∈ ts, t.token.isInert = true) :
    closeBraces depth ts = none := by
  induction ts with
  | nil => rfl
  | cons t ts ih =>
      have hmark := (Token.isInert_spec (h t (by simp))).2.2.1
      unfold closeBraces
      split
      · next hbrace => exact absurd hbrace (hmark .rightBrace)
      · next hbrace => exact absurd hbrace (hmark .leftBrace)
      · rw [ih fun u hu => h u (List.mem_cons_of_mem t hu)]
        rfl

/-- The tokens inside braces, if the braces close. -/
theorem closeBraces_eq (depth : Nat) (h : Alike ts us) :
    (closeBraces depth ts).map (fun b => b.1.map PlacedToken.token) =
      (closeBraces depth us).map fun b => b.1.map PlacedToken.token := by
  induction h generalizing depth with
  | inert hts hus => rw [closeBraces_inert depth hts, closeBraces_inert depth hus]
  | @cons t u ts us htoken hrest ih =>
      have hcons : ∀ depth (t : PlacedToken) (ts : List PlacedToken),
          ((closeBraces depth ts).map fun b => (t :: b.1, b.2)).map
              (fun b => b.1.map PlacedToken.token) =
            ((closeBraces depth ts).map fun b => b.1.map PlacedToken.token).map
              (t.token :: ·) := by
        intro depth t ts
        rw [Option.map_map, Option.map_map]
        rfl
      unfold closeBraces
      rw [htoken]
      split
      · cases depth with
        | zero => rfl
        | succ depth => rw [hcons, hcons, ih, htoken]
      · rw [hcons, hcons, ih, htoken]
      · rw [hcons, hcons, ih, htoken]

theorem objectTarget?_eq (h : Alike ts us) : objectTarget? ts = objectTarget? us := by
  have hinside := closeBraces_eq 0 h
  unfold objectTarget?
  cases hts : closeBraces 0 ts with
  | none =>
      rw [hts] at hinside
      rw [Option.map_eq_none_iff.1 hinside.symm]
  | some b =>
      rw [hts] at hinside
      obtain ⟨b', hus, hb⟩ := Option.map_eq_some_iff.1 hinside.symm
      have hlength : b'.1.length = b.1.length := by
        have hlengths := congrArg List.length hb
        rwa [List.length_map, List.length_map] at hlengths
      rw [hus]
      show (if holdsIdType b.1.length ts then firstRef? b.1 else none) =
        if holdsIdType b'.1.length us then firstRef? b'.1 else none
      rw [hlength, holdsIdType_eq _ h, firstRef?_eq (of_tokens hb.symm)]

theorem arrayTarget?_inert (h : ∀ t ∈ ts, t.token.isInert = true) : arrayTarget? ts = none := by
  induction ts with
  | nil => rfl
  | cons t ts ih =>
      rw [arrayTarget?, beginsObjectArray_inert h, if_neg Bool.false_ne_true]
      exact ih fun u hu => h u (List.mem_cons_of_mem t hu)

theorem arrayTarget?_eq (h : Alike ts us) : arrayTarget? ts = arrayTarget? us := by
  induction h with
  | inert hts hus => rw [arrayTarget?_inert hts, arrayTarget?_inert hus]
  | cons htoken hrest ih =>
      rw [arrayTarget?, arrayTarget?, beginsObjectArray_eq (.cons htoken hrest),
        objectTarget?_eq hrest.tail, ih]

-- ==================================================== values

theorem bracketsAfter_congr (h : t.token = u.token) (brackets : Nat) :
    bracketsAfter t brackets = bracketsAfter u brackets := by
  unfold bracketsAfter
  simp only [PlacedToken.isMark_congr h]

theorem isValuePlace_congr {before before' : Option PlacedToken}
    (h : before.map PlacedToken.token = before'.map PlacedToken.token) (brackets : Nat) :
    isValuePlace before brackets = isValuePlace before' brackets := by
  cases before with
  | none => rw [Option.map_eq_none_iff.1 h.symm]
  | some t =>
      obtain ⟨u, rfl, hu⟩ := Option.map_eq_some_iff.1 h.symm
      simp only [isValuePlace, PlacedToken.isMark_congr hu]

variable (schema : String) (catalog : Catalog) (brackets : Nat)

theorem embeddedAt?_inert (before : Option PlacedToken) (t : PlacedToken)
    (h : ∀ t ∈ ts, t.token.isInert = true) :
    embeddedAt? schema catalog brackets before t ts =
      embeddedAt? schema catalog brackets before t [] := by
  cases ts with
  | nil => rfl
  | cons d ts =>
      have hd := PlacedToken.isMark_of_isInert (h d (by simp)) .dot
      unfold embeddedAt?
      split
      · simp only [hd]
      · rfl

theorem embeddedAt?_eq {before before' : Option PlacedToken}
    (hbefore : before.map PlacedToken.token = before'.map PlacedToken.token)
    (htoken : t.token = u.token) (h : Alike ts us) :
    embeddedAt? schema catalog brackets before t ts =
      embeddedAt? schema catalog brackets before' u us := by
  cases h with
  | inert hts hus =>
      rw [embeddedAt?_inert _ _ _ _ _ hts, embeddedAt?_inert _ _ _ _ _ hus]
      unfold embeddedAt?
      simp only [htoken, isValuePlace_congr hbefore]
  | cons hd _ =>
      unfold embeddedAt?
      simp only [htoken, isValuePlace_congr hbefore, PlacedToken.isMark_congr hd]

theorem embedded?_inert (before : Option PlacedToken) (h : ∀ t ∈ ts, t.token.isInert = true) :
    embedded? schema catalog brackets before ts = none := by
  induction ts generalizing brackets before with
  | nil => rfl
  | cons t ts ih =>
      have hname := (Token.isInert_spec (h t (by simp))).2.2.2
      have hat : embeddedAt? schema catalog brackets before t ts = none := by
        unfold embeddedAt?
        split
        · next name hidentifier => exact absurd hidentifier (hname name)
        · rfl
      rw [embedded?, hat]
      exact ih _ _ fun u hu => h u (List.mem_cons_of_mem t hu)

theorem embedded?_eq {before before' : Option PlacedToken}
    (hbefore : before.map PlacedToken.token = before'.map PlacedToken.token) (h : Alike ts us) :
    embedded? schema catalog brackets before ts =
      embedded? schema catalog brackets before' us := by
  induction h generalizing brackets before before' with
  | inert hts hus => rw [embedded?_inert _ _ _ _ hts, embedded?_inert _ _ _ _ hus]
  | @cons t u ts us htoken hrest ih =>
      have hlater := ih (bracketsAfter u brackets)
        (show (some t).map PlacedToken.token = (some u).map PlacedToken.token from
          congrArg some htoken)
      rw [embedded?, embedded?, embeddedAt?_eq _ _ _ hbefore htoken hrest,
        bracketsAfter_congr htoken, hlater]

/-- Alike definitions have the same reference. -/
theorem read?_eq (h : Alike ts us) : read? schema catalog ts = read? schema catalog us := by
  rw [read?, read?, typedTarget?_eq h, arrayTarget?_eq h, refBeforeIdType?_eq h,
    isArrayShaped_eq h, embedded?_eq _ _ _ rfl h]

end

end Alike

end SchemaAtlas
