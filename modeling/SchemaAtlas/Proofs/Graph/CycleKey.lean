/-
What the key of a cycle tells. It is the cycle's members, each once and
in order, joined by arrows. So cycles with the same members have the
same key; the converse needs that the members can be read off the key,
which they can when no member holds an arrow of its own.

- `key_eq_of_sameMembers`: the key depends on the member set alone.
- `sameMembers_of_key_eq`: without arrows in ids it determines the set.
-/
import SchemaAtlas.Graph.Cycle
import SchemaAtlas.Proofs.Graph.Adjacency

namespace SchemaAtlas

namespace CycleSearch

-- ==================================================== member sets

/-- The two cycles pass through the same ids. -/
def SameMembers (c d : List String) : Prop :=
  ∀ id, id ∈ c ↔ id ∈ d

/-- The members of a cycle, each once and in order. -/
def sortedMembers (c : List String) : List String :=
  c.eraseDups.mergeSort fun a b => a ≤ b

theorem mem_sortedMembers {c : List String} {id : String} : id ∈ sortedMembers c ↔ id ∈ c := by
  rw [sortedMembers, List.mem_mergeSort, List.mem_eraseDups]

theorem pairwise_sortedMembers (c : List String) :
    (sortedMembers c).Pairwise fun a b => a ≤ b := by
  have htrans : ∀ a b c : String, decide (a ≤ b) = true → decide (b ≤ c) = true →
      decide (a ≤ c) = true := by
    intro a b c hab hbc
    exact decide_eq_true (String.le_trans (of_decide_eq_true hab) (of_decide_eq_true hbc))
  have htotal : ∀ a b : String, (decide (a ≤ b) || decide (b ≤ a)) = true := by
    intro a b
    simpa using String.le_total a b
  exact (List.pairwise_mergeSort htrans htotal c.eraseDups).imp of_decide_eq_true

/-- Sorted members are a normal form of the member set. -/
theorem sortedMembers_eq_iff {c d : List String} :
    sortedMembers c = sortedMembers d ↔ SameMembers c d := by
  constructor
  · intro h id
    rw [← mem_sortedMembers, h, mem_sortedMembers]
  · intro h
    have hperm : (sortedMembers c).Perm (sortedMembers d) := by
      have hdistinct : c.eraseDups.Perm d.eraseDups := by
        rw [List.perm_ext_iff_of_nodup (nodup_eraseDups c) (nodup_eraseDups d)]
        intro id
        rw [List.mem_eraseDups, List.mem_eraseDups]
        exact h id
      exact (List.mergeSort_perm _ _).trans (hdistinct.trans (List.mergeSort_perm _ _).symm)
    refine hperm.eq_of_pairwise ?_ (pairwise_sortedMembers c) (pairwise_sortedMembers d)
    exact fun _ _ _ _ => String.le_antisymm

theorem key_eq (c : List String) : key c = "->".intercalate (sortedMembers c) := rfl

/-- Cycles through the same ids have the same key. -/
theorem key_eq_of_sameMembers {c d : List String} (h : SameMembers c d) : key c = key d := by
  rw [key_eq, key_eq, sortedMembers_eq_iff.2 h]

-- ==================================================== reading a key

/-- The text does not hold an arrow. -/
def Arrowless (t : List Char) : Prop :=
  ¬ ['-', '>'] <:+: t

theorem Arrowless.tail {c : Char} {t : List Char} (h : Arrowless (c :: t)) : Arrowless t :=
  fun ht => h (ht.trans (List.suffix_cons c t).isInfix)

theorem not_arrowless_append (s t : List Char) : ¬ Arrowless (s ++ '-' :: '>' :: t) := by
  intro h
  exact h ⟨s, t, by simp⟩

/-- The first arrow behind a text without one ends it. -/
theorem append_arrow_inj {s t u v : List Char} (hs : Arrowless s) (ht : Arrowless t)
    (h : s ++ '-' :: '>' :: u = t ++ '-' :: '>' :: v) : s = t ∧ u = v := by
  induction s generalizing t with
  | nil =>
      -- a text in front of the second arrow would begin with the first one
      rcases t with _ | ⟨c, _ | ⟨d, t⟩⟩
      · simpa using h
      · simp at h
      · obtain ⟨rfl, rfl, -⟩ : c = '-' ∧ d = '>' ∧ u = t ++ '-' :: '>' :: v := by
          simpa [eq_comm] using h
        exact absurd ht (not_arrowless_append [] t)
  | cons c s ih =>
      rcases t with _ | ⟨d, t⟩
      · rcases s with _ | ⟨d, s⟩
        · simp at h
        · obtain ⟨rfl, rfl, -⟩ : c = '-' ∧ d = '>' ∧ s ++ '-' :: '>' :: u = v := by
            simpa using h
          exact absurd hs (not_arrowless_append [] s)
      · obtain ⟨rfl, hrest⟩ : c = d ∧ s ++ '-' :: '>' :: u = t ++ '-' :: '>' :: v := by
          simpa using h
        obtain ⟨rfl, huv⟩ := ih hs.tail ht.tail hrest
        exact ⟨rfl, huv⟩

/-- Texts without arrows can be read off the text that joins them. -/
theorem intercalate_arrow_inj {ss ts : List (List Char)} (hss : ∀ s ∈ ss, Arrowless s)
    (hts : ∀ t ∈ ts, Arrowless t) (hs : ss ≠ []) (ht : ts ≠ [])
    (h : ['-', '>'].intercalate ss = ['-', '>'].intercalate ts) : ss = ts := by
  have hcons : ∀ (s t : List Char) (us : List (List Char)),
      ['-', '>'].intercalate (s :: t :: us) =
        s ++ '-' :: '>' :: ['-', '>'].intercalate (t :: us) := by
    intro s t us
    rw [List.intercalate_cons_cons]
    simp
  induction ss generalizing ts with
  | nil => exact absurd rfl hs
  | cons s ss ih =>
      rcases ts with _ | ⟨t, ts⟩
      · exact absurd rfl ht
      have hs₀ := hss s List.mem_cons_self
      have ht₀ := hts t List.mem_cons_self
      rcases ss with _ | ⟨s', ss⟩ <;> rcases ts with _ | ⟨t', ts⟩
      · rwa [List.intercalate_singleton, List.intercalate_singleton, ← List.singleton_inj] at h
      · rw [List.intercalate_singleton, hcons] at h
        exact absurd (h ▸ hs₀) (not_arrowless_append t _)
      · rw [List.intercalate_singleton, hcons] at h
        exact absurd (h ▸ ht₀) (not_arrowless_append s _)
      · rw [hcons, hcons] at h
        obtain ⟨rfl, hrest⟩ := append_arrow_inj hs₀ ht₀ h
        rw [ih (fun u hu => hss u (List.mem_cons_of_mem s hu))
          (fun u hu => hts u (List.mem_cons_of_mem s hu)) (List.cons_ne_nil s' ss)
          (List.cons_ne_nil t' ts) hrest]

/-- Without arrows in their ids, cycles of one key have the same
members. -/
theorem sameMembers_of_key_eq {c d : List String} (hc : c ≠ []) (hd : d ≠ [])
    (hcs : ∀ id ∈ c, Arrowless id.toList) (hds : ∀ id ∈ d, Arrowless id.toList)
    (h : key c = key d) : SameMembers c d := by
  have hlist := congrArg String.toList h
  rw [key_eq, key_eq, String.toList_intercalate, String.toList_intercalate] at hlist
  have harrowless : ∀ {c : List String}, (∀ id ∈ c, Arrowless id.toList) →
      ∀ t ∈ (sortedMembers c).map String.toList, Arrowless t := by
    intro c hcs t ht
    obtain ⟨id, hid, rfl⟩ := List.mem_map.1 ht
    exact hcs id (mem_sortedMembers.1 hid)
  have hne : ∀ {c : List String}, c ≠ [] → (sortedMembers c).map String.toList ≠ [] := by
    intro c hc hnil
    obtain ⟨id, hid⟩ := List.exists_mem_of_ne_nil c hc
    rw [List.map_eq_nil_iff] at hnil
    exact absurd (mem_sortedMembers.2 hid) (hnil ▸ List.not_mem_nil)
  have hmap := intercalate_arrow_inj (harrowless hcs) (harrowless hds) (hne hc) (hne hd) hlist
  rw [← sortedMembers_eq_iff]
  exact (List.map_inj_right fun _ _ => String.toList_inj.1).1 hmap

end CycleSearch

end SchemaAtlas
