/-
Declarations in the order of the source. Tokens stand one behind the
other, and so do units; hence all declarations found in an input do.
The catalog keeps the last declaration of every identifier, in the
place of the first.

- `Catalog.found`: all declarations, also those redeclared later.
- `Catalog.pairwise_found`: they stand one behind the other.
- `Catalog.mem_values_iff`, `Catalog.pairwise_values`: which of them the
  catalog keeps, and in which order.
-/
import SchemaAtlas.Proofs.Catalog.Body
import SchemaAtlas.Proofs.OrderedMap.Previous
import SchemaAtlas.Proofs.SourceUnit

namespace SchemaAtlas

-- ==================================================== within a unit

/-- The token `y` stands behind the token `x`. -/
def PlacedToken.EndsBefore (x y : PlacedToken) : Prop :=
  x.span.stop ≤ y.span.start

/-- The declaration `e` stands behind the declaration `d`. -/
def Declaration.EndsBefore (d e : Declaration) : Prop :=
  d.span.stop ≤ e.span.start

namespace Finding

/-- Declarations are found at tokens, in their order; none is named by
the first token. -/
theorem declarations_order {u : SourceUnit} {ts : List PlacedToken}
    (hts : ts.Pairwise PlacedToken.EndsBefore) (before : List PlacedToken) :
    (∀ d ∈ (all u before ts).filterMap declaration?, ∃ x ∈ ts.tail, d.span = u.global x.span)
      ∧ ((all u before ts).filterMap declaration?).Pairwise Declaration.EndsBefore := by
  induction ts generalizing before with
  | nil => exact ⟨List.forall_mem_nil _, .nil⟩
  | cons t ts ih =>
      obtain ⟨hlater, hpairs⟩ := ih (List.pairwise_cons.1 hts).2 (t :: before)
      have htail : ∀ d ∈ (all u (t :: before) ts).filterMap declaration?,
          ∃ x ∈ ts, d.span = u.global x.span := by
        intro d hd
        obtain ⟨x, hx, hspan⟩ := hlater d hd
        exact ⟨x, List.mem_of_mem_tail hx, hspan⟩
      rw [all]
      cases hat : at? u before t ts with
      | none => exact ⟨htail, hpairs⟩
      | some f =>
          cases f with
          | registration r => exact ⟨htail, hpairs⟩
          | warning w => exact ⟨htail, hpairs⟩
          | declaration d =>
              obtain ⟨n, front, b, body, closing, after, rfl, -, -, -, hspan, -⟩ :=
                ofDeclaration_spec (declaration_of_at? hat)
              constructor
              · intro e he
                rcases List.mem_cons.1 he with rfl | he
                · exact ⟨n, List.mem_cons_self, hspan⟩
                · exact htail e he
              · refine List.pairwise_cons.2 ⟨?_, hpairs⟩
                intro e he
                obtain ⟨x, hx, hex⟩ := hlater e he
                have hends : n.span.stop ≤ x.span.start :=
                  (List.pairwise_cons.1 (List.pairwise_cons.1 hts).2).1 x hx
                rw [Declaration.EndsBefore, hspan, hex]
                exact Nat.add_le_add_right hends u.start

end Finding

namespace SourceUnit

variable {u : SourceUnit} {d : Declaration}

theorem pairwise_significant (t : Text) :
    (significant (tokenize t)).Pairwise PlacedToken.EndsBefore :=
  (pairwise_tokensFrom true 0 t).filter _

/-- The declarations of a unit stand one behind the other. -/
theorem pairwise_scan (u : SourceUnit) :
    u.scan.declarations.Pairwise Declaration.EndsBefore :=
  (Finding.declarations_order (pairwise_significant u.text) []).2

/-- A declaration's identifier lies inside its unit and is not empty. -/
theorem bounds_of_mem_scan (h : d ∈ u.scan.declarations) :
    u.start ≤ d.span.start ∧ d.span.start < d.span.stop
      ∧ d.span.stop ≤ u.start + u.text.width := by
  obtain ⟨x, hx, hspan⟩ :=
    (Finding.declarations_order (pairwise_significant u.text) []).1 d h
  have htoken : x ∈ tokenize u.text := (List.mem_filter.1 (List.mem_of_mem_tail hx)).1
  have hbounds := bounds_of_mem_tokensFrom htoken
  rw [hspan, SourceUnit.global, Span.start_shift, Span.stop_shift]
  omega

end SourceUnit

namespace Catalog

-- ==================================================== in an input

/-- All declarations of an input, in the order of the source. -/
def found (input : Text) : List Declaration :=
  (SourceUnit.split input).flatMap fun u => u.scan.declarations

variable {input : Text}

/-- Declarations stand one behind the other. -/
theorem pairwise_found (input : Text) : (found input).Pairwise Declaration.EndsBefore := by
  refine List.pairwise_flatMap.2 ⟨fun u _ => u.pairwise_scan, ?_⟩
  refine (SourceUnit.pairwise_split input).imp ?_
  intro u v huv d hd e he
  have hu := SourceUnit.bounds_of_mem_scan hd
  have hv := SourceUnit.bounds_of_mem_scan he
  unfold SourceUnit.EndsBefore at huv
  unfold Declaration.EndsBefore
  omega

theorem start_lt_stop_of_mem_found {d : Declaration} (h : d ∈ found input) :
    d.span.start < d.span.stop := by
  obtain ⟨u, -, hd⟩ := List.mem_flatMap.1 h
  exact (SourceUnit.bounds_of_mem_scan hd).2.1

theorem pairwise_starts (input : Text) :
    (found input).Pairwise fun d e => d.span.start < e.span.start := by
  refine (pairwise_found input).imp_of_mem ?_
  intro d e hd _ hde
  exact Nat.lt_of_lt_of_le (start_lt_stop_of_mem_found hd) hde

/-- Of two declarations the one that starts first also ends first. -/
theorem endsBefore_of_start_lt {d e : Declaration} (hd : d ∈ found input) (he : e ∈ found input)
    (h : d.span.start < e.span.start) : d.EndsBefore e :=
  OrderedMap.rel_of_pos_lt (·.span.start) (pairwise_starts input) (pairwise_found input) hd he h

-- ==================================================== kept declarations

theorem declarations_scan (input : Text) :
    (scan input).declarations =
      (found input).foldl (fun m d => m.insert d.name d) .empty := by
  rw [found, List.foldl_flatMap]
  show (ofUnits (SourceUnit.split input)).declarations = _
  exact (List.foldl_hom declarations fun c u => (declarations_add c u.scan).symm).symm

/-- Where an identifier is first declared. -/
def firstStart (input : Text) (name : String) : Nat :=
  OrderedMap.firstPos Declaration.name (·.span.start) name (found input)

/-- The declaration is the last one of its identifier. -/
def IsLast (input : Text) (d : Declaration) : Prop :=
  d ∈ found input ∧ ∀ e ∈ found input, e.name = d.name → e.span.start ≤ d.span.start

theorem isLast_of_get? {name : String} {d : Declaration}
    (h : (scan input).declarations.get? name = some d) : d.name = name ∧ IsLast input d := by
  rw [declarations_scan] at h
  obtain ⟨x, hx, rfl, rfl, hlast⟩ :=
    OrderedMap.exists_last_of_get? Declaration.name id (·.span.start) (pairwise_starts input) h
  exact ⟨rfl, hx, hlast⟩

/-- Every declared identifier has a last declaration, and the catalog
keeps it. -/
theorem exists_isLast {e : Declaration} (he : e ∈ found input) :
    ∃ d ∈ (scan input).declarations.values, d.name = e.name ∧ IsLast input d := by
  have hkey : e.name ∈ (scan input).declarations.keys := by
    rw [declarations_scan]
    exact (OrderedMap.mem_keys_foldl_insert Declaration.name id).2
      (Or.inr (List.mem_map_of_mem he))
  cases hget : (scan input).declarations.get? e.name with
  | none => exact absurd hkey (OrderedMap.get?_eq_none_iff.1 hget)
  | some d => exact ⟨d, OrderedMap.mem_values_of_get? hget, isLast_of_get? hget⟩

/-- The catalog keeps the last declaration of every identifier. -/
theorem mem_values_iff {d : Declaration} :
    d ∈ (scan input).declarations.values ↔ IsLast input d := by
  rw [declarations_scan]
  exact OrderedMap.mem_values_foldl_insert_iff (pairwise_starts input)

/-- What the catalog keeps stands in the order of first declarations. -/
theorem pairwise_values (input : Text) :
    (scan input).declarations.values.Pairwise fun d e =>
      firstStart input d.name < firstStart input e.name := by
  rw [declarations_scan]
  exact OrderedMap.pairwise_values_foldl_insert (pairwise_starts input)

end Catalog

end SchemaAtlas
