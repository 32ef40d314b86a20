import Mathlib.Data.List.MinMax
import Mathlib.Data.List.Nodup
import Mathlib.Data.List.Pairwise
import Mathlib.Data.Prod.Lex

/-!
# Survivors

A table whose rows may carry a key, several of them the same. Statements that compare each row with
the others of its key leave the key to the first of them in a linear order.
-/

namespace DemandSignal.Keyed

variable {α β ι κ : Type} {id : α → ι} {key : α → Option κ} {rank : α → β}

/-- A table with a primary key. -/
structure Table (α : Type) (id : α → ι) where
  rows : List α
  nodup : (rows.map id).Nodup

/-! ### The statements -/

/-- `DELETE FROM ... duplicate USING ... kept WHERE ...`: both are rows that the statement finds. -/
def Table.deleteUsing (joins : α → α → Bool) (table : Table α id) : Table α id where
  rows := table.rows.filter fun duplicate => !table.rows.any (joins duplicate)
  nodup := table.nodup.sublist (List.filter_sublist.map id)

/-- `UPDATE ... SET ... WHERE ...` of columns other than the primary key. -/
def Table.updateWhere (p : α → Bool) (set : α → α) (hid : ∀ row, id (set row) = id row)
    (table : Table α id) : Table α id where
  rows := table.rows.map fun row => if p row then set row else row
  nodup := by
    have hmap : (id ∘ fun row => if p row then set row else row) = id := by
      ext row
      by_cases h : p row = true <;> simp [h, hid]
    rw [List.map_map, hmap]
    exact table.nodup

/-- `ROW_NUMBER() OVER (PARTITION BY ... ORDER BY ...)` among the rows. -/
def rowNumber (same before : α → α → Bool) (rows : List α) (row : α) : ℕ :=
  (rows.countP fun other => same other row && before other row) + 1

/-- No key is that of two rows. -/
def UniqueKeys (key : α → Option κ) (rows : List α) : Prop :=
  rows.Pairwise fun a b => key a = none ∨ key a ≠ key b

instance [DecidableEq κ] {rows : List α} : Decidable (UniqueKeys key rows) :=
  inferInstanceAs (Decidable (List.Pairwise _ _))

/-- A key that no row misses. -/
theorem unique_some_iff {f : α → κ} {rows : List α} :
    UniqueKeys (fun row => some (f row)) rows ↔ (rows.map f).Nodup := by
  rw [UniqueKeys, List.Nodup, List.pairwise_map]
  simp

/-- A unique index on a key that may be missing; `none` when two rows have the same. -/
def createUnique [DecidableEq κ] (key : α → Option κ) (table : Table α id) : Option Unit :=
  if UniqueKeys key table.rows then some () else none

/-! ### The first row of a key -/

variable {table : Table α id} {row other : α} {rows rows' : List α}

theorem Table.eq_of_id (table : Table α id) (hrow : row ∈ table.rows) (hother : other ∈ table.rows)
    (h : id row = id other) : row = other :=
  List.inj_on_of_nodup_map table.nodup hrow hother h

/-- Rows of the same rank are the same. -/
def Ranked (rank : α → β) (table : Table α id) : Prop :=
  ∀ row ∈ table.rows, ∀ other ∈ table.rows, rank row = rank other → row = other

/-- A rank that tells the primary keys apart. -/
theorem ranked_of_id (h : ∀ {row other : α}, rank row = rank other → id row = id other) :
    Ranked rank table :=
  fun _ hrow _ hother hrank => table.eq_of_id hrow hother (h hrank)

variable [LinearOrder β]

/-- Nothing with its key comes before it. -/
structure First (key : α → Option κ) (rank : α → β) (rows : List α) (row : α) : Prop where
  mem : row ∈ rows
  le : ∀ other ∈ rows, key other = key row → rank row ≤ rank other

theorem exists_first (rank : α → β) (h : row ∈ rows) :
    ∃ first, First key rank rows first ∧ key first = key row := by
  classical
  have hmem : row ∈ rows.filter fun other => key other = key row :=
    List.mem_filter.mpr ⟨h, decide_eq_true rfl⟩
  cases hfirst : (rows.filter fun other => key other = key row).argmin rank with
  | none =>
      rw [List.argmin_eq_none] at hfirst
      rw [hfirst] at hmem
      cases hmem
  | some first =>
      have hmemFirst := List.argmin_mem hfirst
      rw [List.mem_filter, decide_eq_true_iff] at hmemFirst
      refine ⟨first, ⟨hmemFirst.1, fun other hother hkey => ?_⟩, hmemFirst.2⟩
      refine List.le_of_mem_argmin (List.mem_filter.mpr ⟨hother, ?_⟩) hfirst
      rw [decide_eq_true_iff, hkey, hmemFirst.2]

theorem First.eq (hranked : Ranked rank table) (h : First key rank table.rows row)
    (h' : First key rank table.rows other) (hkey : key row = key other) : row = other :=
  hranked row h.mem other h'.mem
    (le_antisymm (h.le other h'.mem hkey.symm) (h'.le row h.mem hkey))

/-! ### What a deletion leaves -/

theorem UniqueKeys.eq_of_key (h : UniqueKeys key rows) (hrow : row ∈ rows) (hother : other ∈ rows)
    (hsame : key row = key other) (hkey : key row ≠ none) : row = other := by
  have hsymm : Std.Symm fun a b => key a = none ∨ key a ≠ key b := by
    constructor
    rintro a b (hnone | hne)
    · by_cases hb : key b = none
      · exact .inl hb
      · exact .inr (hnone ▸ hb)
    · exact .inr hne.symm
  by_contra hne
  exact (List.Pairwise.forall h hrow hother hne).elim hkey fun hdiffer => hdiffer hsame

/-- The rows without a key stay, and of each key the first row. -/
structure LeavesFirst (key : α → Option κ) (rank : α → β) (rows rows' : List α) : Prop where
  sublist : rows'.Sublist rows
  mem_iff : ∀ row, row ∈ rows' ↔ row ∈ rows ∧ (key row = none ∨ First key rank rows row)
  unique : UniqueKeys key rows'

theorem UniqueKeys.countP_le_one [DecidableEq κ] (h : UniqueKeys key rows) (k : κ) :
    rows.countP (fun row => key row = some k) ≤ 1 := by
  induction rows with
  | nil => simp
  | cons row rows ih =>
      obtain ⟨hrow, hrows⟩ := List.pairwise_cons.mp h
      rw [List.countP_cons]
      by_cases hkey : key row = some k
      · have hnone : rows.countP (fun other => key other = some k) = 0 := by
          rw [List.countP_eq_zero]
          intro other hother
          rw [decide_eq_true_iff]
          intro hother'
          exact (hrow other hother).elim (fun hnull => by rw [hnull] at hkey; cases hkey)
            fun hne => hne (hkey.trans hother'.symm)
        rw [hnone, if_pos (decide_eq_true hkey)]
      · rw [if_neg (by simpa using hkey)]
        exact ih hrows

/-- A key of several rows is left to one of them. -/
theorem LeavesFirst.countP_eq [DecidableEq κ] (h : LeavesFirst key rank rows rows') (k : κ) :
    rows'.countP (fun row => key row = some k) = min 1 (rows.countP fun row => key row = some k) := by
  have hle := h.unique.countP_le_one k
  have hsub := h.sublist.countP_le (p := fun row => decide (key row = some k))
  obtain hzero | hpos := Nat.eq_zero_or_pos (rows.countP fun row => key row = some k)
  · omega
  · obtain ⟨row, hrow, hkey⟩ := List.countP_pos_iff.mp hpos
    obtain ⟨first, hfirst, hsame⟩ := exists_first rank hrow
    have hmem := (h.mem_iff first).mpr ⟨hfirst.mem, .inr hfirst⟩
    have hpos' : 0 < rows'.countP fun row => key row = some k :=
      List.countP_pos_iff.mpr ⟨first, hmem, by simpa [hsame] using hkey⟩
    omega

theorem leavesFirst_deleteUsing {joins : α → α → Bool}
    (hjoins : ∀ duplicate kept, joins duplicate kept = true ↔
      key duplicate ≠ none ∧ key duplicate = key kept ∧ rank kept < rank duplicate)
    (hranked : Ranked rank table) :
    LeavesFirst key rank table.rows (table.deleteUsing joins).rows := by
  have hmem : ∀ row, row ∈ (table.deleteUsing joins).rows ↔
      row ∈ table.rows ∧ (key row = none ∨ First key rank table.rows row) := by
    intro row
    rw [Table.deleteUsing, List.mem_filter, Bool.not_eq_true', List.any_eq_false]
    refine and_congr_right fun hrow => ?_
    simp only [hjoins]
    constructor
    · intro h
      by_cases hkey : key row = none
      · exact .inl hkey
      · refine .inr ⟨hrow, fun other hother hsame => not_lt.mp fun hlt => ?_⟩
        exact h other hother ⟨hkey, hsame.symm, hlt⟩
    · rintro (hkey | hfirst) other hother ⟨hkey', hsame, hlt⟩
      · exact hkey' hkey
      · exact absurd hlt (not_lt.mpr (hfirst.le other hother hsame.symm))
  refine ⟨List.filter_sublist, hmem, ?_⟩
  refine ((table.deleteUsing joins).nodup.of_map id).imp_of_mem fun {row other} hrow hother hne => ?_
  by_contra hnot
  rw [not_or, not_not] at hnot
  obtain ⟨hkey, hsame⟩ := hnot
  exact hne ((((hmem row).mp hrow).2.resolve_left hkey).eq hranked
    (((hmem other).mp hother).2.resolve_left (hsame ▸ hkey)) hsame)

/-! ### What an update leaves -/

/-- The rows with a key decide on their own which is the first. -/
theorem first_filter_iff {keyed : α → Bool} (hkeyed : ∀ row, keyed row = true ↔ key row ≠ none)
    (hkey : key row ≠ none) :
    First key rank (rows.filter keyed) row ↔ First key rank rows row := by
  constructor
  · intro h
    refine ⟨List.mem_of_mem_filter h.mem, fun other hother hsame => ?_⟩
    exact h.le other (List.mem_filter.mpr ⟨hother, (hkeyed other).mpr (hsame ▸ hkey)⟩) hsame
  · intro h
    exact ⟨List.mem_filter.mpr ⟨h.mem, (hkeyed row).mpr hkey⟩,
      fun other hother => h.le other (List.mem_of_mem_filter hother)⟩

/-- The first row of a partition is the one whose number is one. -/
theorem one_lt_rowNumber_iff {same before : α → α → Bool}
    (hsame : ∀ other row, same other row = true ↔ key other = key row)
    (hbefore : ∀ other row, before other row = true ↔ rank other < rank row) (hrow : row ∈ rows) :
    1 < rowNumber same before rows row ↔ ¬ First key rank rows row := by
  rw [rowNumber, Nat.lt_add_left_iff_pos, List.countP_pos_iff]
  simp only [Bool.and_eq_true, hsame, hbefore]
  constructor
  · rintro ⟨other, hother, hkey, hlt⟩ hfirst
    exact absurd hlt (not_lt.mpr (hfirst.le other hother hkey))
  · intro hnot
    by_contra hnone
    refine hnot ⟨hrow, fun other hother hkey => not_lt.mp fun hlt => ?_⟩
    exact hnone ⟨other, hother, hkey, hlt⟩

theorem unique_updateWhere {p : α → Bool} {set : α → α} {hid : ∀ row, id (set row) = id row}
    (hset : ∀ row, key (set row) = none)
    (hp : ∀ row ∈ table.rows, p row = true ↔ key row ≠ none ∧ ¬ First key rank table.rows row)
    (hranked : Ranked rank table) : UniqueKeys key (table.updateWhere p set hid).rows := by
  have hkey : ∀ row, key (if p row then set row else row) = if p row then none else key row := by
    intro row
    split
    · exact hset row
    · rfl
  have hstays : ∀ row ∈ table.rows, p row ≠ true → key row ≠ none →
      First key rank table.rows row := by
    intro row hrow hstay hkey
    by_contra hnot
    exact hstay ((hp row hrow).mpr ⟨hkey, hnot⟩)
  rw [UniqueKeys, Table.updateWhere, List.pairwise_map]
  refine (table.nodup.of_map id).imp_of_mem fun {row other} hrow hother hne => ?_
  rw [hkey, hkey]
  by_cases hclear : p row = true
  · exact .inl (if_pos hclear)
  · rw [if_neg hclear]
    by_contra hnot
    rw [not_or, not_not] at hnot
    obtain ⟨hsome, hsame⟩ := hnot
    by_cases hclear' : p other = true
    · rw [if_pos hclear'] at hsame
      exact hsome hsame
    · rw [if_neg hclear'] at hsame
      exact hne ((hstays row hrow hclear hsome).eq hranked
        (hstays other hother hclear' (hsame ▸ hsome)) hsame)

end DemandSignal.Keyed
