import DemandSignal.Db.Migrations

/-!
# What the migrations leave

Each statement leaves a key to the first of its rows, in the order it compares them by.
-/

namespace DemandSignal.Migrations

open Txn Keyed

variable {Columns Links Reviews Scores : Type}

theorem createUnique_eq_some_iff {α ι κ : Type} [DecidableEq κ] {id : α → ι} {key : α → Option κ}
    {table : Table α id} : createUnique key table = some () ↔ UniqueKeys key table.rows := by
  rw [createUnique]
  split <;> simp_all

/-! ### Links and scores -/

theorem leavesFirst_links (tables : Tables Links Reviews Scores) :
    LeavesFirst (fun row => some row.eventId) LinkRow.id tables.identityLinks.rows
      (cleanUp tables).identityLinks.rows := by
  apply leavesFirst_deleteUsing
  · intro duplicate kept
    simp
  · exact ranked_of_id id

/-- The newest score comes first. -/
def newestFirst (row : ScoreRow Scores) : (Time ×ₗ Uuid)ᵒᵈ := .toDual (toLex (row.createdAt, row.id))

theorem older_iff {duplicate kept : ScoreRow Scores} :
    older duplicate kept = true ↔ newestFirst kept < newestFirst duplicate := by
  rw [newestFirst, newestFirst, OrderDual.toDual_lt_toDual, Prod.Lex.toLex_lt_toLex]
  simp [older]

theorem leavesFirst_scores (tables : Tables Links Reviews Scores) :
    LeavesFirst (fun row => some row.eventId) newestFirst tables.scores.rows
      (cleanUp tables).scores.rows := by
  apply leavesFirst_deleteUsing
  · intro duplicate kept
    simp [older_iff]
  · apply ranked_of_id
    intro row other hrank
    exact congrArg (fun rank => (ofLex (OrderDual.ofDual rank)).2) hrank

/-! ### Dead letters -/

theorem leavesFirst_deadLetters (deadLetters : Table (DeadLetterRow Columns) DeadLetterRow.id) :
    LeavesFirst unresolvedEvent DeadLetterRow.id deadLetters.rows (deleteLater deadLetters).rows := by
  apply leavesFirst_deleteUsing
  · intro duplicate kept
    cases hduplicate : duplicate.resolved <;> cases hkept : kept.resolved <;>
      simp [unresolvedEvent, hduplicate, hkept]
  · exact ranked_of_id id

/-! ### Events -/

/-- The accepted row comes first, and then the oldest. -/
def acceptedFirst (row : EventRow Columns) : Bool ×ₗ Time ×ₗ Uuid :=
  toLex (!row.isValid, toLex (row.createdAt, row.id))

theorem ranksBefore_iff {other row : EventRow Columns} :
    ranksBefore other row = true ↔ acceptedFirst other < acceptedFirst row := by
  rw [acceptedFirst, acceptedFirst, Prod.Lex.toLex_lt_toLex, Prod.Lex.toLex_lt_toLex, ranksBefore]
  by_cases hvalid : other.isValid = row.isValid
  · rw [if_pos hvalid, hvalid]
    by_cases hcreated : other.createdAt = row.createdAt
    · simp [hcreated]
    · simp [hcreated]
  · rw [if_neg hvalid]
    cases hother : other.isValid <;> cases hrow : row.isValid <;> simp_all

theorem ranked_acceptedFirst (events : Table (EventRow Columns) EventRow.id) :
    Ranked acceptedFirst events := by
  apply ranked_of_id
  intro row other hrank
  exact congrArg (fun rank => (ofLex (ofLex rank).2).2) hrank

variable {events : Table (EventRow Columns) EventRow.id} {row : EventRow Columns}

theorem mem_laterIds_iff (hrow : row ∈ events.rows) :
    row.id ∈ laterIds events ↔
      row.dedupeKey ≠ none ∧ ¬ First EventRow.dedupeKey acceptedFirst events.rows row := by
  have hkeyed : ∀ row : EventRow Columns, row.dedupeKey.isSome = true ↔ row.dedupeKey ≠ none :=
    fun row => by rw [Option.isSome_iff_ne_none]
  have hnumber : ∀ row ∈ events.rows.filter fun row => row.dedupeKey.isSome,
      (1 < rowNumber samePartition ranksBefore (events.rows.filter fun row => row.dedupeKey.isSome) row ↔
        ¬ First EventRow.dedupeKey acceptedFirst events.rows row) := by
    intro row hrow
    obtain ⟨-, hkey⟩ := List.mem_filter.mp hrow
    rw [← first_filter_iff hkeyed ((hkeyed row).mp hkey)]
    exact one_lt_rowNumber_iff (fun other row => by simp [samePartition])
      (fun other row => ranksBefore_iff) hrow
  rw [laterIds, List.mem_map]
  constructor
  · rintro ⟨later, hlater, hid⟩
    obtain ⟨hmem, hone⟩ := List.mem_filter.mp hlater
    obtain ⟨hmemRows, hkey⟩ := List.mem_filter.mp hmem
    obtain rfl := events.eq_of_id hmemRows hrow hid
    exact ⟨(hkeyed later).mp hkey, (hnumber later hmem).mp (of_decide_eq_true hone)⟩
  · rintro ⟨hkey, hnot⟩
    have hmem : row ∈ events.rows.filter fun row => row.dedupeKey.isSome :=
      List.mem_filter.mpr ⟨hrow, (hkeyed row).mpr hkey⟩
    exact ⟨row, List.mem_filter.mpr ⟨hmem, decide_eq_true ((hnumber row hmem).mpr hnot)⟩, rfl⟩

theorem mem_nullLaterKeys (hrow : row ∈ events.rows)
    (hfirst : row.dedupeKey ≠ none → First EventRow.dedupeKey acceptedFirst events.rows row) :
    row ∈ (nullLaterKeys events).rows := by
  have hstays : ¬ row.id ∈ laterIds events := by
    rw [mem_laterIds_iff hrow]
    rintro ⟨hkey, hnot⟩
    exact hnot (hfirst hkey)
  exact List.mem_map.mpr ⟨row, hrow, if_neg (by simpa using hstays)⟩

/-- The accepted row of a key is its first. -/
theorem first_of_valid (hunique : UniqueKeys validKey events.rows) (hrow : row ∈ events.rows)
    (hvalid : row.isValid = true) (hkey : row.dedupeKey ≠ none) :
    First EventRow.dedupeKey acceptedFirst events.rows row := by
  refine ⟨hrow, fun other hother hsame => ?_⟩
  cases hother' : other.isValid with
  | true =>
      have heq : other = row := by
        refine hunique.eq_of_key hother hrow ?_ ?_
        · rw [validKey, validKey, if_pos hother', if_pos hvalid, hsame]
        · rw [validKey, if_pos hother', hsame]
          exact hkey
      rw [heq]
  | false =>
      rw [acceptedFirst, acceptedFirst, Prod.Lex.toLex_le_toLex, hvalid, hother']
      exact .inl Bool.false_lt_true

theorem unique_nullLaterKeys (events : Table (EventRow Columns) EventRow.id) :
    UniqueKeys EventRow.dedupeKey (nullLaterKeys events).rows := by
  refine unique_updateWhere (fun _ => rfl) (fun row hrow => ?_) (ranked_acceptedFirst events)
  rw [decide_eq_true_iff]
  exact mem_laterIds_iff hrow

end DemandSignal.Migrations
