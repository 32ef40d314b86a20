import DemandSignal.Spec.Migrations

/-!
# Migrations

A clean-up leaves each event to one of its rows. Which one that is, and whether the unique index that
follows can be created, is exactly as the statement's own order has it.
-/

namespace DemandSignal.Migrations

open Txn Keyed

variable {Columns Links Reviews Scores : Type}

/-! ### `0011_events_dedupe_key_valid_only` -/

/-- What the downgrade makes of the events. -/
structure Downgraded (events events' : Table (EventRow Columns) EventRow.id) : Prop where
  succeeds : downgrade0011 events = some events'
  columns : List.Forall₂ (fun row row' => row' = row ∨ row' = { row with dedupeKey := none })
    events.rows events'.rows
  unique : UniqueKeys EventRow.dedupeKey events'.rows
  accepted : ∀ row ∈ events.rows, row.isValid = true → row ∈ events'.rows
  rejected : ∀ key, (∃ row ∈ events.rows, row.dedupeKey = some key) →
    (∀ row ∈ events.rows, row.dedupeKey = some key → row.isValid = false) →
    ∃ oldest ∈ events.rows, (∀ row, row ∈ events'.rows ∧ row.dedupeKey = some key ↔ row = oldest) ∧
      ∀ row ∈ events.rows, row.dedupeKey = some key →
        oldest.createdAt < row.createdAt ∨ oldest.createdAt = row.createdAt ∧ oldest.id ≤ row.id

/-- **The downgrade loses no audit row and no accepted key.** -/
theorem downgrade0011_loses_nothing {events : Table (EventRow Columns) EventRow.id}
    (hunique : UniqueKeys validKey events.rows) : ∃ events', Downgraded events events' := by
  have hkept := unique_nullLaterKeys events
  refine ⟨nullLaterKeys events, ?_, ?_, hkept, fun row hrow hvalid => ?_,
    fun key hexists hrejected => ?_⟩
  · rw [downgrade0011, createUnique_eq_some_iff.mpr hkept]
    rfl
  · rw [nullLaterKeys, Table.updateWhere, List.forall₂_map_right_iff, List.forall₂_same]
    intro row _
    split
    · exact .inr rfl
    · exact .inl rfl
  · exact mem_nullLaterKeys hrow fun hkey => first_of_valid hunique hrow hvalid hkey
  · obtain ⟨row, hrow, hkey⟩ := hexists
    obtain ⟨oldest, hfirst, hsame⟩ := exists_first acceptedFirst hrow
    have hkeyOldest := hsame.trans hkey
    have hmem := mem_nullLaterKeys hfirst.mem fun _ => hfirst
    refine ⟨oldest, hfirst.mem, fun row => ⟨?_, ?_⟩, fun row hrow hkey => ?_⟩
    · rintro ⟨hrow, hkey⟩
      exact hkept.eq_of_key hrow hmem (hkey.trans hkeyOldest.symm) (by rw [hkey]; exact Option.some_ne_none key)
    · rintro rfl
      exact ⟨hmem, hkeyOldest⟩
    · have hle := hfirst.le row hrow (hkey.trans hkeyOldest.symm)
      rw [acceptedFirst, acceptedFirst, Prod.Lex.toLex_le_toLex, Prod.Lex.toLex_le_toLex,
        hrejected row hrow hkey, hrejected oldest hfirst.mem hkeyOldest] at hle
      exact hle.elim (fun hlt => absurd hlt (lt_irrefl _)) And.right

/-- A rejected form, its correction, and a form that is rejected twice. -/
def resubmitted : Table (EventRow Unit) EventRow.id where
  rows := [⟨4, some "a", false, 1, ()⟩, ⟨3, some "a", true, 2, ()⟩, ⟨2, some "b", false, 3, ()⟩,
    ⟨1, some "b", false, 3, ()⟩]
  nodup := by decide

theorem downgrade0011_loses_nothing_resubmitted : ∃ events', Downgraded resubmitted events' :=
  downgrade0011_loses_nothing (by decide)

example : (nullLaterKeys resubmitted).rows.map EventRow.dedupeKey = [none, some "a", none, some "b"] := by
  decide

/-! ### `0012_phase8_integrity_hardening` -/

/-- Each event that has a row keeps exactly one. -/
def OncePerEvent {α : Type} (eventId : α → Uuid) (rows rows' : List α) : Prop :=
  rows'.Sublist rows ∧ ∀ event, rows'.countP (fun row => eventId row = event) =
    min 1 (rows.countP fun row => eventId row = event)

theorem oncePerEvent {α β : Type} [LinearOrder β] {eventId : α → Uuid} {rank : α → β}
    {rows rows' : List α} (h : LeavesFirst (fun row => some (eventId row)) rank rows rows') :
    OncePerEvent eventId rows rows' := by
  refine ⟨h.sublist, fun event => ?_⟩
  have hcount := h.countP_eq event
  simpa only [Option.some.injEq] using hcount

/-- What the upgrade should make of the three tables. -/
structure Hardened (tables tables' : Tables Links Reviews Scores) : Prop where
  identityLinks : OncePerEvent LinkRow.eventId tables.identityLinks.rows tables'.identityLinks.rows
  manualReviewQueue : OncePerEvent ReviewRow.eventId tables.manualReviewQueue.rows
    tables'.manualReviewQueue.rows
  scores : OncePerEvent ScoreRow.eventId tables.scores.rows tables'.scores.rows
  smallest : ∀ kept ∈ tables'.identityLinks.rows, ∀ row ∈ tables.identityLinks.rows,
    row.eventId = kept.eventId → kept.id ≤ row.id
  newest : ∀ kept ∈ tables'.scores.rows, ∀ row ∈ tables.scores.rows, row.eventId = kept.eventId →
    row.createdAt < kept.createdAt ∨ row.createdAt = kept.createdAt ∧ row.id ≤ kept.id

/-- **The constraints can be created** just when no event has two review items: the clean-up leaves
these as they are. -/
theorem upgrade0012_hardens (tables : Tables Links Reviews Scores) :
    (Hardened tables (cleanUp tables) ∧ upgrade0012 tables = some (cleanUp tables)) ↔
      (tables.manualReviewQueue.rows.map ReviewRow.eventId).Nodup := by
  have hlinks := leavesFirst_links tables
  have hscores := leavesFirst_scores tables
  constructor
  · rintro ⟨hhardened, -⟩
    rw [List.nodup_iff_count_le_one]
    intro event
    rw [List.count, List.countP_map]
    exact (hhardened.manualReviewQueue.2 event).trans_le (min_le_left _ _)
  · intro hnodup
    have hreviews : UniqueKeys (fun row => some row.eventId) (cleanUp tables).manualReviewQueue.rows :=
      unique_some_iff.mpr hnodup
    refine ⟨⟨oncePerEvent hlinks, ⟨List.Sublist.refl _, fun event => ?_⟩, oncePerEvent hscores,
      fun kept hkept row hrow hevent => ?_, fun kept hkept row hrow hevent => ?_⟩, ?_⟩
    · have hle := hreviews.countP_le_one event
      simp only [Option.some.injEq] at hle
      exact (min_eq_right hle).symm
    · obtain ⟨-, hnone | hfirst⟩ := (hlinks.mem_iff kept).mp hkept
      · cases hnone
      · exact hfirst.le row hrow (congrArg some hevent)
    · obtain ⟨-, hnone | hfirst⟩ := (hscores.mem_iff kept).mp hkept
      · cases hnone
      · have hle := hfirst.le row hrow (congrArg some hevent)
        rw [newestFirst, newestFirst, OrderDual.toDual_le_toDual, Prod.Lex.toLex_le_toLex] at hle
        exact hle
    · rw [upgrade0012, createUnique_eq_some_iff.mpr hlinks.unique,
        createUnique_eq_some_iff.mpr hreviews, createUnique_eq_some_iff.mpr hscores.unique]
      rfl

/-- A database with two review items of one event. -/
def reviewedTwice : Tables Unit Unit Unit where
  identityLinks := ⟨[], .nil⟩
  manualReviewQueue := ⟨[⟨1, 1, ()⟩, ⟨2, 1, ()⟩], by decide⟩
  scores := ⟨[], .nil⟩

theorem upgrade0012_aborts : ¬ ∀ tables : Tables Unit Unit Unit,
    Hardened tables (cleanUp tables) ∧ upgrade0012 tables = some (cleanUp tables) := by
  intro hall
  have hnone : (upgrade0012 reviewedTwice).isSome = false := by decide
  rw [(hall reviewedTwice).2] at hnone
  cases hnone

/-! ### `0013_dlq_unresolved_unique` -/

/-- What the deletion should make of the dead letters. -/
structure KeepsOldest (deadLetters deadLetters' : Table (DeadLetterRow Columns) DeadLetterRow.id) :
    Prop where
  sublist : deadLetters'.rows.Sublist deadLetters.rows
  resolved : ∀ row ∈ deadLetters.rows, row.resolved = true → row ∈ deadLetters'.rows
  once : ∀ event, deadLetters'.rows.countP (fun row => unresolvedEvent row = some event) =
    min 1 (deadLetters.rows.countP fun row => unresolvedEvent row = some event)
  oldest : ∀ kept ∈ deadLetters'.rows, kept.resolved = false → ∀ row ∈ deadLetters.rows,
    row.resolved = false → row.eventId = kept.eventId → kept.createdAt ≤ row.createdAt

/-- **The oldest dead letter is kept** just when the smallest id of an event is that of one. -/
theorem deleteLater_keepsOldest (deadLetters : Table (DeadLetterRow Columns) DeadLetterRow.id) :
    KeepsOldest deadLetters (deleteLater deadLetters) ↔
      ∀ least ∈ deadLetters.rows, least.resolved = false →
        (∀ row ∈ deadLetters.rows, row.resolved = false → row.eventId = least.eventId →
          least.id ≤ row.id) →
        ∀ row ∈ deadLetters.rows, row.resolved = false → row.eventId = least.eventId →
          least.createdAt ≤ row.createdAt := by
  have hleaves := leavesFirst_deadLetters deadLetters
  have hkey : ∀ row : DeadLetterRow Columns, row.resolved = false →
      unresolvedEvent row = some row.eventId := by
    intro row hrow
    rw [unresolvedEvent, hrow]
    rfl
  have hunresolved : ∀ {row : DeadLetterRow Columns} {event}, unresolvedEvent row = some event →
      row.resolved = false ∧ row.eventId = event := by
    intro row event hevent
    rw [unresolvedEvent] at hevent
    cases hrow : row.resolved with
    | true =>
        rw [hrow] at hevent
        cases hevent
    | false =>
        rw [hrow] at hevent
        exact ⟨rfl, Option.some_injective _ hevent⟩
  constructor
  · intro hkeeps least hleast hopen hsmallest
    refine hkeeps.oldest least ((hleaves.mem_iff least).mpr ⟨hleast, .inr ⟨hleast, ?_⟩⟩) hopen
    intro row hrow hsame
    obtain ⟨hrowOpen, hevent⟩ := hunresolved (hsame.trans (hkey least hopen))
    exact hsmallest row hrow hrowOpen hevent
  · intro hsmallest
    refine ⟨hleaves.sublist, fun row hrow hresolved => ?_, hleaves.countP_eq,
      fun kept hkept hopen => ?_⟩
    · refine (hleaves.mem_iff row).mpr ⟨hrow, .inl ?_⟩
      rw [unresolvedEvent, hresolved]
      rfl
    · obtain ⟨hmem, hnone | hfirst⟩ := (hleaves.mem_iff kept).mp hkept
      · rw [hkey kept hopen] at hnone
        cases hnone
      · refine hsmallest kept hmem hopen fun row hrow hrowOpen hevent => hfirst.le row hrow ?_
        rw [hkey row hrowOpen, hkey kept hopen, hevent]

/-- Two dead letters of an event, where the newer one has the smaller id. -/
def relettered : Table (DeadLetterRow Unit) DeadLetterRow.id where
  rows := [⟨1, 1, false, 2, ()⟩, ⟨2, 1, false, 1, ()⟩]
  nodup := by decide

theorem deleteLater_keepsNewer :
    ¬ ∀ deadLetters : Table (DeadLetterRow Unit) DeadLetterRow.id,
      KeepsOldest deadLetters (deleteLater deadLetters) := by
  intro hall
  have hle := (hall relettered).oldest ⟨1, 1, false, 2, ()⟩ (List.mem_singleton_self _) rfl
    ⟨2, 1, false, 1, ()⟩ (List.mem_cons_of_mem _ (List.mem_singleton_self _)) rfl rfl
  exact absurd hle (by decide)

end DemandSignal.Migrations
