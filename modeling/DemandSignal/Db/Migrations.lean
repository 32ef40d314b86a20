import DemandSignal.Keyed.Survivors
import DemandSignal.Txn.Program

/-!
# The migrations

`app/db/migrations/versions`: the statements of three revisions that change rows, and the unique indexes
that are created after them. Each revision is one transaction, which a constraint that cannot be created
aborts. A row has its columns that a statement reads or writes, and `Columns` are the others.
-/

namespace DemandSignal.Migrations

open Txn Keyed

/-! ### The rows -/

structure LinkRow (Columns : Type) where
  id : Uuid
  eventId : Uuid
  columns : Columns

structure ReviewRow (Columns : Type) where
  id : Uuid
  eventId : Uuid
  columns : Columns

structure ScoreRow (Columns : Type) where
  id : Uuid
  eventId : Uuid
  createdAt : Time
  columns : Columns

structure DeadLetterRow (Columns : Type) where
  id : Uuid
  eventId : Uuid
  resolved : Bool
  createdAt : Time
  columns : Columns

structure EventRow (Columns : Type) where
  id : Uuid
  dedupeKey : Option String
  isValid : Bool
  createdAt : Time
  columns : Columns

variable {Columns Links Reviews Scores : Type}

/-! ### `0011_events_dedupe_key_valid_only` -/

/-- What `uq_events_dedupe_key_valid` indexes. -/
def validKey (row : EventRow Columns) : Option String :=
  if row.isValid then row.dedupeKey else none

/-- `PARTITION BY dedupe_key` -/
def samePartition (other row : EventRow Columns) : Bool := other.dedupeKey = row.dedupeKey

/-- `ORDER BY is_valid DESC, created_at, id` -/
def ranksBefore (other row : EventRow Columns) : Bool :=
  if other.isValid = row.isValid then
    if other.createdAt = row.createdAt then other.id < row.id else other.createdAt < row.createdAt
  else other.isValid

/-- The ids of the rows that are not the first of their key. -/
def laterIds (events : Table (EventRow Columns) EventRow.id) : List Uuid :=
  let keyed := events.rows.filter fun row => row.dedupeKey.isSome
  (keyed.filter fun row => 1 < rowNumber samePartition ranksBefore keyed row).map EventRow.id

def nullLaterKeys (events : Table (EventRow Columns) EventRow.id) :
    Table (EventRow Columns) EventRow.id :=
  events.updateWhere (fun row => row.id ∈ laterIds events) (fun row => { row with dedupeKey := none })
    fun _ => rfl

def downgrade0011 (events : Table (EventRow Columns) EventRow.id) :
    Option (Table (EventRow Columns) EventRow.id) := do
  let events := nullLaterKeys events
  createUnique EventRow.dedupeKey events
  return events

/-! ### `0012_phase8_integrity_hardening` -/

structure Tables (Links Reviews Scores : Type) where
  identityLinks : Table (LinkRow Links) LinkRow.id
  manualReviewQueue : Table (ReviewRow Reviews) ReviewRow.id
  scores : Table (ScoreRow Scores) ScoreRow.id

/-- `(duplicate.created_at, duplicate.id) < (kept.created_at, kept.id)` -/
def older (duplicate kept : ScoreRow Scores) : Bool :=
  duplicate.createdAt < kept.createdAt ||
    duplicate.createdAt = kept.createdAt && duplicate.id < kept.id

def cleanUp (tables : Tables Links Reviews Scores) : Tables Links Reviews Scores :=
  { tables with
    identityLinks := tables.identityLinks.deleteUsing fun duplicate kept =>
      duplicate.eventId = kept.eventId && kept.id < duplicate.id
    scores := tables.scores.deleteUsing fun duplicate kept =>
      duplicate.eventId = kept.eventId && older duplicate kept }

def upgrade0012 (tables : Tables Links Reviews Scores) : Option (Tables Links Reviews Scores) := do
  let tables := cleanUp tables
  createUnique (fun row => some row.eventId) tables.identityLinks
  createUnique (fun row => some row.eventId) tables.manualReviewQueue
  createUnique (fun row => some row.eventId) tables.scores
  return tables

/-! ### `0013_dlq_unresolved_unique` -/

/-- What `uq_dead_letter_queue_event_id_unresolved` indexes. -/
def unresolvedEvent (row : DeadLetterRow Columns) : Option Uuid :=
  if row.resolved then none else some row.eventId

def deleteLater (deadLetters : Table (DeadLetterRow Columns) DeadLetterRow.id) :
    Table (DeadLetterRow Columns) DeadLetterRow.id :=
  deadLetters.deleteUsing fun duplicate kept =>
    duplicate.eventId = kept.eventId && duplicate.resolved = false && kept.resolved = false &&
      kept.id < duplicate.id

def upgrade0013 (deadLetters : Table (DeadLetterRow Columns) DeadLetterRow.id) :
    Option (Table (DeadLetterRow Columns) DeadLetterRow.id) := do
  let deadLetters := deleteLater deadLetters
  createUnique unresolvedEvent deadLetters
  return deadLetters

end DemandSignal.Migrations
