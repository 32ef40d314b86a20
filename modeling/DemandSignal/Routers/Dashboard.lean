import DemandSignal.Config

/-!
# Reconciliation

`app/routers/dashboard.py`: entity rows against creation receipts, each counted in one statement over
the same window.
-/

namespace DemandSignal

open Txn Program

namespace Dashboard

/-- One of `_PAIRS`: the rows of a table against the receipts of an action. -/
structure Pair where
  metric : String
  table : Table
  timestamp : Row table → Time
  filter : Row table → Bool := fun _ => true
  entityType : EntityType
  actionType : ActionType
  distinctEvents : Bool := false

def eventsCreated : Pair where
  metric := "events_created"
  table := .events
  timestamp := Event.createdAt
  filter := Event.isValid
  entityType := .event
  actionType := .eventCreated

def eventsEdited : Pair where
  metric := "events_edited"
  table := .events
  timestamp := Event.createdAt
  filter := Event.isEdit
  entityType := .event
  actionType := .eventEdited
  distinctEvents := true

def eventsRejected : Pair where
  metric := "events_rejected"
  table := .events
  timestamp := Event.createdAt
  filter := fun event => !Event.isValid event
  entityType := .event
  actionType := .eventRejected

def identities : Pair where
  metric := "identities"
  table := .identities
  timestamp := Identity.createdAt
  entityType := .identity
  actionType := .identityCreated

def leads : Pair where
  metric := "leads"
  table := .leads
  timestamp := Lead.createdAt
  entityType := .lead
  actionType := .leadCreated

def routes : Pair where
  metric := "routes"
  table := .routes
  timestamp := Route.assignedAt
  entityType := .route
  actionType := .routed

def attributionTouches : Pair where
  metric := "attribution_touches"
  table := .attributionTouches
  timestamp := AttributionTouch.createdAt
  entityType := .attributionTouch
  actionType := .attributedCreated

def deadLetterQueue : Pair where
  metric := "dead_letter_queue"
  table := .deadLetterQueue
  timestamp := DeadLetterQueue.createdAt
  entityType := .deadLetter
  actionType := .deadLettered

/-- `_PAIRS` -/
def pairs : List Pair :=
  [eventsCreated, eventsEdited, eventsRejected, identities, leads, routes, attributionTouches,
    deadLetterQueue]

/-- The optional bounds of a window, both inclusive. -/
structure Window where
  since : Option Time := none
  upTo : Option Time := none

def Window.contains (window : Window) (t : Time) : Bool :=
  (window.since.all fun since => since ≤ t) && (window.upTo.all fun bound => t ≤ bound)

/-- `count(...)` of the entity rows of a pair. -/
def dashboardCount (pair : Pair) (window : Window) (db : Db) : Nat :=
  ((db pair.table).filter fun row =>
    pair.filter row && window.contains (pair.timestamp row)).length

/-- The receipts of a pair in the window. -/
def pairReceipts (pair : Pair) (window : Window) (db : Db) : List Receipt :=
  (db .receipts).filter fun receipt =>
    Receipt.entityType receipt = pair.entityType && Receipt.actionType receipt = pair.actionType &&
      window.contains (Receipt.createdAt receipt)

/-- `count(...)` of the receipts of a pair, or of their distinct events. -/
def receiptCount (pair : Pair) (window : Window) (db : Db) : Nat :=
  if pair.distinctEvents then
    ((pairReceipts pair window db).filterMap Receipt.eventId).dedup.length
  else (pairReceipts pair window db).length

structure ReportRow where
  entity : String
  dashboardCount : Nat
  receiptCount : Nat
  variance : Nat
  ok : Bool

structure Report where
  variance : Nat
  pass : Bool
  window : Window
  reconciliation : List ReportRow

/-- `abs(a - b)` -/
def distance (a b : Nat) : Nat := (a - b) + (b - a)

def reconcilePair (window : Window) (pair : Pair) : Prog ReportRow := do
  let rows ← select (dashboardCount pair window)
  let receipts ← select (receiptCount pair window)
  return { entity := pair.metric, dashboardCount := rows, receiptCount := receipts
           variance := distance rows receipts, ok := distance rows receipts = 0 }

def reconcilePairs (window : Window) : List Pair → Prog (List ReportRow)
  | [] => return []
  | pair :: rest => do
      let row ← reconcilePair window pair
      let rows ← reconcilePairs window rest
      return row :: rows

/-- `GET /api/v1/dashboard/reconciliation`. -/
def reconciliation (window : Window) : Prog Report := do
  let rows ← reconcilePairs window pairs
  let variance := (rows.map ReportRow.variance).sum
  return { variance, pass := variance = 0, window, reconciliation := rows }

end Dashboard

end DemandSignal
