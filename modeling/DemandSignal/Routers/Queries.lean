import DemandSignal.Services.Summarize
import DemandSignal.System
import DemandSignal.Txn.Readers
import Mathlib.Data.List.Sort

/-!
# The requests that only read

`GET` of an event, of the dead letters, of the reviews and of the summary, and the pages that show them.
-/

namespace DemandSignal

open Txn Program

namespace Events

/-- An event and its latest score. -/
structure Detail where
  event : Event
  score : Option Score
deriving DecidableEq

/-- `GET /api/v1/events/{id}`. -/
def getEvent (eventId : Option Uuid) : Prog Detail := do
  let eventId ← boundId eventId
  match ← find .events fun event => event.id = eventId with
  | none => .raise (.http 404 "not_found")
  | some event => return ⟨event, ← Leads.latestScore event.id⟩

end Events

namespace DeadLetter

/-- `ORDER BY created_at, id` -/
def older (dlq dlq' : DeadLetterQueue) : Prop :=
  dlq.createdAt < dlq'.createdAt ∨ dlq.createdAt = dlq'.createdAt ∧ dlq.id ≤ dlq'.id

instance : DecidableRel older := fun _ _ => inferInstanceAs (Decidable (_ ∨ _))

def listed (resolved : Bool) (db : Db) : List DeadLetterQueue :=
  ((db .deadLetterQueue).filter fun dlq => dlq.resolved = resolved).insertionSort older

/-- `GET /api/v1/dead-letter` and the page of the dead letters. -/
def listDeadLetter (resolved : Bool) : Prog (List DeadLetterQueue) := select (listed resolved)

end DeadLetter

namespace ManualReview

def statusText : ReviewStatus → String
  | .pending => "pending"
  | .resolved => "resolved"

/-- `ORDER BY id` -/
def byId (review review' : ManualReviewQueue) : Prop := review.id ≤ review'.id

instance : DecidableRel byId := fun _ _ => inferInstanceAs (Decidable (_ ≤ _))

def listed (status : String) (db : Db) : List ManualReviewQueue :=
  ((db .manualReviewQueue).filter fun review => statusText review.status = status).insertionSort byId

/-- `get_pending_reviews`, and `GET /api/v1/manual-review`: an empty filter is none. -/
def getPendingReviews (statusFilter : Option String) : Prog (List ManualReviewQueue) :=
  select (listed ((statusFilter.bind Python.orNone).getD "pending"))

/-- `(0 if status == "pending" else 1, str(id))` -/
def pendingFirst (review review' : ManualReviewQueue) : Prop :=
  (review.status = .pending ∧ review'.status = .resolved) ∨
    review.status = review'.status ∧ review.id ≤ review'.id

instance : DecidableRel pendingFirst := fun _ _ => inferInstanceAs (Decidable (_ ∨ _))

/-- The rows of the page. A review that the session has loaded keeps the columns it was loaded with. -/
def shownPage (pending resolved : List ManualReviewQueue) : List ManualReviewQueue :=
  let resolved := resolved.map fun review =>
    (pending.find? fun loaded => loaded.id = review.id).getD review
  ((pending ++ resolved).insertionSort pendingFirst).take 100

/-- `GET /dashboard/manual-review`. -/
def manualReviewPage : Prog (List ManualReviewQueue) := do
  let pending ← getPendingReviews (some "pending")
  let resolved ← getPendingReviews (some "resolved")
  return shownPage pending resolved

end ManualReview

namespace Dashboard

/-- `GET /dashboard`. -/
def dashboardPage : Prog (Summarize.Summary × Report) := do
  let summary ← Summarize.getSummary {}
  let recon ← reconciliation {}
  return (summary, recon)

end Dashboard

/-! ### The site -/

inductive Query where
  | event (eventId : Option Uuid)
  | deadLetters (resolved : Bool)
  | reviews (statusFilter : Option String)
  | reviewPage
  | summary (window : Dashboard.Window)
  | dashboard

inductive View where
  | event (detail : Events.Detail)
  | deadLetters (entries : List DeadLetterQueue)
  | reviews (entries : List ManualReviewQueue)
  | summary (summary : Summarize.Summary)
  | dashboard (summary : Summarize.Summary) (report : Dashboard.Report)

def answer : Query → Prog View
  | .event eventId => do return .event (← Events.getEvent eventId)
  | .deadLetters resolved => do return .deadLetters (← DeadLetter.listDeadLetter resolved)
  | .reviews statusFilter => do return .reviews (← ManualReview.getPendingReviews statusFilter)
  | .reviewPage => do return .reviews (← ManualReview.manualReviewPage)
  | .summary window => do return .summary (← Summarize.getSummary window)
  | .dashboard => do
      let (summary, report) ← Dashboard.dashboardPage
      return .dashboard summary report

/-- The service with every request that only reads. -/
def site (app : App) : Service (Request ⊕ Query) Db Write Error Question Reply (Response ⊕ View) :=
  (service app).withReaders answer

end DemandSignal
