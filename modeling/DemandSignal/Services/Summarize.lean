import DemandSignal.Routers.Dashboard
import DemandSignal.Routers.Operations

/-!
# The summary

`app/services/summarize.py`: the counts of the dashboard, each in a statement of its own.
-/

namespace DemandSignal

open Txn Program

namespace Summarize

structure Summary where
  totalEvents : Nat
  validEvents : Nat
  invalidEvents : Nat
  bySource : List (String × Nat)
  byDecision : List (String × Nat)
  byStatus : List (String × Nat)
  totalLeads : Nat
  pendingReviews : Nat
  deadLetters : Nat

def count {t : Table} (p : Row t → Bool) (db : Db) : Nat := ((db t).filter p).length

/-- `windowed` -/
def windowed {t : Table} (timestamp : Row t → Time) (window : Dashboard.Window) (p : Row t → Bool) :
    Db → Nat :=
  count fun row => p row && window.contains (timestamp row)

/-- A count for each of the values. -/
def countEach (counts : String → Db → Nat) : List String → Prog (List (String × Nat))
  | [] => return []
  | value :: values => do
      let n ← select (counts value)
      let rest ← countEach counts values
      return (value, n) :: rest

def sources : List String := ["web_form", "social_mention", "email_engagement"]

def decisions : List String := ["hot", "warm", "cold", "needs_review"]

def statuses : List String := ["new", "routed", "qualified", "escalated", "closed"]

def events (window : Dashboard.Window) : (Event → Bool) → Db → Nat :=
  windowed (t := .events) Event.createdAt window

def scores (window : Dashboard.Window) : (Score → Bool) → Db → Nat :=
  windowed (t := .scores) Score.createdAt window

def leads (window : Dashboard.Window) : (Lead → Bool) → Db → Nat :=
  windowed (t := .leads) Lead.createdAt window

/-- The reviews that are not bounded by the window. -/
def pending : Db → Nat :=
  count (t := .manualReviewQueue) fun review => ManualReviewQueue.status review = .pending

/-- The dead letters that are not bounded by the window. -/
def unresolved : Db → Nat :=
  count (t := .deadLetterQueue) fun dlq => !DeadLetterQueue.resolved dlq

/-- `get_summary` -/
def getSummary (window : Dashboard.Window) : Prog Summary := do
  let totalEvents ← select (events window fun _ => true)
  let validEvents ← select (events window Event.isValid)
  let invalidEvents ← select (events window fun event => !event.isValid)
  let bySource ← countEach (fun source => events window fun event => event.source = source) sources
  let byDecision ← countEach (fun decision => scores window fun score => score.decision = decision)
    decisions
  let byStatus ← countEach (fun status => leads window fun lead =>
    Leads.LeadStatus.text lead.status = status) statuses
  let pendingReviews ← select pending
  let deadLetters ← select unresolved
  let totalLeads ← select (leads window fun _ => true)
  return { totalEvents, validEvents, invalidEvents, bySource, byDecision, byStatus, totalLeads
           pendingReviews, deadLetters }

end Summarize

end DemandSignal
