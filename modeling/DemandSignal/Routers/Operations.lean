import DemandSignal.Services.Pipeline

/-!
# Reviews, replays and leads

`app/routers/manual_review.py`, `app/routers/admin.py`, `app/routers/leads.py` and the forms and
pages of `app/routers/pages.py` that write. An id in a path or a body is text; `none` is text that is
no UUID.
-/

namespace DemandSignal

open Txn Program

/-- The id a text names. The database driver refuses any other text. -/
def boundId (text : Option Uuid) : Prog Uuid :=
  match text with
  | some id => .ret id
  | none => .raise .dataError

/-! ### Manual review -/

namespace ManualReview

variable (app : App)

structure Resolved where
  reviewId : Uuid
  identityId : Uuid
  eventId : Uuid
  outcome : Option Pipeline.Outcome

/-- The exception each router turns a refusal into. -/
def refusal : Resolve.ReviewError → Error
  | .alreadyResolved => .http 409 "review_already_resolved"
  | .mergeWithoutIdentity => .http 400 "invalid_decision"
  | .identityNotFound => .http 404 "not_found"
  | .reviewNotFound => .http 404 "not_found"

/-- The identity id of a merge is bound when it is looked up. -/
def mergeTarget (decision : String) (identityId : Option (Option Uuid)) : Prog (Option Uuid) :=
  match identityId with
  | none => .ret none
  | some text => if decision = "merge_into" then some <$> boundId text else .ret none

/-- `POST /api/v1/manual-review/{id}/resolve`. -/
def resolveManualReview (reviewId : Option Uuid) (decision : String)
    (identityId : Option (Option Uuid)) : Prog (Nat × Resolved) := do
  if decision = "merge_into" ∨ decision = "create_new" then do
    let reviewId ← boundId reviewId
    match ← Resolve.findReview reviewId with
    | none => .raise (.http 404 "review_not_found")
    | some entry =>
      if entry.status ≠ .pending then .raise (.http 409 "review_already_resolved")
      else
        match ← Resolve.resolveReview reviewId decision (← mergeTarget decision identityId) with
        | .error error => .raise (refusal error)
        | .ok result =>
          match ← find .events fun event => event.id = result.eventId with
          | none => .raise (.http 409 "event_not_found")
          | some event =>
            match ← Pipeline.runDownstream app event result.identityId with
            | none => return (202, ⟨result.reviewId, result.identityId, result.eventId, none⟩)
            | some outcome =>
                return (200, ⟨result.reviewId, result.identityId, result.eventId, some outcome⟩)
  else .raise (.http 422 "decision")

/-- `POST /dashboard/manual-review/{id}/resolve`: the form takes any decision and checks no status;
`false` is a page with an error. -/
def resolveForm (reviewId : Option Uuid) (decision : String) (identityId : Option (Option Uuid)) :
    Prog (Nat × Bool) := do
  let reviewId ← boundId reviewId
  match ← Resolve.findReview reviewId with
  | none => return (404, false)
  | some _ =>
    match ← Resolve.resolveReview reviewId decision (← mergeTarget decision identityId) with
    | .error error =>
        match refusal error with
        | .http status _ => return (status, false)
        | error => .raise error
    | .ok result =>
        match ← find .events fun event => event.id = result.eventId with
        | none => return (303, true)
        | some event =>
            let _ ← Pipeline.runDownstream app event result.identityId
            return (303, true)

end ManualReview

/-! ### Administration -/

namespace Admin

variable (app : App)

structure Replayed where
  eventId : Uuid
  acted : Act.Acted

/-- `_parse_event_id` -/
def parseEventId (text : Option Uuid) : Prog Uuid :=
  match text with
  | some id => .ret id
  | none => .raise (.http 404 "not_found")

/-- The unresolved dead letter of an event. -/
def findUnresolved (eventId : Uuid) : Prog (Option DeadLetterQueue) :=
  find .deadLetterQueue fun dlq => dlq.eventId = eventId && !dlq.resolved

/-- `POST /api/v1/admin/replay/{event_id}`. -/
def replayEvent (authorized : Bool) (eventId : Option Uuid) : Prog Replayed := do
  if authorized then do
    let eventId ← parseEventId eventId
    match ← find .events fun event => event.id = eventId with
    | none => .raise (.http 404 "not_found")
    | some event =>
      match ← findUnresolved eventId with
      | none => .raise (.http 409 "not_dead_lettered")
      | some dlq =>
        match ← findAll .identityLinks fun link => link.eventId = eventId with
        | [link] =>
          match ← Pipeline.runDownstream app event link.identityId with
          | none => .raise (.http 503 "replay_failed")
          | some outcome => do
              save .deadLetterQueue .integrityError dlq { dlq with resolved := true }
              let _ ← writeReceipt .deadLetterResolved dlq.id .deadLetter
                (.deadLetterResolved "interpret") (some event.id) (some link.identityId)
              commitNow
              return ⟨event.id, outcome.acted⟩
        | _ => .raise (.http 409 "ambiguous_identity")
  else .raise (.http 401 "unauthorized")

/-- `POST /api/v1/admin/simulate-failure`: the new dead letter. -/
def simulateFailure (authorized : Bool) (stage : String) (eventId : Option Uuid) :
    Prog DeadLetterQueue := do
  if authorized then
    if stage = "interpret" then do
      let eventId ← parseEventId eventId
      match ← find .events fun event => event.id = eventId with
      | none => .raise (.http 404 "not_found")
      | some event =>
        match ← findUnresolved eventId with
        | some _ => .raise (.http 409 "already_dead_lettered")
        | none =>
          match ← tryInsert .deadLetterQueue fun id now =>
              { id, eventId := event.id, stage := "interpret"
                error := "simulated provider failure (admin)"
                retryCount := app.retryMaxAttempts, createdAt := now } with
          | some dlq =>
              let _ ← writeReceipt .deadLettered dlq.id .deadLetter
                (.deadLettered "interpret" app.retryMaxAttempts true) (some event.id) none .error
              commitNow
              return dlq
          | none =>
              rollbackNow
              .raise (.http 409 "already_dead_lettered")
    else .raise (.http 400 "invalid_stage")
  else .raise (.http 401 "unauthorized")

end Admin

/-! ### Leads -/

namespace Leads

/-- `ORDER BY key DESC LIMIT 1`. -/
def latest {α : Type} (key : α → Time) (rows : List α) : Option α :=
  rows.foldl (fun best row =>
    match best with
    | none => some row
    | some top => if key top < key row then some row else best) none

def latestRoute (leadId : Uuid) : Prog (Option Route) :=
  .select fun db => latest Route.assignedAt ((db .routes).filter fun row => row.leadId = leadId)

def latestScore (eventId : Uuid) : Prog (Option Score) :=
  .select fun db => latest Score.createdAt ((db .scores).filter fun row => row.eventId = eventId)

structure LeadView where
  lead : Lead
  route : Option Route
  score : Option Score
  escalated : Bool

/-- The filters of the list. An empty filter is none. -/
structure Filters where
  status : Option String := none
  source : Option String := none
  decision : Option String := none

def LeadStatus.text : LeadStatus → String
  | .new => "new"
  | .routed => "routed"

/-- Whether the lead's source event has the source asked for. -/
def sourceMatches (lead : Lead) (source : Option String) : Prog Bool := do
  match source.bind Python.orNone with
  | none => return true
  | some source =>
      match ← find .events fun event => event.id = lead.sourceEventId with
      | none => return false
      | some event => return event.source = source

def decisionMatches (score : Option Score) (decision : Option String) : Bool :=
  match decision.bind Python.orNone with
  | none => true
  | some decision => (score.map Score.decision) = some decision

/-- One lead of the list; `none` when a filter drops it. -/
def viewLead (filters : Filters) (lead : Lead) : Prog (Option LeadView) := do
  let route ← latestRoute lead.id
  let score ← latestScore lead.sourceEventId
  if ← sourceMatches lead filters.source then
    if decisionMatches score filters.decision then do
      let escalated ← Escalation.evaluateEscalation route lead.identityId
      return some ⟨lead, route, score, escalated⟩
    else return none
  else return none

def viewLeads (filters : Filters) : List Lead → Prog (List LeadView)
  | [] => return []
  | lead :: leads => do
      let view ← viewLead filters lead
      let views ← viewLeads filters leads
      return view.toList ++ views

/-- `GET /api/v1/leads` and the page that lists leads. -/
def listLeads (filters : Filters) : Prog (List LeadView) := do
  let leads ← findAll .leads fun lead =>
    match filters.status.bind Python.orNone with
    | none => true
    | some status => LeadStatus.text lead.status = status
  let views ← viewLeads filters leads
  commitNow
  return views

structure LeadDetail extends LeadView where
  touch : Option AttributionTouch
  event : Option Event

/-- `GET /api/v1/leads/{id}`, and the page of a lead, which reads the source event too. -/
def getLead (withEvent : Bool) (leadId : Option Uuid) : Prog (Option LeadDetail) := do
  let leadId ← boundId leadId
  match ← find .leads fun lead => lead.id = leadId with
  | none => return none
  | some lead =>
      let route ← latestRoute lead.id
      let score ← latestScore lead.sourceEventId
      let touch ← Attribute.findTouch lead.identityId
      let event ← if withEvent then find .events fun event => event.id = lead.sourceEventId
        else pure none
      let escalated ← Escalation.evaluateEscalation route lead.identityId
      commitNow
      return some { lead, route, score, escalated, touch, event }

end Leads

end DemandSignal
