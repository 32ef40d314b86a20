import DemandSignal.Services.Pipeline

/-!
# The events router

`app/routers/events.py` and the response of `app/schemas/responses.py`.
-/

namespace DemandSignal

open Txn Program

structure EventIngestResponse where
  eventId : Uuid
  isValid : Bool := true
  invalidReason : Option String := none
  duplicate : Bool := false
  isEdit : Bool := false
  status : Option String := none
  reviewId : Option Uuid := none
  identityId : Option Uuid := none
  interpretStatus : Option String := none
  label : Option String := none
  interpretationId : Option Uuid := none
  stage : Option String := none
  score : Option Int := none
  decision : Option String := none
  scoreId : Option Uuid := none
  leadId : Option Uuid := none
  leadOp : Option Op := none
  routeId : Option Uuid := none
  queue : Option String := none
  ruleMatched : Option String := none
  slaDeadline : Option Time := none
  attributionTouchId : Option Uuid := none
deriving DecidableEq

namespace Events

variable (app : App)

def interpretResponse (eventId : Uuid) (status : Ingest.IngestStatus) (identityId : Uuid)
    (outcome : Pipeline.Outcome) : EventIngestResponse where
  eventId
  isEdit := status = .edit
  status := some "linked"
  identityId := some identityId
  interpretStatus := some "interpreted"
  label := some outcome.interpretation.label
  interpretationId := some outcome.interpretation.id
  score := outcome.score.bind Score.score
  decision := outcome.score.map Score.decision
  scoreId := outcome.score.map Score.id
  leadId := some outcome.acted.leadId
  leadOp := some outcome.acted.leadOp
  routeId := some outcome.acted.routeId
  queue := some outcome.acted.queue
  ruleMatched := some outcome.acted.ruleMatched
  slaDeadline := some outcome.acted.slaDeadline
  attributionTouchId := some outcome.acted.attributionTouchId

/-- What a `POST` answers: the status code and the response. -/
abbrev Answer := Nat × EventIngestResponse

def deadLetterResponse (eventId : Uuid) (status : Ingest.IngestStatus) : EventIngestResponse where
  eventId
  isEdit := status = .edit
  status := some "dead_letter"
  interpretStatus := some "error"
  stage := some "interpret"

/-- Resolve an ingested event and run the pipeline behind it. -/
def process (event : Event) (status : Ingest.IngestStatus) : Prog Answer := do
  match ← Resolve.resolveIdentity app event with
  | .queuedReview reviewId =>
      return (200, { eventId := event.id, isEdit := status = .edit, status := some "manual_review"
                     reviewId := some reviewId })
  | .linked identityId expired =>
    -- `str(event.id)` of an expired event
    if expired then .raise .missingGreenlet
    else
      match ← Pipeline.runDownstream app event identityId with
      | none => return (202, deadLetterResponse event.id status)
      | some outcome => return (200, interpretResponse event.id status identityId outcome)

/-- `"; ".join(...)` over the messages of a validation. -/
def invalidReason (errors : List FieldError) : String := "; ".intercalate (errors.map app.message)

/-- `POST /api/v1/events`. The body is what the JSON reader made of it; `none` when it refused. -/
def createEvent (body : Option Json) : Prog Answer := do
  match body with
  | none => .raise .malformedJson
  | some (.obj payload) =>
    match Schemas.validate app payload with
    | .error errors =>
        let reason := invalidReason app errors
        let event ← Ingest.persistInvalidEvent app payload reason
        return (200, { eventId := event.id, isValid := false, invalidReason := some reason })
    | .ok model =>
        let (event, status) ← Ingest.createEvent app model payload
        if status = .duplicate then return (200, { eventId := event.id, duplicate := true })
        else process app event status
  | some _ => do
      let event ← Ingest.persistInvalidEvent app [] "expected_json_object"
      return (200, { eventId := event.id, isValid := false
                     invalidReason := some "expected_json_object" })

end Events

end DemandSignal
