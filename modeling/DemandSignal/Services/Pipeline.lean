import DemandSignal.Services.Act
import DemandSignal.Services.Interpret
import DemandSignal.Services.Resolve

/-!
# The pipeline and escalation

`app/services/pipeline.py`, which interprets, scores and acts on a resolved event, and
`app/services/escalation.py`, which records a lapsed deadline when it is read.
-/

namespace DemandSignal

open Txn Program

namespace Pipeline

structure Outcome where
  interpretation : Interpretation
  score : Option Score
  acted : Act.Acted

/-- `none` stands for the `InterpretError` of an exhausted classification. -/
def runDownstream (app : App) (event : Event) (identityId : Uuid) : Prog (Option Outcome) := do
  match ← Interpret.classifyEvent app event with
  | none => return none
  | some interpretation =>
      let score ← match ← find .interpretations fun row => row.eventId = event.id with
        | some current => do
            let score ← Scoring.scoreEvent app event identityId current
            commitNow
            pure (some score)
        | none => pure none
      let acted ← Act.act app event identityId score
      return some ⟨interpretation, score, acted⟩

end Pipeline

namespace Escalation

/-- A route on its deadline is not past it. -/
def isSlaBreached (slaDeadline now : Time) : Bool := slaDeadline < now

/-- The route's escalation state; a breach is recorded the first time it is seen. -/
def evaluateEscalation (route : Option Route) (identityId : Uuid) : Prog Bool := do
  match route with
  | none => return false
  | some route =>
    if route.escalated then return true
    else do
      let now ← utcNow
      if isSlaBreached route.slaDeadline now then do
        save .routes .integrityError route { route with escalated := true }
        let _ ← writeReceipt .escalated route.id .route
          (.escalated route.queue route.ruleMatched route.slaDeadline now) none (some identityId)
        return true
      else return false

end Escalation

end DemandSignal
