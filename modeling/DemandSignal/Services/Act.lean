import DemandSignal.Services.Ingest

/-!
# Scoring, attribution and routing

`app/services/score.py`, `app/services/attribute.py` and `app/services/act.py`: the score of an
interpreted event, the first and last touch of its identity, and the lead and route it acts on.
-/

namespace DemandSignal

open Txn Program

/-! ### Scoring -/

namespace Scoring

/-- The first threshold the score reaches, or the last one. -/
def decide (score : Int) (policy : ScoringPolicy) : String :=
  ((policy.decisionThresholds.find? fun t => t.minScore ≤ score).getD
    (policy.decisionThresholds.getLast policy.decisionThresholds_ne_nil)).decision

/-- `round(label_base * float(confidence))`; `none` when it raises. -/
def applyMultiplier (labelBase : Int) : Decimal → Option Int
  | .nan => none
  | .hundredths n =>
      some (Python.roundHalfEven
        (Python.toDouble (Python.toDouble labelBase * Python.toDouble (n / 100 : ℚ))))

/-- `compute_score`; `none` when it raises a `ValueError`. -/
def computeScore (policy : ScoringPolicy) (label : String) (confidence : Decimal) (source : String)
    (consent : Bool) (campaignId : Option String) : Option (Option Int × String × Features) :=
  match (policy.labelScores.lookup label).join with
  | none => some (none, "needs_review", .insufficientData label)
  | some labelBase => do
      let base ← if policy.confidenceMultiplierEnabled then applyMultiplier labelBase confidence
        else some labelBase
      let sourceBonus := (policy.sourceBonus.lookup source).getD 0
      let consentBonus := if consent then policy.consentBonus else 0
      let campaignBonus := if (campaignId.bind Python.orNone).isSome then policy.campaignBonus else 0
      let clamped := max 0 (min 100 (base + sourceBonus + consentBonus + campaignBonus))
      some (some clamped, decide clamped policy,
        .scored label confidence source consent campaignId labelBase base sourceBonus consentBonus
          campaignBonus policy.confidenceMultiplierEnabled clamped)

variable (app : App)

/-- `INSERT ... ON CONFLICT (event_id) DO UPDATE` -/
def upsertScore (event : Event) (identityId : Uuid) (score : Option Int) (decision : String)
    (features : Features) : Prog Unit := do
  let id ← uuid4
  .execute .integrityError fun now db =>
    match (db .scores).find? fun row => row.eventId = event.id with
    | some row =>
        (some (.update .scores row
          ({ row with
              identityId, score, features
              policyVersion := app.scoringPolicy.policyVersion, decision } : Score)), ())
    | none =>
        (some (.insert .scores
          ({ id, eventId := event.id, identityId, score, features
             policyVersion := app.scoringPolicy.policyVersion, decision
             createdAt := now } : Score)), ())

/-- The score of an event and its receipt; the caller commits. -/
def scoreEvent (event : Event) (identityId : Uuid) (interpretation : Interpretation) :
    Prog Score := do
  match computeScore app.scoringPolicy interpretation.label interpretation.confidence event.source
      event.consent event.campaignId with
  | none => .raise .valueError
  | some (score, decision, features) => do
      upsertScore app event identityId score decision features
      match ← find .scores fun row => row.eventId = event.id with
      | none => .raise .invalidRequest
      | some row =>
          let _ ← writeReceipt .scored row.id .score
            (.scored row.score row.decision row.policyVersion) (some event.id) (some identityId)
          return row

end Scoring

/-! ### Attribution -/

namespace Attribute

/-- An edit changes only the denormalized fields of the touches that are the event's own. -/
def editTouch (touch : AttributionTouch) (event : Event) (now : Time) : AttributionTouch :=
  let first := if touch.firstTouchEventId = event.id then
      { touch with firstTouchSource := event.source, firstTouchCampaignId := event.campaignId }
    else touch
  let last := if first.lastTouchEventId = event.id then
      { first with lastTouchSource := event.source, lastTouchCampaignId := event.campaignId }
    else first
  { last with updatedAt := now }

/-- A strictly earlier event becomes the first touch and a strictly later one the last. -/
def extendTouch (touch : AttributionTouch) (event : Event) (now : Time) : AttributionTouch :=
  let first := if event.receivedAt < touch.firstTouchAt then
      { touch with
        firstTouchEventId := event.id, firstTouchAt := event.receivedAt
        firstTouchSource := event.source, firstTouchCampaignId := event.campaignId }
    else touch
  let last := if first.lastTouchAt < event.receivedAt then
      { first with
        lastTouchEventId := event.id, lastTouchAt := event.receivedAt
        lastTouchSource := event.source, lastTouchCampaignId := event.campaignId }
    else first
  { last with updatedAt := now }

/-- The touch of an identity's first event. -/
def newTouch (event : Event) (identityId id : Uuid) (now : Time) : AttributionTouch :=
  { id, identityId
    firstTouchEventId := event.id, firstTouchAt := event.receivedAt
    firstTouchSource := event.source, firstTouchCampaignId := event.campaignId
    lastTouchEventId := event.id, lastTouchAt := event.receivedAt
    lastTouchSource := event.source, lastTouchCampaignId := event.campaignId
    createdAt := now, updatedAt := now }

def findTouch (identityId : Uuid) : Prog (Option AttributionTouch) :=
  find .attributionTouches fun touch => touch.identityId = identityId

/-- The touch as loaded and as it is now; the caller flushes the difference. -/
def upsertAttribution (event : Event) (identityId : Uuid) :
    Prog (AttributionTouch × AttributionTouch) := do
  match ← findTouch identityId with
  | some existing =>
      let now ← utcNow
      if event.isEdit then return (existing, editTouch existing event now)
      else return (existing, extendTouch existing event now)
  | none =>
    match ← tryInsert .attributionTouches (newTouch event identityId) with
    | some touch => return (touch, touch)
    | none =>
        rollbackNow
        match ← findTouch identityId with
        | none => .raise .integrityError
        -- `event.received_at` of an expired event
        | some _ => .raise .missingGreenlet

end Attribute

/-! ### Acting -/

namespace Act

variable (app : App)

/-- `timedelta(hours=...)` -/
def hours (n : Int) : Time := n * 3600000000

/-- The queue, the rule and the hours to the deadline: the first rule that matches, or the
fallback. -/
def applyRoutingRule (decision label : String) (rules : RoutingRules) : String × String × Int :=
  match rules.rules.find? fun rule =>
      rule.decision = decision && (rule.label.all fun expected => expected = label) with
  | some rule => (rule.queue, rule.name, rule.slaHours)
  | none => (rules.fallback.queue, rules.fallback.ruleMatched, rules.fallback.slaHours)

def findLead (identityId : Uuid) : Prog (Option Lead) :=
  find .leads fun lead => lead.identityId = identityId

/-- The lead as loaded and as it is now. The next `SELECT` flushes the difference. -/
def createOrUpdateLead (event : Event) (identityId : Uuid) : Prog (Lead × Lead × Op) := do
  match ← findLead identityId with
  | some existing =>
      return (existing, { existing with sourceEventId := event.id, status := .routed }, .updated)
  | none =>
    match ← tryInsert .leads fun id now =>
        { id, identityId, sourceEventId := event.id, createdAt := now, updatedAt := now } with
    | some lead => return (lead, lead, .created)
    | none =>
        rollbackNow
        match ← findLead identityId with
        | none => .raise .integrityError
        -- `event.id` of an expired event
        | some _ => .raise .missingGreenlet

def findRoute (leadId : Uuid) : Prog (Option Route) := find .routes fun route => route.leadId = leadId

/-- The route as loaded and as it is now. -/
def routeLead (loaded lead : Lead) (decision label : String) : Prog (Route × Route × Op) := do
  let (queue, ruleMatched, slaHours) := applyRoutingRule decision label app.routingRules
  let now ← utcNow
  let slaDeadline := now + hours slaHours
  save .leads .integrityError loaded lead
  match ← findRoute lead.id with
  | some existing => return (existing, { existing with queue, ruleMatched, slaDeadline }, .updated)
  | none =>
    match ← tryInsert .routes fun id _ =>
        { id, leadId := lead.id, queue, ruleMatched, assignedAt := now, slaDeadline } with
    | some route => return (route, route, .created)
    | none =>
        rollbackNow
        match ← findRoute lead.id with
        | none => .raise .integrityError
        -- `lead.id` of an expired lead
        | some _ => .raise .missingGreenlet

/-- What acting on an event produced. -/
structure Acted where
  leadId : Uuid
  leadOp : Op
  routeId : Uuid
  queue : String
  ruleMatched : String
  slaDeadline : Time
  decision : String
  attributionTouchId : Uuid

/-- The lead, the route and the touch of an identity, with their receipts, in one commit. -/
def act (event : Event) (identityId : Uuid) (score : Option Score) : Prog Acted := do
  let (loadedLead, lead, leadOp) ← createOrUpdateLead event identityId
  let decision := (score.map Score.decision).getD "needs_review"
  let label := (score.map fun score => score.features.label).getD "unknown"
  let (loadedRoute, route, routeOp) ← routeLead app loadedLead lead decision label
  save .leads .integrityError lead { lead with status := .routed }
  save .routes .integrityError loadedRoute route
  let (loadedTouch, touch) ← Attribute.upsertAttribution event identityId
  save .attributionTouches .integrityError loadedTouch touch
  let _ ← writeReceipt (if leadOp = .created then .leadCreated else .leadUpdated) lead.id .lead
    (.lead leadOp decision) (some event.id) (some identityId)
  let _ ← writeReceipt (if routeOp = .created then .routed else .routeUpdated) route.id .route
    (.route route.queue route.ruleMatched route.slaDeadline) (some event.id) (some identityId)
  let _ ← writeReceipt (if leadOp = .created then .attributedCreated else .attributedUpdated)
    touch.id .attributionTouch (.attributed touch.firstTouchAt touch.lastTouchAt) (some event.id)
    (some identityId)
  commitNow
  return { leadId := lead.id, leadOp, routeId := route.id, queue := route.queue
           ruleMatched := route.ruleMatched, slaDeadline := route.slaDeadline, decision
           attributionTouchId := touch.id }

end Act

end DemandSignal
