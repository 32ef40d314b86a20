import DemandSignal.Python.Number
import DemandSignal.Txn.Run

/-!
# The tables

The rows of `app/db/models.py`. An ORM `UPDATE` writes the columns that differ from the loaded row,
so a row changed in the meantime keeps its other columns.
-/

namespace DemandSignal

open Txn

/-! ### Rows -/

/-- `build_identity_fields`: the identity fields of a payload, as submitted. -/
structure IdentityFields where
  email : Option String := none
  phone : Option String := none
  name : Option String := none
  displayName : Option String := none
  handle : Option String := none
  company : Option String := none
deriving BEq, ReflBEq, LawfulBEq

instance : DecidableEq IdentityFields := instDecidableEqOfLawfulBEq

structure Event where
  id : Uuid
  externalEventId : String
  source : String
  dedupeKey : Option String
  payloadHash : String
  isEdit : Bool := false
  schemaVersion : String
  campaignId : Option String
  identityFields : Option IdentityFields
  rawPayload : Json.Fields
  consent : Bool
  receivedAt : Time
  isValid : Bool
  invalidReason : Option String := none
  createdAt : Time
deriving BEq, ReflBEq, LawfulBEq

instance : DecidableEq Event := instDecidableEqOfLawfulBEq

structure Identity where
  id : Uuid
  primaryEmail : Option String := none
  primaryPhone : Option String := none
  displayName : Option String
  primaryCompany : Option String
  createdAt : Time
deriving BEq, ReflBEq, LawfulBEq

instance : DecidableEq Identity := instDecidableEqOfLawfulBEq

inductive MatchRule where
  | exactEmail
  | exactPhone
  | fuzzyNameCompany
  | manualReviewResolve
deriving DecidableEq

structure IdentityLink where
  id : Uuid
  identityId : Uuid
  eventId : Uuid
  matchConfidence : Decimal
  matchRule : MatchRule
deriving BEq, ReflBEq, LawfulBEq

instance : DecidableEq IdentityLink := instDecidableEqOfLawfulBEq

inductive ReviewStatus where
  | pending
  | resolved
deriving DecidableEq

structure ManualReviewQueue where
  id : Uuid
  eventId : Uuid
  candidateIdentityId : Option Uuid
  reason : String
  status : ReviewStatus := .pending
  resolvedAt : Option Time := none
  resolution : Option String := none
deriving BEq, ReflBEq, LawfulBEq

instance : DecidableEq ManualReviewQueue := instDecidableEqOfLawfulBEq

/-- The token counts the provider reports. -/
structure Usage where
  promptTokens : Nat
  completionTokens : Nat
  totalTokens : Nat
deriving BEq, ReflBEq, LawfulBEq

instance : DecidableEq Usage := instDecidableEqOfLawfulBEq

structure Interpretation where
  id : Uuid
  eventId : Uuid
  label : String
  confidence : Decimal
  reason : String
  modelVersion : String
  promptVersion : String
  wasSkipped : Bool
  tokenUsage : Option Usage
  createdAt : Time
deriving BEq, ReflBEq, LawfulBEq

instance : DecidableEq Interpretation := instDecidableEqOfLawfulBEq

/-- The features of a score: what went into it, or that there was nothing to score. -/
inductive Features where
  | insufficientData (label : String)
  | scored (label : String) (confidence : Decimal) (source : String) (consent : Bool)
      (campaignId : Option String) (labelBaseScore labelScoreAfterMultiplier sourceBonus
        consentBonus campaignBonus : Int) (confidenceMultiplierApplied : Bool) (clamped : Int)
deriving BEq, ReflBEq, LawfulBEq

instance : DecidableEq Features := instDecidableEqOfLawfulBEq

def Features.label : Features → String
  | insufficientData label => label
  | scored label .. => label

structure Score where
  id : Uuid
  eventId : Uuid
  identityId : Uuid
  score : Option Int
  features : Features
  policyVersion : String
  decision : String
  createdAt : Time
deriving BEq, ReflBEq, LawfulBEq

instance : DecidableEq Score := instDecidableEqOfLawfulBEq

inductive LeadStatus where
  | new
  | routed
deriving DecidableEq

structure Lead where
  id : Uuid
  identityId : Uuid
  status : LeadStatus := .new
  sourceEventId : Uuid
  createdAt : Time
  updatedAt : Time
deriving BEq, ReflBEq, LawfulBEq

instance : DecidableEq Lead := instDecidableEqOfLawfulBEq

structure Route where
  id : Uuid
  leadId : Uuid
  queue : String
  ruleMatched : String
  assignedAt : Time
  slaDeadline : Time
  escalated : Bool := false
deriving BEq, ReflBEq, LawfulBEq

instance : DecidableEq Route := instDecidableEqOfLawfulBEq

structure AttributionTouch where
  id : Uuid
  identityId : Uuid
  firstTouchEventId : Uuid
  firstTouchAt : Time
  firstTouchSource : String
  firstTouchCampaignId : Option String
  lastTouchEventId : Uuid
  lastTouchAt : Time
  lastTouchSource : String
  lastTouchCampaignId : Option String
  createdAt : Time
  updatedAt : Time
deriving BEq, ReflBEq, LawfulBEq

instance : DecidableEq AttributionTouch := instDecidableEqOfLawfulBEq

/-- `VALID_ACTION_TYPES`. -/
inductive ActionType where
  | eventCreated | eventEdited | eventRejected
  | identityCreated | reviewQueued | reviewResolved
  | interpreted | scored
  | leadCreated | leadUpdated | routed | routeUpdated
  | escalated
  | attributedCreated | attributedUpdated
  | deadLettered | deadLetterResolved
deriving DecidableEq

inductive EntityType where
  | event | identity | manualReview | interpretation | score | lead | route | attributionTouch
  | deadLetter
deriving DecidableEq

/-- `created` or `updated`, as `act` reports its upserts. -/
inductive Op where
  | created
  | updated
deriving DecidableEq

/-- The metadata of a receipt. -/
inductive Meta where
  | eventCreated (source schemaVersion : String)
  | eventEdited (source previousPayloadHash payloadHash : String)
  | eventRejected (invalidReason : String)
  | identityCreated (matchRule : MatchRule) (reviewId : Option Uuid)
  | reviewQueued (reason : String)
  | reviewResolved (resolution : String) (reviewId : Uuid)
  | interpreted (label : String) (confidence : Decimal) (wasSkipped : Bool) (promptVersion : String)
  | scored (score : Option Int) (decision policyVersion : String)
  | lead (leadOp : Op) (decision : String)
  | route (queue ruleMatched : String) (slaDeadline : Time)
  | escalated (queue ruleMatched : String) (slaDeadline detectedAt : Time)
  | attributed (firstTouchAt lastTouchAt : Time)
  | deadLettered (stage : String) (retryCount : Nat) (simulated : Bool)
  | deadLetterResolved (stage : String)
deriving BEq, ReflBEq, LawfulBEq

instance : DecidableEq Meta := instDecidableEqOfLawfulBEq

inductive ReceiptStatus where
  | ok
  | error
deriving DecidableEq

structure Receipt where
  id : Uuid
  actionType : ActionType
  entityId : Uuid
  entityType : EntityType
  eventId : Option Uuid := none
  identityId : Option Uuid := none
  metadata : Meta
  status : ReceiptStatus := .ok
  createdAt : Time
deriving BEq, ReflBEq, LawfulBEq

instance : DecidableEq Receipt := instDecidableEqOfLawfulBEq

structure DeadLetterQueue where
  id : Uuid
  eventId : Uuid
  stage : String
  error : String
  retryCount : Nat
  resolved : Bool := false
  createdAt : Time
deriving BEq, ReflBEq, LawfulBEq

instance : DecidableEq DeadLetterQueue := instDecidableEqOfLawfulBEq

/-! ### Tables -/

inductive Table where
  | events | identities | identityLinks | manualReviewQueue | interpretations | scores | leads
  | routes | attributionTouches | receipts | deadLetterQueue
deriving DecidableEq

namespace Table

def all : List Table :=
  [events, identities, identityLinks, manualReviewQueue, interpretations, scores, leads, routes,
    attributionTouches, receipts, deadLetterQueue]

theorem mem_all (t : Table) : t ∈ all := by cases t <;> decide

end Table

@[reducible]
def Row : Table → Type
  | .events => Event
  | .identities => Identity
  | .identityLinks => IdentityLink
  | .manualReviewQueue => ManualReviewQueue
  | .interpretations => Interpretation
  | .scores => Score
  | .leads => Lead
  | .routes => Route
  | .attributionTouches => AttributionTouch
  | .receipts => Receipt
  | .deadLetterQueue => DeadLetterQueue

instance : {t : Table} → DecidableEq (Row t)
  | .events => inferInstanceAs (DecidableEq Event)
  | .identities => inferInstanceAs (DecidableEq Identity)
  | .identityLinks => inferInstanceAs (DecidableEq IdentityLink)
  | .manualReviewQueue => inferInstanceAs (DecidableEq ManualReviewQueue)
  | .interpretations => inferInstanceAs (DecidableEq Interpretation)
  | .scores => inferInstanceAs (DecidableEq Score)
  | .leads => inferInstanceAs (DecidableEq Lead)
  | .routes => inferInstanceAs (DecidableEq Route)
  | .attributionTouches => inferInstanceAs (DecidableEq AttributionTouch)
  | .receipts => inferInstanceAs (DecidableEq Receipt)
  | .deadLetterQueue => inferInstanceAs (DecidableEq DeadLetterQueue)

namespace Row

def id : {t : Table} → Row t → Uuid
  | .events, row => Event.id row
  | .identities, row => Identity.id row
  | .identityLinks, row => IdentityLink.id row
  | .manualReviewQueue, row => ManualReviewQueue.id row
  | .interpretations, row => Interpretation.id row
  | .scores, row => Score.id row
  | .leads, row => Lead.id row
  | .routes, row => Route.id row
  | .attributionTouches, row => AttributionTouch.id row
  | .receipts, row => Receipt.id row
  | .deadLetterQueue, row => DeadLetterQueue.id row

/-- One column of an `UPDATE`: written only when it differs from the loaded value. -/
def column {α : Type} [DecidableEq α] (loaded new current : α) : α :=
  if new = loaded then current else new

@[simp]
theorem column_self {α : Type} [DecidableEq α] (loaded new : α) : column loaded new loaded = new := by
  unfold column
  split
  · next h => exact h.symm
  · rfl

/-- The current row after an `UPDATE` that turned the loaded row into the new one. -/
def merge : {t : Table} → (loaded new current : Row t) → Row t
  | .events, (loaded : Event), (new : Event), (current : Event) =>
      { current with
        isEdit := column loaded.isEdit new.isEdit current.isEdit
        payloadHash := column loaded.payloadHash new.payloadHash current.payloadHash
        rawPayload := column loaded.rawPayload new.rawPayload current.rawPayload
        identityFields := column loaded.identityFields new.identityFields current.identityFields
        schemaVersion := column loaded.schemaVersion new.schemaVersion current.schemaVersion
        campaignId := column loaded.campaignId new.campaignId current.campaignId
        consent := column loaded.consent new.consent current.consent
        receivedAt := column loaded.receivedAt new.receivedAt current.receivedAt }
  | .identityLinks, (loaded : IdentityLink), (new : IdentityLink), (current : IdentityLink) =>
      { current with
        identityId := column loaded.identityId new.identityId current.identityId
        matchConfidence := column loaded.matchConfidence new.matchConfidence current.matchConfidence
        matchRule := column loaded.matchRule new.matchRule current.matchRule }
  | .manualReviewQueue, (loaded : ManualReviewQueue), (new : ManualReviewQueue),
      (current : ManualReviewQueue) =>
      { current with
        candidateIdentityId := column loaded.candidateIdentityId new.candidateIdentityId
          current.candidateIdentityId
        reason := column loaded.reason new.reason current.reason
        status := column loaded.status new.status current.status
        resolvedAt := column loaded.resolvedAt new.resolvedAt current.resolvedAt
        resolution := column loaded.resolution new.resolution current.resolution }
  | .interpretations, (loaded : Interpretation), (new : Interpretation),
      (current : Interpretation) =>
      { current with
        label := column loaded.label new.label current.label
        confidence := column loaded.confidence new.confidence current.confidence
        reason := column loaded.reason new.reason current.reason
        modelVersion := column loaded.modelVersion new.modelVersion current.modelVersion
        promptVersion := column loaded.promptVersion new.promptVersion current.promptVersion
        wasSkipped := column loaded.wasSkipped new.wasSkipped current.wasSkipped
        tokenUsage := column loaded.tokenUsage new.tokenUsage current.tokenUsage }
  | .scores, (loaded : Score), (new : Score), (current : Score) =>
      { current with
        identityId := column loaded.identityId new.identityId current.identityId
        score := column loaded.score new.score current.score
        features := column loaded.features new.features current.features
        policyVersion := column loaded.policyVersion new.policyVersion current.policyVersion
        decision := column loaded.decision new.decision current.decision }
  | .leads, (loaded : Lead), (new : Lead), (current : Lead) =>
      { current with
        status := column loaded.status new.status current.status
        sourceEventId := column loaded.sourceEventId new.sourceEventId current.sourceEventId
        updatedAt := new.updatedAt }
  | .routes, (loaded : Route), (new : Route), (current : Route) =>
      { current with
        queue := column loaded.queue new.queue current.queue
        ruleMatched := column loaded.ruleMatched new.ruleMatched current.ruleMatched
        slaDeadline := column loaded.slaDeadline new.slaDeadline current.slaDeadline
        escalated := column loaded.escalated new.escalated current.escalated }
  | .attributionTouches, (loaded : AttributionTouch), (new : AttributionTouch),
      (current : AttributionTouch) =>
      { current with
        firstTouchEventId := column loaded.firstTouchEventId new.firstTouchEventId
          current.firstTouchEventId
        firstTouchAt := column loaded.firstTouchAt new.firstTouchAt current.firstTouchAt
        firstTouchSource := column loaded.firstTouchSource new.firstTouchSource
          current.firstTouchSource
        firstTouchCampaignId := column loaded.firstTouchCampaignId new.firstTouchCampaignId
          current.firstTouchCampaignId
        lastTouchEventId := column loaded.lastTouchEventId new.lastTouchEventId
          current.lastTouchEventId
        lastTouchAt := column loaded.lastTouchAt new.lastTouchAt current.lastTouchAt
        lastTouchSource := column loaded.lastTouchSource new.lastTouchSource current.lastTouchSource
        lastTouchCampaignId := column loaded.lastTouchCampaignId new.lastTouchCampaignId
          current.lastTouchCampaignId
        updatedAt := column loaded.updatedAt new.updatedAt current.updatedAt }
  | .deadLetterQueue, (loaded : DeadLetterQueue), (new : DeadLetterQueue),
      (current : DeadLetterQueue) =>
      { current with resolved := column loaded.resolved new.resolved current.resolved }
  -- the code assigns no column of these
  | .identities, _, _, current => current
  | .receipts, _, _, current => current

/-- The columns an `UPDATE` computes itself (`onupdate`). -/
def stamp : {t : Table} → Row t → Time → Row t
  | .leads, (row : Lead), now => { row with updatedAt := now }
  | .events, row, _ | .identities, row, _ | .identityLinks, row, _ | .manualReviewQueue, row, _
  | .interpretations, row, _ | .scores, row, _ | .routes, row, _ | .attributionTouches, row, _
  | .receipts, row, _ | .deadLetterQueue, row, _ => row

@[simp]
theorem id_stamp {t : Table} (row : Row t) (now : Time) : (row.stamp now).id = row.id := by
  cases t <;> rfl

@[simp]
theorem id_merge {t : Table} (loaded new current : Row t) :
    (merge loaded new current).id = current.id := by
  cases t <;> rfl

end Row

/-- What a write locks and what a unique index holds: the row itself, or the value of an index. -/
inductive Key where
  | row (t : Table) (id : Uuid)
  | eventDedupeKey (dedupeKey : String)
  | identityEmail (email : String)
  | identityPhone (phone : String)
  | linkEvent (eventId : Uuid)
  | reviewEvent (eventId : Uuid)
  | interpretationEvent (eventId : Uuid)
  | scoreEvent (eventId : Uuid)
  | leadIdentity (identityId : Uuid)
  | routeLead (leadId : Uuid)
  | touchIdentity (identityId : Uuid)
  | unresolvedEvent (eventId : Uuid)
deriving BEq, ReflBEq, LawfulBEq

instance : DecidableEq Key := instDecidableEqOfLawfulBEq

/-- The entries of a row in the unique indexes of its table; the partial ones hold only some rows. -/
def Row.indexed : {t : Table} → Row t → List Key
  | .events, row =>
      match Event.isValid row, Event.dedupeKey row with
      | true, some dedupeKey => [.eventDedupeKey dedupeKey]
      | _, _ => []
  | .identities, row =>
      (Identity.primaryEmail row).toList.map .identityEmail ++
        (Identity.primaryPhone row).toList.map .identityPhone
  | .identityLinks, row => [.linkEvent (IdentityLink.eventId row)]
  | .manualReviewQueue, row => [.reviewEvent (ManualReviewQueue.eventId row)]
  | .interpretations, row => [.interpretationEvent (Interpretation.eventId row)]
  | .scores, row => [.scoreEvent (Score.eventId row)]
  | .leads, row => [.leadIdentity (Lead.identityId row)]
  | .routes, row => [.routeLead (Route.leadId row)]
  | .attributionTouches, row => [.touchIdentity (AttributionTouch.identityId row)]
  | .receipts, _ => []
  | .deadLetterQueue, row =>
      if DeadLetterQueue.resolved row then [] else [.unresolvedEvent (DeadLetterQueue.eventId row)]

/-- The primary key and the other unique indexes. -/
def Row.keys {t : Table} (row : Row t) : List Key := .row t row.id :: row.indexed

end DemandSignal
