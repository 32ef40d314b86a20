import DemandSignal.Schemas

/-!
# Receipts and ingest

`app/services/receipts.py` and `app/services/ingest.py`: hashing, dedupe and edit detection.
-/

namespace DemandSignal

open Txn Program

/-- The row of a receipt. -/
def receipt (actionType : ActionType) (entityId : Uuid) (entityType : EntityType) (metadata : Meta)
    (eventId : Option Uuid := none) (identityId : Option Uuid := none)
    (status : ReceiptStatus := .ok) (id : Uuid) (now : Time) : Receipt :=
  { id, actionType, entityId, entityType, eventId, identityId, metadata, status, createdAt := now }

def writeReceipt (actionType : ActionType) (entityId : Uuid) (entityType : EntityType)
    (metadata : Meta) (eventId : Option Uuid := none) (identityId : Option Uuid := none)
    (status : ReceiptStatus := .ok) : Prog Receipt :=
  insert .receipts .integrityError
    (receipt actionType entityId entityType metadata eventId identityId status)

namespace Ingest

variable (app : App)

def canonicalJson (obj : Json) : String := String.ofList (Json.dumps (Json.sortKeys obj))

def computePayloadHash (payload : Json.Fields) : String := app.sha256 (canonicalJson (.obj payload))

/-- A rejected payload may carry any values here. -/
def computeDedupeKey (source externalEventId : Json) : Option String :=
  if source.truthy && externalEventId.truthy then
    some (app.sha256
      (Python.concat [source.pyStr app.container, "|", externalEventId.pyStr app.container]))
  else none

/-- The timestamp of a rejected payload: `none` for a value the column does not take. -/
def rejectedReceivedAt (payload : Json.Fields) : Prog (Option Time) :=
  match Json.get payload "received_at" with
  | .null => return some (← utcNow)
  | .str s =>
      match app.fromisoformat (Python.replaceZ s) with
      | some t => return some t
      | none => return some (← utcNow)
  | _ => return none

/-- `value or default` for a text column, which takes no other value. -/
def textOr (value : Json) (default : String) : Option String :=
  if value.truthy then value.text? else some default

def optText : Json → Option (Option String)
  | .null => some none
  | value => value.text?.map some

/-- `str(payload.get("schema_version", "1.0"))` -/
def schemaVersionText (payload : Json.Fields) : String :=
  match payload.lookup "schema_version" with
  | some value => value.pyStr app.container
  | none => "1.0"

/-- The row of a rejected payload; `none` when the database does not take one of its values. -/
def rejectedEvent (payload : Json.Fields) (invalidReason : String) (receivedAt : Time) :
    Option (Uuid → Time → Event) :=
  let source := Json.get payload "source"
  let externalEventId := Json.get payload "external_event_id"
  let schemaVersion := schemaVersionText app payload
  match textOr externalEventId "", textOr source "unknown",
    optText (Json.get payload "campaign_id") with
  | some externalEventIdText, some sourceText, some campaignId =>
      if Json.storableFields payload && Python.storable schemaVersion &&
          Python.storable invalidReason then
        some fun id now =>
          { id, externalEventId := externalEventIdText, source := sourceText
            dedupeKey := computeDedupeKey app source externalEventId
            payloadHash := computePayloadHash app payload, isValid := false
            invalidReason := some invalidReason, schemaVersion, campaignId, identityFields := none
            rawPayload := payload, consent := (Json.get payload "consent").truthy, receivedAt
            createdAt := now }
      else none
  | _, _, _ => none

def persistInvalidEvent (payload : Json.Fields) (invalidReason : String) : Prog Event := do
  let receivedAt ← rejectedReceivedAt app payload
  match receivedAt.bind (rejectedEvent app payload invalidReason) with
  | none => .raise .dataError
  | some row =>
      let event ← insert .events .integrityError row
      let _ ← writeReceipt .eventRejected event.id .event (.eventRejected invalidReason)
        (some event.id) none .error
      commitNow
      refresh .events .invalidRequest event

/-- Only the accepted event with the key is found. -/
def findEventByDedupeKey (dedupeKey : String) : Prog (Option Event) :=
  find .events fun event => event.dedupeKey = some dedupeKey && event.isValid

/-- The lookup of a key that may be missing. -/
def findExisting (dedupeKey : Option String) : Prog (Option Event) :=
  match dedupeKey with
  | some dedupeKey => findEventByDedupeKey dedupeKey
  | none => .ret none

inductive IngestStatus where
  | created
  | duplicate
  | edit
deriving DecidableEq

/-- The database takes the strings of the payload. -/
def acceptable (model : EventIn) (payload : Json.Fields) : Bool :=
  Json.storableFields payload && model.identity.storable

/-- The row of an edit: every column of the event but its source, its id and its key. -/
def edited (existing : Event) (model : EventIn) (payload : Json.Fields) : Event :=
  { existing with
    isEdit := true
    payloadHash := computePayloadHash app payload
    rawPayload := payload
    identityFields := some model.identity
    schemaVersion := model.schemaVersion
    campaignId := model.campaignId
    consent := model.consent
    receivedAt := model.receivedAt }

/-- The row of a new event. -/
def created (model : EventIn) (payload : Json.Fields) (dedupeKey : Option String) (id : Uuid)
    (now : Time) : Event :=
  { id, externalEventId := model.externalEventId, source := model.source, dedupeKey
    payloadHash := computePayloadHash app payload, isValid := true
    schemaVersion := model.schemaVersion, campaignId := model.campaignId
    identityFields := some model.identity, rawPayload := payload, consent := model.consent
    receivedAt := model.receivedAt, createdAt := now }

def createEvent (model : EventIn) (payload : Json.Fields) : Prog (Event × IngestStatus) := do
  let dedupeKey := computeDedupeKey app (.str model.source) (.str model.externalEventId)
  let payloadHash := computePayloadHash app payload
  match ← findExisting dedupeKey with
  | some existing =>
      if existing.payloadHash = payloadHash then .ret (existing, .duplicate)
      else if acceptable model payload then do
        save .events .integrityError existing (edited app existing model payload)
        let _ ← writeReceipt .eventEdited existing.id .event
          (.eventEdited existing.source existing.payloadHash payloadHash) (some existing.id)
        commitNow
        return (← refresh .events .invalidRequest existing, .edit)
      else .raise .dataError
  | none =>
      if acceptable model payload then do
        match ← tryInsert .events (created app model payload dedupeKey) with
        | some event =>
            let _ ← writeReceipt .eventCreated event.id .event
              (.eventCreated event.source event.schemaVersion) (some event.id)
            commitNow
            return (← refresh .events .invalidRequest event, .created)
        | none =>
            -- lost a concurrent insert race
            rollbackNow
            match ← findExisting dedupeKey with
            | some committed => return (committed, .duplicate)
            | none => .raise .integrityError
      else .raise .dataError

end Ingest

end DemandSignal
