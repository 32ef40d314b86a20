import DemandSignal.Services.Ingest

/-!
# Interpretation

`app/services/interpret.py`: the free text of an event, the bounded retries around the provider, the
parsed classification, and the dead letter an exhausted call leaves behind.
-/

namespace DemandSignal

open Txn Program

namespace Interpret

variable (app : App)

def promptVersion : String := "interpret_v1"

/-- `a or b` on JSON values. -/
def orElse (a b : Json) : Json := if a.truthy then a else b

/-- The field an event's text is read from. Keys the schema does not declare are read too. -/
def body (source : String) (payload : Json.Fields) : Json :=
  if source = "web_form" then orElse (Json.get payload "message") (Json.get payload "body")
  else if source = "social_mention" then orElse (Json.get payload "text") (Json.get payload "body")
  else if source = "email_engagement" then Json.get payload "reply_body"
  else .null

/-- `(body or "").strip()`; `none` when the body is a value without `strip`. -/
def extractText (event : Event) : Option String :=
  let value := body event.source event.rawPayload
  if value.truthy then value.text?.map Python.strip else some ""

def countTokens (text : String) : Nat := (Python.split text).length

/-! ### The provider -/

/-- The position of the last `c`, counted from the front. -/
def lastIndex (c : Char) (cs : List Char) : Option Nat :=
  (cs.reverse.findIdx? (· = c)).map fun n => cs.length - 1 - n

/-- The classifier's JSON object; an error message when there is none. -/
def parseClassification (content : String) : Except String Json.Fields :=
  let nonJson := Python.concat
    ["classifier returned non-JSON response: ", app.repr (Python.take 200 content)]
  if content = "" then .error "classifier returned empty content"
  else
    match content.toList.findIdx? (· = '\x7b'), lastIndex '\x7d' content.toList with
    | some start, some stop =>
        if stop ≤ start then .error nonJson
        else
          match Json.loads app.number ((content.toList.take (stop + 1)).drop start) with
          | some (.obj fields) => .ok fields
          | _ => .error nonJson
    | _, _ => .error nonJson

/-- A failed call: whether it is transient, and its message. -/
structure CallError where
  retryable : Bool
  message : String

/-- What one call yields. Every unparsable completion is worth a retry. -/
def callResult : Reply → Except CallError (Json.Fields × Option Usage)
  | .failed retryable message => .error ⟨retryable, message⟩
  | .completion content usage =>
      match parseClassification app content with
      | .ok fields => .ok (fields, usage)
      | .error message => .error ⟨true, message⟩

/-- The calls of one classification: `further` retries after this one. The count is that of the
attempts made. -/
def callLlm (text : String) : Nat → Nat → Prog (Except (String × Nat) (Json.Fields × Option Usage))
  | further, attempts => do
      match callResult app (← call ⟨text⟩) with
      | .ok result => return .ok result
      | .error error =>
          if error.retryable then
            match further with
            | 0 => return .error (error.message, attempts + 1)
            | further + 1 => callLlm text further (attempts + 1)
          else return .error (error.message, attempts + 1)

/-! ### Reading a classification -/

def str (result : Json.Fields) (key default : String) : String :=
  match result.lookup key with
  | some value => value.pyStr app.container
  | none => default

def label (result : Json.Fields) : String := str app result "label" "unknown"

def confidence (result : Json.Fields) : Decimal :=
  (Decimal.quantize app.digit (str app result "confidence" "0")).getD (.hundredths 0)

def reason (result : Json.Fields) : String := Python.take 500 (str app result "reason" "")

/-! ### Persisting -/

/-- The columns a classification fills. -/
structure Classified where
  label : String
  confidence : Decimal
  reason : String
  modelVersion : String
  promptVersion : String
  wasSkipped : Bool
  tokenUsage : Option Usage

def Classified.storable (fields : Classified) : Bool :=
  Python.storable fields.label && Python.storable fields.reason && fields.confidence.fits

/-- The row of a classification that is not made by the provider. -/
def skipped (tokens : Nat) : Classified where
  label := "unknown"
  confidence := .hundredths 0
  reason := Python.concat
    ["insufficient_text:", Nat.repr tokens, "<", Nat.repr app.interpretMinTokens]
  modelVersion := "none"
  promptVersion := "none"
  wasSkipped := true
  tokenUsage := none

/-- The row of a classification by the provider. -/
def classified (result : Json.Fields × Option Usage) : Classified where
  label := label app result.1
  confidence := confidence app result.1
  reason := reason app result.1
  modelVersion := app.classificationModel
  promptVersion := promptVersion
  wasSkipped := false
  tokenUsage := result.2

def upsertInterpretation (eventId : Uuid) (fields : Classified) : Prog Interpretation := do
  match ← find .interpretations fun interpretation => interpretation.eventId = eventId with
  | some existing => do
      let updated : Interpretation :=
        { existing with
          label := fields.label
          confidence := fields.confidence
          reason := fields.reason
          modelVersion := fields.modelVersion
          promptVersion := fields.promptVersion
          wasSkipped := fields.wasSkipped
          tokenUsage := fields.tokenUsage }
      save .interpretations .integrityError existing updated
      return updated
  | none =>
      insert .interpretations .integrityError fun id now =>
        { id, eventId, label := fields.label, confidence := fields.confidence
          reason := fields.reason, modelVersion := fields.modelVersion
          promptVersion := fields.promptVersion, wasSkipped := fields.wasSkipped
          tokenUsage := fields.tokenUsage, createdAt := now }

/-- The interpretation and its receipt, in one transaction. -/
def persist (eventId : Uuid) (fields : Classified) : Prog Interpretation := do
  if fields.storable then do
    let interpretation ← upsertInterpretation eventId fields
    let _ ← writeReceipt .interpreted interpretation.id .interpretation
      (.interpreted interpretation.label interpretation.confidence interpretation.wasSkipped
        interpretation.promptVersion) (some eventId)
    commitNow
    return interpretation
  else .raise .dataError

/-- The dead letter of an exhausted call. An event keeps one unresolved entry. -/
def deadLetter (eventId : Uuid) (message : String) (retryCount : Nat) : Prog Unit := do
  let sanitized := Python.take 500 message
  if Python.storable sanitized then do
    match ← tryInsert .deadLetterQueue fun id now =>
        { id, eventId, stage := "interpret", error := sanitized, retryCount, createdAt := now } with
    | some dlq =>
        let _ ← writeReceipt .deadLettered dlq.id .deadLetter
          (.deadLettered "interpret" retryCount false) (some eventId) none .error
        commitNow
    | none => rollbackNow
  else .raise .dataError

/-- `none` stands for the `InterpretError` of an exhausted call, whose dead letter is written. -/
def classifyEvent (event : Event) : Prog (Option Interpretation) := do
  match extractText event with
  | none => .raise .attributeError
  | some text =>
      let tokens := countTokens text
      if tokens < app.interpretMinTokens then
        return some (← persist event.id (skipped app tokens))
      else
        match ← callLlm app text (app.retryMaxAttempts - 1) 0 with
        | .error (message, attempts) => do
            deadLetter event.id message attempts
            return none
        | .ok result => return some (← persist event.id (classified app result))

end Interpret

end DemandSignal
