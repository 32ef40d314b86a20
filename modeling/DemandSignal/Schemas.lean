import DemandSignal.Config

/-!
# Event schemas

`app/schemas/events.py`: the three source shapes behind one discriminated union. Validation reports
every failing field in the order of the fields.
-/

namespace DemandSignal

open Txn

/-- The database takes the fields. -/
def IdentityFields.storable (fields : IdentityFields) : Bool :=
  [fields.email, fields.phone, fields.name, fields.displayName, fields.handle,
    fields.company].all fun field => field.all Python.storable

/-- A validated payload. The free text is validated too but read from the payload later. -/
structure EventIn where
  externalEventId : String
  schemaVersion : String
  receivedAt : Time
  consent : Bool
  campaignId : Option String
  source : String
  identity : IdentityFields

namespace Schemas

abbrev Checked (α : Type) := Except (List FieldError) α

def Checked.errors {α : Type} : Checked α → List FieldError
  | .ok _ => []
  | .error e => e

variable (app : App) (payload : Json.Fields)

/-- `str` -/
def checkStr (field : String) : Json → Checked String
  | .str s => .ok s
  | _ => .error [.stringType field]

/-- `str | None = None` -/
def checkOptStr (field : String) : Checked (Option String) :=
  match payload.lookup field with
  | none => .ok none
  | some .null => .ok none
  | some value => some <$> checkStr field value

/-- `EmailStr | None = None` -/
def checkEmail (field : String) : Checked (Option String) :=
  match payload.lookup field with
  | none => .ok none
  | some .null => .ok none
  | some (.str s) =>
      match app.emailStr s with
      | some email => .ok (some email)
      | none => .error [.email field (.str s)]
  | some _ => .error [.stringType field]

/-- `Literal[...] | None = None` -/
def checkLiteral (field : String) (expected : List String) : Checked Unit :=
  match payload.lookup field with
  | none => .ok ()
  | some .null => .ok ()
  | some (.str s) => if s ∈ expected then .ok () else .error [.literal field expected]
  | some _ => .error [.literal field expected]

def checkExternalEventId : Checked String :=
  match payload.lookup "external_event_id" with
  | none => .error [.missing "external_event_id"]
  | some (.str s) => if s = "" then .error [.stringTooShort "external_event_id"] else .ok s
  | some _ => .error [.stringType "external_event_id"]

def checkSchemaVersion : Checked String :=
  match payload.lookup "schema_version" with
  | none => .ok "1.0"
  | some value => checkStr "schema_version" value

def checkReceivedAt : Checked Time :=
  match payload.lookup "received_at" with
  | none => .error [.missing "received_at"]
  | some value =>
      match app.datetime value with
      | some t => .ok t
      | none => .error [.datetime "received_at" value]

def checkConsent : Checked Bool :=
  match payload.lookup "consent" with
  | none => .ok false
  | some value =>
      match app.boolean value with
      | some b => .ok b
      | none => .error [.boolean "consent" value]

/-- The fields of `EventCommon`, then those of the source. -/
def checkEvent (source : String) (identity : Checked IdentityFields) : Checked EventIn :=
  match checkExternalEventId payload, checkSchemaVersion payload, checkReceivedAt app payload,
    checkConsent app payload, checkOptStr payload "campaign_id", identity with
  | .ok externalEventId, .ok schemaVersion, .ok receivedAt, .ok consent, .ok campaignId,
    .ok identity =>
      .ok { externalEventId, schemaVersion, receivedAt, consent, campaignId, source, identity }
  | externalEventId, schemaVersion, receivedAt, consent, campaignId, identity =>
      .error (externalEventId.errors ++ schemaVersion.errors ++ receivedAt.errors ++
        consent.errors ++ campaignId.errors ++ identity.errors)

/-- The fields of `WebFormEvent`. -/
def checkWebForm : Checked IdentityFields :=
  match checkOptStr payload "name", checkEmail app payload "email", checkOptStr payload "phone",
    checkOptStr payload "company", checkOptStr payload "message" with
  | .ok name, .ok email, .ok phone, .ok company, .ok _ => .ok { name, email, phone, company }
  | name, email, phone, company, message =>
      .error (name.errors ++ email.errors ++ phone.errors ++ company.errors ++ message.errors)

/-- The fields of `SocialMentionEvent`. -/
def checkSocialMention : Checked IdentityFields :=
  match checkOptStr payload "display_name", checkOptStr payload "handle",
    checkOptStr payload "text", checkOptStr payload "topic" with
  | .ok displayName, .ok handle, .ok _, .ok _ => .ok { displayName, handle }
  | displayName, handle, text, topic =>
      .error (displayName.errors ++ handle.errors ++ text.errors ++ topic.errors)

/-- The fields of `EmailEngagementEvent`. -/
def checkEmailEngagement : Checked IdentityFields :=
  match checkOptStr payload "name", checkEmail app payload "email",
    checkLiteral payload "engagement_type" ["open", "click", "reply", "unsubscribe"],
    checkOptStr payload "reply_body" with
  | .ok name, .ok email, .ok _, .ok _ => .ok { name, email }
  | name, email, engagementType, replyBody =>
      .error (name.errors ++ email.errors ++ engagementType.errors ++ replyBody.errors)

/-- `event_adapter.validate_python(payload)` -/
def validate : Checked EventIn :=
  match payload.lookup "source" with
  | none => .error [.unionTagNotFound]
  | some (.str source) =>
      if source = "web_form" then checkEvent app payload source (checkWebForm app payload)
      else if source = "social_mention" then checkEvent app payload source (checkSocialMention payload)
      else if source = "email_engagement" then
        checkEvent app payload source (checkEmailEngagement app payload)
      else .error [.unionTagInvalid (.str source)]
  | some tag => .error [.unionTagInvalid tag]

end Schemas

end DemandSignal
