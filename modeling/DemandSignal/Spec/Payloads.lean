import DemandSignal.Services.Ingest

/-!
# Payloads

What a payload has to say that the schema accepts.
-/

namespace DemandSignal
open Txn

namespace Schemas

variable {app : App} {payload : Json.Fields} {model : EventIn}

theorem checkExternalEventId_ok {id : String} (h : checkExternalEventId payload = .ok id) :
    payload.lookup "external_event_id" = some (.str id) ∧ id ≠ "" := by
  unfold checkExternalEventId at h
  split at h
  · cases h
  · next s hlookup =>
    split at h
    · cases h
    · next hne =>
      cases h
      exact ⟨hlookup, hne⟩
  · cases h

theorem checkEvent_ok {source : String} {identity : Checked IdentityFields}
    (h : checkEvent app payload source identity = .ok model) :
    checkExternalEventId payload = .ok model.externalEventId ∧ model.source = source ∧
      identity = .ok model.identity ∧ checkReceivedAt app payload = .ok model.receivedAt := by
  unfold checkEvent at h
  split at h
  · next hid _ hreceived _ _ =>
    cases h
    exact ⟨hid, rfl, rfl, hreceived⟩
  · cases h

/-- The source of an accepted payload. -/
theorem validate_ok (h : validate app payload = .ok model) :
    payload.lookup "source" = some (.str model.source) ∧
      model.source ∈ ["web_form", "social_mention", "email_engagement"] ∧
      payload.lookup "external_event_id" = some (.str model.externalEventId) ∧
      model.externalEventId ≠ "" := by
  unfold validate at h
  split at h
  · cases h
  · next source hsource =>
    split at h
    · next heq =>
      obtain ⟨hid, hmodel, -⟩ := checkEvent_ok h
      rw [hmodel]
      exact ⟨hsource, by simp [heq], checkExternalEventId_ok hid⟩
    · split at h
      · next heq =>
        obtain ⟨hid, hmodel, -⟩ := checkEvent_ok h
        rw [hmodel]
        exact ⟨hsource, by simp [heq], checkExternalEventId_ok hid⟩
      · split at h
        · next heq =>
          obtain ⟨hid, hmodel, -⟩ := checkEvent_ok h
          rw [hmodel]
          exact ⟨hsource, by simp [heq], checkExternalEventId_ok hid⟩
        · cases h
  · cases h

/-- A check that fails reports an error. -/
def Checked.Reports {α : Type} (checked : Checked α) : Prop := checked ≠ .error []

theorem Checked.Reports.ok {α : Type} {checked : Checked α} (h : checked.Reports)
    (hnil : checked.errors = []) : ∃ value, checked = .ok value := by
  cases checked with
  | ok value => exact ⟨value, rfl⟩
  | error errors => exact absurd (congrArg Except.error hnil) h

theorem reports_checkStr {field : String} {value : Json} : (checkStr field value).Reports := by
  cases value <;> simp [Checked.Reports, checkStr]

theorem reports_checkOptStr {field : String} : (checkOptStr payload field).Reports := by
  unfold checkOptStr
  split
  · simp [Checked.Reports]
  · simp [Checked.Reports]
  · next value _ _ =>
    have hreports : (checkStr field value).Reports := reports_checkStr
    cases hchecked : checkStr field value <;> simp_all [Checked.Reports]

theorem reports_checkEmail {field : String} : (checkEmail app payload field).Reports := by
  unfold checkEmail
  repeat' split
  all_goals simp [Checked.Reports]

theorem reports_checkLiteral {field : String} {expected : List String} :
    (checkLiteral payload field expected).Reports := by
  unfold checkLiteral
  repeat' split
  all_goals simp [Checked.Reports]

/-- The fields that every source shares. -/
theorem reports_common : (checkExternalEventId payload).Reports ∧
    (checkSchemaVersion payload).Reports ∧ (checkReceivedAt app payload).Reports ∧
    (checkConsent app payload).Reports := by
  refine ⟨?_, ?_, ?_, ?_⟩
  · unfold checkExternalEventId
    repeat' split
    all_goals simp [Checked.Reports]
  · unfold checkSchemaVersion
    split
    · simp [Checked.Reports]
    · exact reports_checkStr
  · unfold checkReceivedAt
    repeat' split
    all_goals simp [Checked.Reports]
  · unfold checkConsent
    repeat' split
    all_goals simp [Checked.Reports]

theorem reports_checkEvent {source : String} {identity : Checked IdentityFields}
    (hidentity : identity.Reports) : (checkEvent app payload source identity).Reports := by
  obtain ⟨hid, hschema, hreceived, hconsent⟩ := @reports_common app payload
  unfold checkEvent
  split
  · simp [Checked.Reports]
  · next hfails =>
    intro hnil
    simp only [Except.error.injEq, List.append_eq_nil_iff] at hnil
    obtain ⟨⟨⟨⟨⟨hnilId, hnilSchema⟩, hnilReceived⟩, hnilConsent⟩, hnilCampaign⟩, hnilIdentity⟩ := hnil
    obtain ⟨_, hid⟩ := hid.ok hnilId
    obtain ⟨_, hschema⟩ := hschema.ok hnilSchema
    obtain ⟨_, hreceived⟩ := hreceived.ok hnilReceived
    obtain ⟨_, hconsent⟩ := hconsent.ok hnilConsent
    obtain ⟨_, hcampaign⟩ := reports_checkOptStr.ok hnilCampaign
    obtain ⟨_, hidentity⟩ := hidentity.ok hnilIdentity
    exact hfails _ _ _ _ _ _ hid hschema hreceived hconsent hcampaign hidentity

theorem reports_checkWebForm : (checkWebForm app payload).Reports := by
  unfold checkWebForm
  split
  · simp [Checked.Reports]
  · next hfails =>
    intro hnil
    simp only [Except.error.injEq, List.append_eq_nil_iff] at hnil
    obtain ⟨⟨⟨⟨hnilName, hnilEmail⟩, hnilPhone⟩, hnilCompany⟩, hnilMessage⟩ := hnil
    obtain ⟨_, hname⟩ := reports_checkOptStr.ok hnilName
    obtain ⟨_, hemail⟩ := reports_checkEmail.ok hnilEmail
    obtain ⟨_, hphone⟩ := reports_checkOptStr.ok hnilPhone
    obtain ⟨_, hcompany⟩ := reports_checkOptStr.ok hnilCompany
    obtain ⟨_, hmessage⟩ := reports_checkOptStr.ok hnilMessage
    exact hfails _ _ _ _ _ hname hemail hphone hcompany hmessage

theorem reports_checkSocialMention : (checkSocialMention payload).Reports := by
  unfold checkSocialMention
  split
  · simp [Checked.Reports]
  · next hfails =>
    intro hnil
    simp only [Except.error.injEq, List.append_eq_nil_iff] at hnil
    obtain ⟨⟨⟨hnilName, hnilHandle⟩, hnilText⟩, hnilTopic⟩ := hnil
    obtain ⟨_, hname⟩ := reports_checkOptStr.ok hnilName
    obtain ⟨_, hhandle⟩ := reports_checkOptStr.ok hnilHandle
    obtain ⟨_, htext⟩ := reports_checkOptStr.ok hnilText
    obtain ⟨_, htopic⟩ := reports_checkOptStr.ok hnilTopic
    exact hfails _ _ _ _ hname hhandle htext htopic

theorem reports_checkEmailEngagement : (checkEmailEngagement app payload).Reports := by
  unfold checkEmailEngagement
  split
  · simp [Checked.Reports]
  · next hfails =>
    intro hnil
    simp only [Except.error.injEq, List.append_eq_nil_iff] at hnil
    obtain ⟨⟨⟨hnilName, hnilEmail⟩, hnilType⟩, hnilReply⟩ := hnil
    obtain ⟨_, hname⟩ := reports_checkOptStr.ok hnilName
    obtain ⟨_, hemail⟩ := reports_checkEmail.ok hnilEmail
    obtain ⟨_, htype⟩ := reports_checkLiteral.ok hnilType
    obtain ⟨_, hreply⟩ := reports_checkOptStr.ok hnilReply
    exact hfails _ _ _ _ hname hemail htype hreply

/-- A payload that is refused has an error. -/
theorem validate_error_ne_nil {errors : List FieldError} (h : validate app payload = .error errors) :
    errors ≠ [] := by
  have hreports : (validate app payload).Reports := by
    unfold validate
    split
    · simp [Checked.Reports]
    · split
      · exact reports_checkEvent reports_checkWebForm
      · split
        · exact reports_checkEvent reports_checkSocialMention
        · split
          · exact reports_checkEvent reports_checkEmailEngagement
          · simp [Checked.Reports]
    · simp [Checked.Reports]
  rintro rfl
  exact hreports h

end Schemas

/-- An accepted pair has a key. -/
theorem Ingest.computeDedupeKey_isSome {app : App} {payload : Json.Fields} {model : EventIn}
    (h : Schemas.validate app payload = .ok model) :
    ∃ key, computeDedupeKey app (.str model.source) (.str model.externalEventId) = some key := by
  obtain ⟨-, hsource, -, hid⟩ := Schemas.validate_ok h
  have hne : model.source ≠ "" := by
    intro heq
    rw [heq] at hsource
    simp at hsource
  simp [computeDedupeKey, Json.truthy, hne, hid]

end DemandSignal
