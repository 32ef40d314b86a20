import DemandSignal.Spec.Payloads
import DemandSignal.Spec.Worklist

/-!
# Bodies

What a `POST` of a JSON object leaves: an accepted payload, or the record of a rejected one.
-/

namespace DemandSignal

open Txn

variable {app : App} {L L' : Ledger Db Write} {heard : List Reply} {payload : Json.Fields}

/-- What the columns of a rejected payload take as it is: text, or nothing. -/
structure Ingest.Recordable (app : App) (payload : Json.Fields) (reason : String) : Prop where
  source : (Json.get payload "source").truthy = true → ∃ s, Json.get payload "source" = .str s
  externalEventId : (Json.get payload "external_event_id").truthy = true →
    ∃ s, Json.get payload "external_event_id" = .str s
  campaignId : Json.get payload "campaign_id" = .null ∨ ∃ s, Json.get payload "campaign_id" = .str s
  receivedAt : Json.get payload "received_at" = .null ∨ ∃ s, Json.get payload "received_at" = .str s
  rawPayload : Json.storableFields payload = true
  schemaVersion : Python.storable (schemaVersionText app payload) = true
  invalidReason : Python.storable reason = true

/-- The body can be stored: as an accepted payload, as the version that is stored already, or as the
record of a rejected one. -/
inductive Fits (app : App) (db : Db) (payload : Json.Fields) : Prop
  | accepted {model} (hvalid : Schemas.validate app payload = .ok model)
      (haccept : Ingest.acceptable model payload = true)
  | repeated {model event} (hvalid : Schemas.validate app payload = .ok model)
      (hevent : event ∈ db .events) (hholds : Ingest.Holds app model event)
      (hhash : event.payloadHash = Ingest.computePayloadHash app payload)
  | rejected {errors} (hinvalid : Schemas.validate app payload = .error errors)
      (hrecordable : Ingest.Recordable app payload (Events.invalidReason app errors))

/-- The accepted path: nothing for a version that is stored already, else the transaction of a new event
or a new version comes first. -/
inductive TakenIn (app : App) (payload : Json.Fields) (L L' : Ledger Db Write) : Prop
  | duplicate {model event} (hvalid : Schemas.validate app payload = .ok model)
      (hevent : event ∈ L.db .events) (hholds : Ingest.Holds app model event)
      (hhash : event.payloadHash = Ingest.computePayloadHash app payload) (hsame : L' = L)
  | accepted {model event status L₁} (hvalid : Schemas.validate app payload = .ok model)
      (haccepted : Accepted app L model payload event status L₁) (hextends : Extends L₁ L')

/-- One invalid event with the payload and a reason, and one receipt. -/
def Recorded (payload : Json.Fields) (L L' : Ledger Db Write) : Prop :=
  ∃ (event : Event) (reason : String) (rid : Uuid) (now : Time), reason ≠ "" ∧
    event.isValid = false ∧ event.invalidReason = some reason ∧ event.rawPayload = payload ∧
    L'.db .events = L.db .events ++ [event] ∧
    L'.db .receipts = L.db .receipts ++ [receipt .eventRejected event.id .event
      (.eventRejected reason) (some event.id) none .error rid now]

/-! ### The record of a rejected payload -/

theorem Ingest.textOr_isSome {value : Json} {default : String} :
    (textOr value default).isSome = true ↔ (value.truthy = true → ∃ s, value = .str s) := by
  unfold textOr
  by_cases htruthy : value.truthy = true
  · rw [if_pos htruthy]
    cases value <;> simp_all [Json.text?]
  · rw [if_neg htruthy]
    simp [htruthy]

theorem Ingest.optText_isSome {value : Json} :
    (optText value).isSome = true ↔ value = .null ∨ ∃ s, value = .str s := by
  cases value <;> simp [optText, Json.text?]

theorem Ingest.rejectedEvent_isSome_iff {reason : String} {receivedAt : Time} :
    (rejectedEvent app payload reason receivedAt).isSome = true ↔
      (textOr (Json.get payload "external_event_id") "").isSome = true ∧
      (textOr (Json.get payload "source") "unknown").isSome = true ∧
      (optText (Json.get payload "campaign_id")).isSome = true ∧
      Json.storableFields payload = true ∧ Python.storable (schemaVersionText app payload) = true ∧
      Python.storable reason = true := by
  simp only [rejectedEvent]
  cases textOr (Json.get payload "external_event_id") "" with
  | none => simp
  | some externalEventId =>
      cases textOr (Json.get payload "source") "unknown" with
      | none => simp
      | some source =>
          cases optText (Json.get payload "campaign_id") with
          | none => simp
          | some campaignId => split <;> simp_all [and_assoc]

theorem Ingest.recordable_iff {reason : String} :
    recordable app payload reason = true ↔ Recordable app payload reason := by
  unfold recordable
  rw [Bool.and_eq_true, rejectedEvent_isSome_iff, textOr_isSome, textOr_isSome, optText_isSome]
  refine (and_congr_left' (b := Json.get payload "received_at" = .null ∨
    ∃ s, Json.get payload "received_at" = .str s) ?_).trans ?_
  · cases Json.get payload "received_at" <;> simp
  constructor
  · rintro ⟨hreceivedAt, hid, hsource, hcampaign, hpayload, hschema, hreason⟩
    exact ⟨hsource, hid, hcampaign, hreceivedAt, hpayload, hschema, hreason⟩
  · rintro ⟨hsource, hid, hcampaign, hreceivedAt, hpayload, hschema, hreason⟩
    exact ⟨hreceivedAt, hid, hsource, hcampaign, hpayload, hschema, hreason⟩

/-- The reason of a rejection says something, as its messages do. -/
theorem Events.invalidReason_ne_empty {errors : List FieldError}
    (hmessages : ∀ error, app.message error ≠ "") (herrors : errors ≠ []) :
    invalidReason app errors ≠ "" := by
  obtain ⟨error, rest, rfl⟩ := List.exists_cons_of_ne_nil herrors
  have hne : (app.message error).toList ≠ [] :=
    fun hnil => hmessages error (String.toList_eq_nil_iff.mp hnil)
  intro hempty
  have hlist := congrArg String.toList hempty
  cases rest with
  | nil =>
      rw [invalidReason, List.map_cons, List.map_nil, String.intercalate_singleton] at hlist
      exact hne hlist
  | cons next rest =>
      rw [invalidReason, List.map_cons, List.map_cons, String.intercalate_cons_cons] at hlist
      simp [hne] at hlist

/-! ### A request leaves one of the two -/

theorem Identified.extends {event : Event} {identityId : Uuid}
    (h : Identified app L event identityId L') : Extends L L' := by
  cases h with
  | found => exact .refl
  | linked => exact .commit _ _

theorem Piped.extends {event : Event} {identityId : Uuid}
    {r : Except Error (Option Pipeline.Outcome)} (h : Piped app L event identityId heard r L') :
    Extends L L' := by
  cases h with
  | acted => exact ((Extends.commit _ _).trans (Extends.commit _ _)).trans (Extends.commit _ _)
  | dead => exact .commit _ _
  | alreadyDead => exact .refl
  | noText => exact .refl
  | unstorable => exact .refl
  | badMessage => exact .refl
  | noScore => exact .commit _ _

/-- A pair holds one version. -/
theorem Ingest.Differs.ne {model : EventIn} {event : Event} {db : Db}
    (h : Differs app model payload db) (hvalid : Schemas.validate app payload = .ok model)
    (hdistinct : db.Distinct) (hevent : event ∈ db .events) (hholds : Holds app model event) :
    event.payloadHash ≠ computePayloadHash app payload := by
  obtain ⟨key, hkey⟩ := computeDedupeKey_isSome hvalid
  have hindexed := indexed_of_holds hkey hholds
  rcases h with hfree | ⟨other, hother, hotherHolds, hne⟩
  · have hnone := hfree key hkey
    rw [Db.holds_eq_false] at hnone
    exact absurd (List.mem_cons_of_mem _ hindexed) (hnone event hevent)
  · rwa [hdistinct.eq_of_indexed (t := .events) hevent hother hindexed
      (indexed_of_holds hkey hotherHolds)]

/-- A payload that the schema accepts is taken in, unless the database does not take it. -/
theorem Posted.takenIn {model : EventIn} {r : Except Error Events.Answer}
    (h : Posted app L heard model payload r L') (hvalid : Schemas.validate app payload = .ok model) :
    TakenIn app payload L L' ∨
      Ingest.acceptable model payload = false ∧ Ingest.Differs app model payload L.db := by
  cases h with
  | duplicate hevent hholds hhash => exact .inl (.duplicate hvalid hevent hholds hhash rfl)
  | unacceptable hdata _ hdiffers => exact .inr ⟨hdata, hdiffers⟩
  | parked haccepted => exact .inl (.accepted hvalid haccepted (.commit _ _))
  | piped haccepted hidentified hpiped =>
      exact .inl (.accepted hvalid haccepted (hidentified.extends.trans hpiped.extends))

theorem Posted.fits {model : EventIn} {r : Except Error Events.Answer}
    (h : Posted app L heard model payload r L') (hvalid : Schemas.validate app payload = .ok model)
    (hdistinct : L.db.Distinct) (hfits : Fits app L.db payload) : TakenIn app payload L L' := by
  refine (h.takenIn hvalid).resolve_right fun ⟨hdata, hdiffers⟩ => ?_
  cases hfits with
  | accepted hvalid' haccept =>
      rw [hvalid] at hvalid'
      cases hvalid'
      rw [hdata] at haccept
      cases haccept
  | repeated hvalid' hevent hholds hhash =>
      rw [hvalid] at hvalid'
      cases hvalid'
      exact hdiffers.ne hvalid hdistinct hevent hholds hhash
  | rejected hinvalid =>
      rw [hvalid] at hinvalid
      cases hinvalid

theorem TakenIn.fits (h : TakenIn app payload L L') (hdistinct : L.db.Distinct) :
    Fits app L.db payload := by
  cases h with
  | duplicate hvalid hevent hholds hhash => exact .repeated hvalid hevent hholds hhash
  | accepted hvalid haccepted =>
      refine .accepted hvalid ?_
      cases haccepted.row hdistinct with
      | created haccept => exact haccept
      | edited hexisting hedits => exact hedits.acceptable

theorem not_recorded_of_same (hevents : L'.db .events = L.db .events) : ¬ Recorded payload L L' := by
  rintro ⟨event, reason, rid, now, -, -, -, -, hadded, -⟩
  have hlength := congrArg List.length (hevents.symm.trans hadded)
  simp at hlength

/-- An accepted payload adds no invalid event. -/
theorem Accepted.not_recorded {model : EventIn} {accepted : Event} {status : Ingest.IngestStatus}
    {L₁ : Ledger Db Write} (h : Accepted app L model payload accepted status L₁)
    (hevents : L'.db .events = L₁.db .events) (hhistory : History app still L) :
    ¬ Recorded payload L L' := by
  rintro ⟨event, reason, rid, now, -, hinvalid, -, -, hadded, -⟩
  rw [hevents] at hadded
  obtain ⟨hcarries, hsets⟩ := h.sets hhistory.distinct
  have hids := (h.history hhistory).distinct.nodup_ids .events
  have hmem : event ∈ L₁.db .events := by
    rw [hadded]
    exact List.mem_append_right _ (List.mem_singleton_self _)
  obtain rfl | ⟨hold, -⟩ := (hsets event).mp hmem
  · rw [hcarries.isValid] at hinvalid
    cases hinvalid
  · rw [hadded, List.map_append, List.nodup_append] at hids
    exact hids.2.2 _ (List.mem_map_of_mem hold) _ (List.mem_map_of_mem (List.mem_singleton_self _)) rfl

theorem Posted.not_recorded {model : EventIn} {r : Except Error Events.Answer}
    (h : Posted app L heard model payload r L') (hhistory : History app still L) :
    ¬ Recorded payload L L' := by
  cases h with
  | duplicate => exact not_recorded_of_same rfl
  | unacceptable => exact not_recorded_of_same rfl
  | parked haccepted hparks =>
      exact haccepted.not_recorded (commit_of_untouched (hparks.tables.ne (by decide))) hhistory
  | piped haccepted hidentified hpiped =>
      exact haccepted.not_recorded (hpiped.events.trans hidentified.events) hhistory

theorem Ingest.Refuses.recorded {reason : String} {ws : List Write}
    (h : Ingest.Refuses app payload reason ws) (hreason : reason ≠ "") :
    Recorded payload L (L.commit ws) := by
  obtain ⟨receivedAt, row, id, now, rid, hrow, hevents, hreceipts⟩ := h.rows (L := L)
  obtain ⟨hid, hvalid, -⟩ := rejectedEvent_spec hrow id now
  obtain ⟨hpayload, hwhy⟩ := rawPayload_rejectedEvent hrow id now
  refine ⟨row id now, reason, rid, now, hreason, hvalid, hwhy, hpayload, hevents, ?_⟩
  rw [hid]
  exact hreceipts

/-- **A `POST` of an object leaves one of the two, exactly if the body can be stored.** -/
theorem Visited.takes_iff {body : Option Body} {r : Except Error Response}
    (h : Visited app L heard (.postEvent body) r L') (hhistory : History app still L)
    (hmessages : ∀ error, app.message error ≠ "") (hbody : body.map Body.json = some (.obj payload)) :
    Xor (TakenIn app payload L L') (Recorded payload L L') ↔ Fits app L.db payload := by
  have hrefused : ∀ {payload' reason}, Events.refusal app (body.map Body.json) = some (payload', reason) →
      ∃ errors, Schemas.validate app payload = .error errors ∧ payload' = payload ∧
        reason = Events.invalidReason app errors := by
    intro payload' reason hrefusal
    rw [hbody, Events.refusal] at hrefusal
    split at hrefusal
    · next errors hinvalid =>
      cases hrefusal
      exact ⟨errors, hinvalid, rfl, rfl⟩
    · cases hrefusal
  have hnotTaken : ∀ {errors}, Schemas.validate app payload = .error errors →
      ¬ TakenIn app payload L L' := by
    intro errors hinvalid htaken
    cases htaken with
    | duplicate hvalid => rw [hinvalid] at hvalid; cases hvalid
    | accepted hvalid => rw [hinvalid] at hvalid; cases hvalid
  cases h with
  | @posted _ payload' model r' _ hbody' hvalid hposted =>
      rw [hbody] at hbody'
      cases hbody'
      constructor
      · rintro (⟨htaken, -⟩ | ⟨hrecorded, -⟩)
        · exact htaken.fits hhistory.distinct
        · exact absurd hrecorded (hposted.not_recorded hhistory)
      · exact fun hfits =>
          .inl ⟨hposted.fits hvalid hhistory.distinct hfits, hposted.not_recorded hhistory⟩
  | rejected hrefusal hrefuses happ hrecordable =>
      obtain ⟨errors, hinvalid, rfl, rfl⟩ := hrefused hrefusal
      have hreason := Events.invalidReason_ne_empty hmessages (Schemas.validate_error_ne_nil hinvalid)
      constructor
      · exact fun _ => .rejected hinvalid (Ingest.recordable_iff.mp hrecordable)
      · exact fun _ => .inr ⟨hrefuses.recorded hreason, hnotTaken hinvalid⟩
  | malformed => cases hbody
  | unrecorded hrefusal hrecordable =>
      obtain ⟨errors, hinvalid, rfl, rfl⟩ := hrefused hrefusal
      constructor
      · rintro (⟨htaken, -⟩ | ⟨hrecorded, -⟩)
        · exact absurd htaken (hnotTaken hinvalid)
        · exact absurd hrecorded (not_recorded_of_same rfl)
      · intro hfits
        cases hfits with
        | accepted hvalid => rw [hinvalid] at hvalid; cases hvalid
        | repeated hvalid => rw [hinvalid] at hvalid; cases hvalid
        | rejected hinvalid' hrecordable' =>
            rw [hinvalid] at hinvalid'
            cases hinvalid'
            rw [Ingest.recordable_iff.mpr hrecordable'] at hrecordable
            cases hrecordable
  | quiet hquiet => exact hquiet.elim
  | reviewed hdecides => exact hdecides.elim
  | resumed hdecides => exact hdecides.elim
  | escalated hreads => exact hreads.elim

end DemandSignal
