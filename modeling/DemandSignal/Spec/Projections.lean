import DemandSignal.Spec.History

/-!
# Events and their payloads

An edit assigns every column that its payload decides. Its `UPDATE` writes those that differ from what
the request has read.
-/

namespace DemandSignal

open Txn

variable {app : App} {sight : Sight} {L : Ledger Db Write} {ws : List Write}

/-- The columns of an event are those of what the schema makes of its payload. -/
structure Event.Projects (app : App) (event : Event) (model : EventIn) : Prop where
  valid : Schemas.validate app event.rawPayload = .ok model
  payloadHash : event.payloadHash = Ingest.computePayloadHash app event.rawPayload
  identityFields : event.identityFields = some model.identity
  schemaVersion : event.schemaVersion = model.schemaVersion
  campaignId : event.campaignId = model.campaignId
  consent : event.consent = model.consent
  receivedAt : event.receivedAt = model.receivedAt

/-- What an `UPDATE` leaves out of an event still is as it was read. -/
structure EventCurrent (loaded new current : Event) : Prop where
  identityFields : Undisturbed (t := .events) Event.identityFields loaded new current
  schemaVersion : Undisturbed (t := .events) Event.schemaVersion loaded new current
  campaignId : Undisturbed (t := .events) Event.campaignId loaded new current
  consent : Undisturbed (t := .events) Event.consent loaded new current
  receivedAt : Undisturbed (t := .events) Event.receivedAt loaded new current

instance (loaded new current : Event) : Decidable (EventCurrent loaded new current) :=
  decidable_of_iff
    (Undisturbed (t := .events) Event.identityFields loaded new current ∧
      Undisturbed (t := .events) Event.schemaVersion loaded new current ∧
      Undisturbed (t := .events) Event.campaignId loaded new current ∧
      Undisturbed (t := .events) Event.consent loaded new current ∧
      Undisturbed (t := .events) Event.receivedAt loaded new current)
    ⟨fun ⟨h₁, h₂, h₃, h₄, h₅⟩ => ⟨h₁, h₂, h₃, h₄, h₅⟩,
      fun ⟨h₁, h₂, h₃, h₄, h₅⟩ => ⟨h₁, h₂, h₃, h₄, h₅⟩⟩

/-- So it is for every event that a transaction updates. -/
def EventsCurrent (db : Db) (ws : List Write) : Prop :=
  ∀ loaded new, .update .events loaded new ∈ ws →
    ∀ current ∈ db .events, Event.id current = Event.id loaded → EventCurrent loaded new current

instance (db : Db) (ws : List Write) : Decidable (EventsCurrent db ws) :=
  decidable_of_iff (∀ p ∈ updates .events ws, ∀ current ∈ db .events,
      Event.id current = Event.id p.1 → EventCurrent p.1 p.2 current)
    ⟨fun h loaded new hmem => h (loaded, new) (mem_updates.mpr hmem),
      fun h p hp => h p.1 p.2 (mem_updates.mp hp)⟩

theorem Ingest.created_projects {model : EventIn} {payload : Json.Fields} {dedupeKey : Option String}
    {id : Uuid} {now : Time} (hvalid : Schemas.validate app payload = .ok model) :
    (Ingest.created app model payload dedupeKey id now).Projects app model :=
  ⟨hvalid, rfl, rfl, rfl, rfl, rfl, rfl⟩

/-- The `UPDATE` of an edit, over a row that kept the columns it leaves out. -/
theorem Ingest.merge_projects {existing current : Event} {model : EventIn} {payload : Json.Fields}
    (hvalid : Schemas.validate app payload = .ok model)
    (hhash : existing.payloadHash ≠ Ingest.computePayloadHash app payload)
    (hraw : existing.rawPayload ≠ payload)
    (hcurrent : EventCurrent existing (Ingest.edited app existing model payload) current) :
    Event.Projects app (Row.merge (t := .events) existing
      (Ingest.edited app existing model payload) current) model := by
  have hpayload : Row.column existing.rawPayload payload current.rawPayload = payload :=
    if_neg (Ne.symm hraw)
  have hpayloadHash : Row.column existing.payloadHash (Ingest.computePayloadHash app payload)
      current.payloadHash = Ingest.computePayloadHash app payload := if_neg (Ne.symm hhash)
  refine ⟨?_, ?_, hcurrent.identityFields.column, hcurrent.schemaVersion.column,
    hcurrent.campaignId.column, hcurrent.consent.column, hcurrent.receivedAt.column⟩
  · exact (congrArg (Schemas.validate app) hpayload).trans hvalid
  · exact hpayloadHash.trans (congrArg (Ingest.computePayloadHash app) hpayload.symm)

/-- Every accepted event is made of its payload. -/
def Projected (app : App) (db : Db) : Prop :=
  ∀ event ∈ db .events, Event.isValid event = true → ∃ model, Event.Projects app event model

/-- An edit of an event that was made of its payload when the request read it. -/
theorem Ingest.Edits.projected {model : EventIn} {payload : Json.Fields} {existing : Event}
    (h : Ingest.Edits app sight L model payload existing ws)
    (hexisting : ∃ model, existing.Projects app model) (hcurrent : EventsCurrent L.db ws)
    (hprojected : Projected app L.db) : Projected app (L.commit ws).db := by
  intro event hevent hvalidEvent
  rw [h.rows, Db.mem_updated] at hevent
  obtain ⟨current, hold, rfl⟩ := hevent
  by_cases hid : Row.id current = Row.id (t := .events) existing
  · rw [if_pos hid] at hvalidEvent ⊢
    obtain ⟨stored, hstored⟩ := hexisting
    obtain @⟨_, now, hvalid, -, -, -, hnew⟩ := h
    have hraw : existing.rawPayload ≠ payload := by
      rintro rfl
      exact hnew hstored.payloadHash
    have hne : Ingest.edited app existing model payload ≠ existing := by
      intro heq
      exact hnew (congrArg Event.payloadHash heq).symm
    refine ⟨model, Ingest.merge_projects hvalid hnew hraw (hcurrent _ _ ?_ current hold hid)⟩
    rw [saved_of_ne (t := .events) hne]
    exact List.mem_cons_self ..
  · rw [if_neg hid] at hvalidEvent ⊢
    exact hprojected current hold hvalidEvent

/-- Along a history whose updates of events find what they leave out as they read it, every accepted
event is made of its payload at every point. -/
theorem History.projected (h : History app once L)
    (hcurrent : ∀ commit ∈ L.log, EventsCurrent commit.before commit.writes) :
    ∀ L₀, Extends L₀ L → Projected app L₀.db := by
  induction h with
  | empty =>
      intro L₀ hextends event hevent
      obtain ⟨current, hmem, -⟩ := hextends.exists_kept (t := .events) hevent
      exact absurd hmem List.not_mem_nil
  | @commit L ws h htransaction happ ih =>
      have hbefore := ih fun commit hcommit => hcurrent commit (List.mem_append_left _ hcommit)
      have hlast : EventsCurrent L.db ws :=
        hcurrent ⟨L.db, ws⟩ (List.mem_append_right _ (List.mem_singleton_self _))
      intro L₀ hextends
      obtain rfl | hextends := hextends.of_commit
      · obtain ⟨model, payload, id, hcreates⟩ | hrejects | ⟨model, payload, existing, hedits⟩ | hsame :=
          htransaction.events
        · obtain ⟨row, -, hrows, now, rfl⟩ := hcreates.rows (L := L)
          obtain ⟨hvalid, -⟩ := hcreates
          intro event hevent hvalidEvent
          rw [hrows, List.mem_append, List.mem_singleton] at hevent
          rcases hevent with hevent | rfl
          · exact hbefore L .refl event hevent hvalidEvent
          · exact ⟨model, Ingest.created_projects hvalid⟩
        · obtain ⟨row, -, hrows, hrejected, -⟩ := hrejects.rows (L := L)
          intro event hevent hvalidEvent
          rw [hrows, List.mem_append, List.mem_singleton] at hevent
          rcases hevent with hevent | rfl
          · exact hbefore L .refl event hevent hvalidEvent
          · rw [hrejected] at hvalidEvent
            cases hvalidEvent
        · have hholds : Ingest.Holds app model existing := by
            obtain ⟨-, -, -, hholds, -⟩ := hedits
            exact hholds
          obtain ⟨L₁, hextends, hexisting⟩ := hedits.seen
          exact hedits.projected (hbefore L₁ hextends existing hexisting hholds.isValid) hlast
            (hbefore L .refl)
        · intro event hevent
          rw [hsame] at hevent
          exact hbefore L .refl event hevent
      · exact hbefore L₀ hextends

end DemandSignal
