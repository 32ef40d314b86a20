import DemandSignal.Spec.Frames
import DemandSignal.Spec.Versions
import Mathlib.Data.Int.ConditionallyCompleteOrder
import Mathlib.Data.List.MinMax

/-!
# Deliveries

New events of one person, posted one after another. The touch keeps the first delivered of the earliest
events and the first delivered of the latest, since only a strictly earlier or later one takes its place.
-/

namespace DemandSignal

open Txn Resolve

variable {app : App} {L L' : Ledger Db Write} {heard : List Reply} {model : EventIn}
  {payload : Json.Fields} {event : Event} {touch : AttributionTouch} {identityId : Uuid}
  {models : List EventIn}

/-- New events are posted in this order, and each is taken through the pipeline for the identity. -/
inductive Delivers (app : App) (L : Ledger Db Write) (identityId : Uuid) :
    List EventIn → Ledger Db Write → Prop
  | nil : Delivers app L identityId [] L
  | snoc {models L₁ body payload model answer s L'} (h : Delivers app L identityId models L₁)
      (hbody : body.map Body.json = some (.obj payload))
      (hvalid : Schemas.validate app payload = .ok model)
      (hrun : Runs ((service app).solo (.postEvent body)) {} L₁ (handle app (.postEvent body))
        (.ok (.ingest (200, answer))) s L')
      (hnew : answer.isEdit = false) (hidentity : answer.identityId = some identityId) :
      Delivers app L identityId (models ++ [model]) L'

/-! ### One delivery -/

/-- The event is taken into the touch of the identity, which starts with it or is extended. -/
def TakenInto (db : Db) (event : Event) (identityId : Uuid) (touch : AttributionTouch) : Prop :=
  (∀ old ∈ db .attributionTouches, AttributionTouch.identityId old ≠ identityId) ∧
      touch.first = event.point ∧ touch.last = event.point ∨
    ∃ old ∈ db .attributionTouches, AttributionTouch.identityId old = identityId ∧
      touch.first = (if event.receivedAt < old.firstTouchAt then event.point else old.first) ∧
      touch.last = if old.lastTouchAt < event.receivedAt then event.point else old.last

theorem TakenInto.of_touches (h : Act.Touches L event identityId touch)
    (hnew : event.isEdit = false) : TakenInto L.db event identityId touch := by
  obtain ⟨hnone, id, now, rfl⟩ | ⟨old, hold, hidentity, updatedAt, rfl⟩ := h
  · exact .inl ⟨hnone, rfl, rfl⟩
  · rw [hnew, if_neg (by decide)]
    exact .inr ⟨old, hold, hidentity, extendTouch_first _ _ _, extendTouch_last _ _ _⟩

theorem TakenInto.of_eq {db db' : Db} (h : TakenInto db event identityId touch)
    (hsame : db .attributionTouches = db' .attributionTouches) :
    TakenInto db' event identityId touch := by
  unfold TakenInto at h ⊢
  rwa [← hsame]

/-- A new event of the model is added, and the touch is that of the identity. -/
structure Delivered (app : App) (L L' : Ledger Db Write) (identityId : Uuid) (model : EventIn)
    (event : Event) (touch : AttributionTouch) : Prop where
  free : ∀ old ∈ L.db .events, ¬ Ingest.Holds app model old
  holds : Ingest.Holds app model event
  source : event.source = model.source
  externalEventId : event.externalEventId = model.externalEventId
  receivedAt : event.receivedAt = model.receivedAt
  campaignId : event.campaignId = model.campaignId
  mem : event ∈ L'.db .events
  stay : ∀ old ∈ L.db .events, old ∈ L'.db .events
  identity : touch.identityId = identityId
  sets : Sets AttributionTouch.identityId touch (L.db .attributionTouches)
    (L'.db .attributionTouches)
  taken : TakenInto L.db event identityId touch

theorem Accepted.untouched {status : Ingest.IngestStatus}
    (h : Accepted app L model payload event status L') {t : Table}
    (ht : t ∉ [Table.events, .receipts]) : L'.db t = L.db t := by
  cases h with
  | created hcreates => exact commit_of_untouched (hcreates.tables.ne ht)
  | edited hedits => exact commit_of_untouched (hedits.tables.ne ht)

theorem Identified.untouched (h : Identified app L event identityId L') {t : Table}
    (ht : t ∉ [Table.identities, .identityLinks, .receipts]) : L'.db t = L.db t := by
  cases h with
  | found => rfl
  | linked hlinks => exact commit_of_untouched (hlinks.tables.ne ht)

/-- What a pipeline that acts makes of the touches. -/
theorem Piped.touched {outcome : Pipeline.Outcome}
    (h : Piped app L event identityId heard (.ok (some outcome)) L') (hhistory : History app still L)
    (hnew : event.isEdit = false) : ∃ touch : AttributionTouch, touch.identityId = identityId ∧
      TakenInto L.db event identityId touch ∧ Sets AttributionTouch.identityId touch
        (L.db .attributionTouches) (L'.db .attributionTouches) := by
  cases h with
  | @acted ws₁ ws₂ ws₃ _ _ _ _ _ hfields hinterprets happ₁ hcurrent heventId hscores happ₂ hacts
      happ₃ =>
      have hhistory₂ := (hhistory.commit (.interprets hinterprets) happ₁).commit (.scores hscores) happ₂
      obtain ⟨lead, route, touch, hleaves⟩ := hacts.acts.leaves hhistory₂.distinct happ₃
      have hsame : ((L.commit ws₁).commit ws₂).db .attributionTouches = L.db .attributionTouches := by
        rw [commit_of_untouched (hscores.tables.ne (by decide)),
          commit_of_untouched (hinterprets.tables.ne (by decide))]
      have hsets := hleaves.touches
      rw [hsame] at hsets
      exact ⟨touch, hleaves.touchIdentity, (TakenInto.of_touches hleaves.touched hnew).of_eq hsame,
        hsets⟩

theorem Posted.delivered {answer : EventIngestResponse} {r : Except Error Events.Answer}
    (h : Posted app L heard model payload r L') (hr : r = .ok (200, answer))
    (hhistory : History app still L) (hnew : answer.isEdit = false)
    (hidentity : answer.identityId = some identityId) :
    ∃ event touch, Delivered app L L' identityId model event touch := by
  cases h with
  | duplicate =>
      cases hr
      cases hidentity
  | unacceptable => cases hr
  | parked =>
      cases hr
      cases hidentity
  | @piped event status L₁ L₂ owner r L' haccepted hidentified hpiped =>
      rcases r with x | _ | outcome
      · cases hr
      · cases hr
      · cases hr
        obtain rfl : owner = identityId := Option.some_injective _ hidentity
        obtain ⟨hcarries, hsets⟩ := haccepted.sets hhistory.distinct
        have hsame : L₂.db .attributionTouches = L.db .attributionTouches :=
          (hidentified.untouched (by decide)).trans (haccepted.untouched (by decide))
        have hevents : L'.db .events = L₁.db .events := hpiped.events.trans hidentified.events
        have hedit : event.isEdit = false ∧ (∀ old ∈ L.db .events, ¬ Ingest.Holds app model old) ∧
            event.source = model.source ∧ event.externalEventId = model.externalEventId ∧
            event.campaignId = model.campaignId ∧ ¬ L.db.Has .events event.id := by
          cases haccepted.row hhistory.distinct with
          | edited => cases hnew
          | created haccept hfree hid => exact ⟨rfl, hfree, rfl, rfl, rfl, hid⟩
        obtain ⟨hnotEdit, hfree, hsource, hexternal, hcampaign, hid⟩ := hedit
        obtain ⟨touch, htouch, htaken, htouches⟩ :=
          hpiped.touched (hidentified.history (haccepted.history hhistory)) hnotEdit
        rw [hsame] at htouches
        refine ⟨event, touch, hfree, hcarries.toHolds, hsource, hexternal, hcarries.receivedAt, hcampaign,
          ?_, fun old hold => ?_, htouch, htouches, htaken.of_eq hsame⟩
        · rw [hevents]
          exact hsets.new_mem
        · rw [hevents]
          exact hsets.mem_of_ne hold fun hsameId => hid ⟨old, hold, hsameId⟩

/-! ### All deliveries -/

theorem Ingest.Holds.of_pair {other : EventIn} (h : Ingest.Holds app model event)
    (hpair : model.pair = other.pair) : Ingest.Holds app other event := by
  obtain ⟨hsource, hexternal⟩ := Prod.mk.inj hpair
  refine ⟨h.isValid, ?_⟩
  rw [← hsource, ← hexternal]
  exact h.dedupeKey

/-- The point is that of the model's event. -/
structure Db.PointsTo (db : Db) (point : TouchPoint) (model : EventIn) : Prop where
  named : ∃ event ∈ db .events, Event.id event = point.eventId ∧ Event.pair event = model.pair
  receivedAt : point.receivedAt = model.receivedAt
  source : point.source = model.source
  campaignId : point.campaignId = model.campaignId

theorem Db.PointsTo.stay {db db' : Db} {point : TouchPoint} (h : db.PointsTo point model)
    (hstay : ∀ event ∈ db .events, event ∈ db' .events) : db'.PointsTo point model := by
  obtain ⟨⟨event, hevent, hnamed⟩, hreceived, hsource, hcampaign⟩ := h
  exact ⟨⟨event, hstay event hevent, hnamed⟩, hreceived, hsource, hcampaign⟩

/-- The touch of the identity points to the first delivered of the earliest events and to the first
delivered of the latest. -/
structure Attributed (app : App) (db : Db) (identityId : Uuid) (models : List EventIn) : Prop where
  held : ∀ model ∈ models, ∃ event ∈ db .events, Ingest.Holds app model event
  nodup : (models.map EventIn.pair).Nodup
  touched : models ≠ [] →
    ∃ touch ∈ db .attributionTouches, AttributionTouch.identityId touch = identityId
  points : ∀ touch ∈ db .attributionTouches, AttributionTouch.identityId touch = identityId →
    ∃ first ∈ models.argmin EventIn.receivedAt, ∃ last ∈ models.argmax EventIn.receivedAt,
      db.PointsTo touch.first first ∧ db.PointsTo touch.last last

theorem Delivered.pointsTo (h : Delivered app L L' identityId model event touch) :
    L'.db.PointsTo event.point model :=
  ⟨⟨event, h.mem, rfl, Prod.ext h.source h.externalEventId⟩, h.receivedAt, h.source, h.campaignId⟩

theorem Attributed.deliver (h : Attributed app L.db identityId models)
    (hdelivered : Delivered app L L' identityId model event touch) :
    Attributed app L'.db identityId (models ++ [model]) := by
  have hpoints := hdelivered.pointsTo
  refine ⟨fun other hother => ?_, ?_, fun _ => ⟨touch, hdelivered.sets.new_mem, hdelivered.identity⟩,
    fun other hother hidentity => ?_⟩
  · rcases List.mem_append.mp hother with hother | hother
    · obtain ⟨old, hold, hholds⟩ := h.held other hother
      exact ⟨old, hdelivered.stay old hold, hholds⟩
    · rw [List.mem_singleton.mp hother]
      exact ⟨event, hdelivered.mem, hdelivered.holds⟩
  · rw [List.map_append, List.map_singleton, List.nodup_append]
    refine ⟨h.nodup, List.nodup_singleton _, ?_⟩
    rintro pair hpair pair' hpair' rfl
    obtain ⟨other, hother, hsame⟩ := List.mem_map.mp hpair
    obtain ⟨old, hold, hholds⟩ := h.held other hother
    rw [List.mem_singleton] at hpair'
    exact hdelivered.free old hold (hholds.of_pair (hsame.trans hpair'))
  · obtain rfl : other = touch :=
      hdelivered.sets.eq_new hother (hidentity.trans hdelivered.identity.symm)
    obtain ⟨hnone, hfirst, hlast⟩ | ⟨old, hold, holdIdentity, hfirst, hlast⟩ := hdelivered.taken
    · have hnil : models = [] := by
        by_contra hne
        obtain ⟨held, hheld, hheldIdentity⟩ := h.touched hne
        exact hnone held hheld hheldIdentity
      rw [hnil, hfirst, hlast]
      exact ⟨model, rfl, model, rfl, hpoints, hpoints⟩
    · obtain ⟨first, hfirstModel, last, hlastModel, hfirstPoint, hlastPoint⟩ :=
        h.points old hold holdIdentity
      have hfirstAt : old.firstTouchAt = first.receivedAt := hfirstPoint.receivedAt
      have hlastAt : old.lastTouchAt = last.receivedAt := hlastPoint.receivedAt
      rw [List.argmin_concat, List.argmax_concat, Option.mem_def.mp hfirstModel,
        Option.mem_def.mp hlastModel, hfirst, hlast, hfirstAt, hlastAt, hdelivered.receivedAt]
      dsimp only
      refine ⟨if model.receivedAt < first.receivedAt then model else first, ?_,
        if last.receivedAt < model.receivedAt then model else last, ?_, ?_, ?_⟩
      · split <;> rfl
      · split <;> rfl
      · split
        · exact hpoints
        · exact hfirstPoint.stay hdelivered.stay
      · split
        · exact hpoints
        · exact hlastPoint.stay hdelivered.stay

/-- Deliveries go on from a run. -/
theorem Delivers.served {before : List ServiceVisit} (h : Delivers app L identityId models L')
    (hbefore : Served (service app) emptyLedger before L) :
    ∃ visits, Served (service app) emptyLedger visits L' := by
  induction h with
  | nil => exact ⟨before, hbefore⟩
  | snoc _ _ _ hrun _ _ ih =>
      obtain ⟨visits, hserved⟩ := ih
      exact ⟨_, hserved.snoc hrun⟩

theorem Delivers.attributed {before : List ServiceVisit} (h : Delivers app L identityId models L')
    (hbefore : Served (service app) emptyLedger before L)
    (hfree : ∀ touch ∈ L.db .attributionTouches, AttributionTouch.identityId touch ≠ identityId) :
    Attributed app L'.db identityId models := by
  induction h with
  | nil =>
      exact ⟨fun _ hmodel => absurd hmodel List.not_mem_nil, List.nodup_nil, fun hne => absurd rfl hne,
        fun touch htouch hidentity => absurd hidentity (hfree touch htouch)⟩
  | @snoc _ _ _ _ _ answer _ _ h hbody hvalid hrun hnew hidentity ih =>
      obtain ⟨visits, hserved⟩ := h.served hbefore
      obtain ⟨r, hr, hposted⟩ := (visited_of_runs hrun).posted_of_valid hbody hvalid
      have hok : r = .ok (200, answer) := by
        cases r with
        | error => cases hr
        | ok => cases hr; rfl
      obtain ⟨event, touch, hdelivered⟩ :=
        hposted.delivered hok (served_history hserved).1 hnew hidentity
      exact ih.deliver hdelivered

/-! ### What an attribution says -/

/-- One end of a touch, with its event named as its source does. -/
structure TouchView where
  pair : Option Pair
  receivedAt : Time
  source : String
  campaignId : Option String
deriving DecidableEq

def EventIn.view (model : EventIn) : TouchView :=
  ⟨some model.pair, model.receivedAt, model.source, model.campaignId⟩

def Db.view (db : Db) (point : TouchPoint) : TouchView where
  pair := ((db .events).find? fun event => Event.id event = point.eventId).map Event.pair
  receivedAt := point.receivedAt
  source := point.source
  campaignId := point.campaignId

/-- The attribution of an identity: its first touch and its last. -/
def Db.attribution (db : Db) (identityId : Uuid) : Option (TouchView × TouchView) :=
  ((db .attributionTouches).find? fun touch => AttributionTouch.identityId touch = identityId).map
    fun touch => (db.view (AttributionTouch.first touch), db.view (AttributionTouch.last touch))

theorem Db.PointsTo.view {db : Db} {point : TouchPoint} (h : db.PointsTo point model)
    (hdistinct : db.Distinct) : db.view point = model.view := by
  obtain ⟨⟨event, hevent, hid, hpair⟩, hreceived, hsource, hcampaign⟩ := h
  unfold Db.view EventIn.view
  rw [hreceived, hsource, hcampaign]
  cases hfound : (db .events).find? fun event => Event.id event = point.eventId with
  | none => exact absurd (List.find?_eq_none.mp hfound event hevent) (by simpa using hid)
  | some found =>
      have hfoundId : Event.id found = point.eventId := by simpa using List.find?_some hfound
      rw [hdistinct.eq_of_id (t := .events) (List.mem_of_find?_eq_some hfound) hevent
        (hfoundId.trans hid.symm), Option.map_some, hpair]

/-- The attribution after deliveries: the earliest and the latest event, the first delivered of each. -/
theorem Attributed.attribution {db : Db} (h : Attributed app db identityId models)
    (hdistinct : db.Distinct) : db.attribution identityId =
      (models.argmin EventIn.receivedAt).bind fun first =>
        (models.argmax EventIn.receivedAt).map fun last => (first.view, last.view) := by
  unfold Db.attribution
  cases hfound : (db .attributionTouches).find? fun touch =>
      AttributionTouch.identityId touch = identityId with
  | none =>
      have hnil : models = [] := by
        by_contra hne
        obtain ⟨touch, htouch, hidentity⟩ := h.touched hne
        exact absurd (List.find?_eq_none.mp hfound touch htouch) (by simpa using hidentity)
      rw [hnil]
      rfl
  | some touch =>
      obtain ⟨first, hfirst, last, hlast, hfirstPoint, hlastPoint⟩ :=
        h.points touch (List.mem_of_find?_eq_some hfound) (by simpa using List.find?_some hfound)
      rw [Option.mem_def.mp hfirst, Option.mem_def.mp hlast, Option.map_some, hfirstPoint.view hdistinct,
        hlastPoint.view hdistinct]
      rfl

end DemandSignal
