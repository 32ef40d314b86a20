import DemandSignal.Spec.Alone

/-!
# Touches

The log tells which events have been acted on for an identity, and with which instants. A touch holds
the extremes of them, unless an event that is acted on for the first time has been edited before.
-/

namespace DemandSignal

open Txn

variable {app : App} {L : Ledger Db Write} {ws : List Write}

/-! ### The events acted on -/

/-- An event acted on for an identity, with the instant it carried. -/
structure Taken where
  identityId : Uuid
  eventId : Uuid
  receivedAt : Time
deriving DecidableEq

/-- What a receipt says of an act: its lead is new or updated. -/
def takenBy (events : List Event) (receipt : Receipt) : Option Taken :=
  if receipt.actionType = .leadCreated ∨ receipt.actionType = .leadUpdated then
    match receipt.identityId, receipt.eventId with
    | some identityId, some eventId =>
        (events.find? fun event => event.id = eventId).map fun event =>
          ⟨identityId, eventId, event.receivedAt⟩
    | _, _ => none
  else none

/-- The acts of a commit. -/
def takenIn (commit : Commit Db Write) : List Taken :=
  (inserted .receipts commit.writes).filterMap (takenBy (commit.before .events))

/-- The event has been acted on for the identity before. -/
def Known (acts : List Taken) (act : Taken) : Prop :=
  ∃ earlier ∈ acts, earlier.identityId = act.identityId ∧ earlier.eventId = act.eventId

instance (acts : List Taken) (act : Taken) : Decidable (Known acts act) := by
  unfold Known
  infer_instance

/-- The first acts of the events on each identity. -/
def firstActs (log : List (Commit Db Write)) : List Taken :=
  log.foldl (fun acts commit => acts ++ (takenIn commit).filter fun act => ¬ Known acts act) []

theorem firstActs_commit (L : Ledger Db Write) (ws : List Write) :
    firstActs (L.commit ws).log = firstActs L.log ++
      (takenIn ⟨L.db, ws⟩).filter fun act => ¬ Known (firstActs L.log) act := by
  simp [firstActs, Ledger.commit]

/-- A transaction without such receipts acts on nothing. -/
theorem takenIn_of_records {actions : List ActionType} (h : Records ws actions)
    (hcreated : .leadCreated ∉ actions) (hupdated : .leadUpdated ∉ actions) (db : Db) :
    takenIn ⟨db, ws⟩ = [] := by
  rw [takenIn, List.filterMap_eq_nil_iff]
  intro receipt hreceipt
  rw [takenBy, if_neg]
  rintro (haction | haction)
  · exact h.ne hreceipt hcreated haction
  · exact h.ne hreceipt hupdated haction

theorem Act.Acts.takenIn {event : Event} {identityId : Uuid} {score : Option Score}
    (h : Act.Acts app still L event identityId score ws) (hdistinct : L.db.Distinct) :
    takenIn ⟨L.db, ws⟩ = [⟨identityId, event.id, event.receivedAt⟩] := by
  obtain @⟨lead, route, touch, leadRid, routeRid, touchRid, now, _, _, h⟩ := h
  have hfind : (L.db .events).find? (fun other : Event => other.id = event.id) = some event := by
    cases hfound : (L.db .events).find? (fun other : Event => other.id = event.id) with
    | none => exact absurd (List.find?_eq_none.mp hfound event h.seen) (by simp)
    | some other =>
        have hid : other.id = event.id := by simpa using List.find?_some hfound
        rw [hdistinct.eq_of_id (t := .events) (List.mem_of_find?_eq_some hfound) h.seen hid]
  have hreceipts : inserted .receipts (Act.writes event identityId (Act.decisionOf score) lead route
      touch leadRid routeRid touchRid now) =
      [receipt (if lead.op = .created then .leadCreated else .leadUpdated) (Lead.id lead.row) .lead
        (.lead lead.op (Act.decisionOf score)) (some event.id) (some identityId) .ok leadRid now,
      receipt (if route.op = .created then .routed else .routeUpdated)
        (Route.id route.row) .route (.route (Route.queue route.row) (Route.ruleMatched route.row)
          (Route.slaDeadline route.row)) (some event.id) (some identityId) .ok routeRid now,
      receipt (if lead.op = .created then .attributedCreated else .attributedUpdated)
        (AttributionTouch.id touch.row) .attributionTouch
        (.attributed (AttributionTouch.firstTouchAt touch.row)
          (AttributionTouch.lastTouchAt touch.row)) (some event.id) (some identityId) .ok touchRid
        now] := by
    simp [Act.writes, Upsert.inserted_inserts_of_ne]
  rw [DemandSignal.takenIn, hreceipts]
  cases lead <;> cases route <;> simp [takenBy, receipt, hfind]

/-! ### The extremes -/

/-- The touch of an identity holds the extremes of its acts. -/
structure Extremes (acts : List Taken) (touch : AttributionTouch) : Prop where
  first : ⟨touch.identityId, touch.firstTouchEventId, touch.firstTouchAt⟩ ∈ acts
  last : ⟨touch.identityId, touch.lastTouchEventId, touch.lastTouchAt⟩ ∈ acts
  between : ∀ act ∈ acts, act.identityId = touch.identityId →
    touch.firstTouchAt ≤ act.receivedAt ∧ act.receivedAt ≤ touch.lastTouchAt

instance (acts : List Taken) (touch : AttributionTouch) : Decidable (Extremes acts touch) :=
  decidable_of_iff (_ ∧ _ ∧ _) ⟨fun ⟨h₁, h₂, h₃⟩ => ⟨h₁, h₂, h₃⟩, fun ⟨h₁, h₂, h₃⟩ => ⟨h₁, h₂, h₃⟩⟩

/-- An edited event that is taken up for the first time lies between the touches of its identity. -/
def InTime (acts : List Taken) (commit : Commit Db Write) : Prop :=
  ∀ act ∈ takenIn commit, ¬ Known acts act →
    ∀ event ∈ commit.before .events, Event.id event = act.eventId → Event.isEdit event = true →
      ∀ touch ∈ commit.before .attributionTouches,
        AttributionTouch.identityId touch = act.identityId →
        AttributionTouch.firstTouchAt touch ≤ act.receivedAt ∧
          act.receivedAt ≤ AttributionTouch.lastTouchAt touch

instance (acts : List Taken) (commit : Commit Db Write) : Decidable (InTime acts commit) := by
  unfold InTime
  infer_instance

/-- What the log and the touches have to do with each other. -/
structure TouchesTold (acts : List Taken) (db : Db) : Prop where
  extremes : ∀ touch ∈ db .attributionTouches, Extremes acts touch
  exists_touch : ∀ act ∈ acts, ∃ touch ∈ db .attributionTouches,
    AttributionTouch.identityId touch = act.identityId
  exists_event : ∀ act ∈ acts, db.Has .events act.eventId
  unedited : ∀ act ∈ acts, ∀ event ∈ db .events, Event.id event = act.eventId →
    Event.isEdit event = false → Event.receivedAt event = act.receivedAt

/-- A transaction that acts on nothing leaves the touches alone, and the events up to edits. -/
theorem TouchesTold.of_events {acts : List Taken} (h : TouchesTold acts L.db)
    (htouches : (L.commit ws).db .attributionTouches = L.db .attributionTouches)
    (hevents : ∀ event ∈ (L.commit ws).db .events, event ∈ L.db .events ∨
      Event.isEdit event = true ∨ ¬ L.db.Has .events (Event.id event)) :
    TouchesTold acts (L.commit ws).db := by
  refine ⟨?_, ?_, fun act hact => (h.exists_event act hact).foldl ws, ?_⟩
  · rw [htouches]
    exact h.extremes
  · rw [htouches]
    exact h.exists_touch
  · intro act hact event hevent hid hedit
    obtain hold | hedited | hnew := hevents event hevent
    · exact h.unedited act hact event hold hid hedit
    · rw [hedit] at hedited
      cases hedited
    · rw [hid] at hnew
      exact absurd (h.exists_event act hact) hnew

/-- The events after a transaction: those of before, edited ones and new ones. -/
theorem Transaction.events_cases (h : Transaction app still L ws) (hdistinct : L.db.Distinct)
    (happ : Applicable ws L.db) : ∀ event ∈ (L.commit ws).db .events, event ∈ L.db .events ∨
      Event.isEdit event = true ∨ ¬ L.db.Has .events (Event.id event) := by
  have hnew : ∀ row : Event, .insert .events row ∈ ws → ¬ L.db.Has .events (Event.id row) := by
    rintro row hinsert ⟨old, hold, hid⟩
    exact happ.id_ne (t := .events) (s := .events) hold hinsert hid.symm
  have happended : ∀ row : Event, .insert .events row ∈ ws →
      (L.commit ws).db .events = L.db .events ++ [row] → ∀ event ∈ (L.commit ws).db .events,
        event ∈ L.db .events ∨ Event.isEdit event = true ∨ ¬ L.db.Has .events (Event.id event) := by
    intro row hinsert hrows event hevent
    rw [hrows, List.mem_append, List.mem_singleton] at hevent
    rcases hevent with hevent | rfl
    · exact .inl hevent
    · exact .inr (.inr (hnew event hinsert))
  obtain ⟨model, payload, id, hcreates⟩ | hrejects | ⟨model, payload, existing, hedits⟩ | hsame :=
    h.events
  · obtain ⟨row, hinsert, hrows, -⟩ := hcreates.rows (L := L)
    exact happended row hinsert hrows
  · obtain ⟨row, hinsert, hrows, -⟩ := hrejects.rows (L := L)
    exact happended row hinsert hrows
  · intro event hevent
    obtain rfl | ⟨hold, -⟩ := (hedits.sets hdistinct event).mp hevent
    · exact .inr (.inl rfl)
    · exact .inl hold
  · intro event hevent
    rw [hsame] at hevent
    exact .inl hevent

/-- One end of a touch. -/
structure TouchPoint where
  eventId : Uuid
  receivedAt : Time
  source : String
  campaignId : Option String
deriving DecidableEq

def AttributionTouch.first (touch : AttributionTouch) : TouchPoint :=
  ⟨touch.firstTouchEventId, touch.firstTouchAt, touch.firstTouchSource, touch.firstTouchCampaignId⟩

def AttributionTouch.last (touch : AttributionTouch) : TouchPoint :=
  ⟨touch.lastTouchEventId, touch.lastTouchAt, touch.lastTouchSource, touch.lastTouchCampaignId⟩

def Event.point (event : Event) : TouchPoint :=
  ⟨event.id, event.receivedAt, event.source, event.campaignId⟩

theorem extendTouch_first (touch : AttributionTouch) (event : Event) (updatedAt : Time) :
    (Attribute.extendTouch touch event updatedAt).first =
      if event.receivedAt < touch.firstTouchAt then event.point else touch.first := by
  by_cases hfirst : event.receivedAt < touch.firstTouchAt
  · by_cases hlast : touch.lastTouchAt < event.receivedAt <;>
      simp [Attribute.extendTouch, AttributionTouch.first, Event.point, hfirst, hlast]
  · by_cases hlast : touch.lastTouchAt < event.receivedAt <;>
      simp [Attribute.extendTouch, AttributionTouch.first, hfirst, hlast]

theorem extendTouch_last (touch : AttributionTouch) (event : Event) (updatedAt : Time) :
    (Attribute.extendTouch touch event updatedAt).last =
      if touch.lastTouchAt < event.receivedAt then event.point else touch.last := by
  by_cases hfirst : event.receivedAt < touch.firstTouchAt
  · by_cases hlast : touch.lastTouchAt < event.receivedAt <;>
      simp [Attribute.extendTouch, AttributionTouch.last, Event.point, hfirst, hlast]
  · by_cases hlast : touch.lastTouchAt < event.receivedAt <;>
      simp [Attribute.extendTouch, AttributionTouch.last, Event.point, hfirst, hlast]

/-- A touch takes in an event. -/
theorem Extremes.extend {acts : List Taken} {old : AttributionTouch} (h : Extremes acts old)
    (event : Event) (updatedAt : Time) :
    Extremes (acts ++ [⟨old.identityId, event.id, event.receivedAt⟩])
      (Attribute.extendTouch old event updatedAt) := by
  have hids : (Attribute.extendTouch old event updatedAt).identityId = old.identityId :=
    (Attribute.extendTouch_fixed old event updatedAt).2.1
  have hfirst := extendTouch_first old event updatedAt
  have hlast := extendTouch_last old event updatedAt
  have hordered := h.between _ h.first rfl
  simp only [AttributionTouch.first, AttributionTouch.last, Event.point] at hfirst hlast
  refine ⟨?_, ?_, fun act hact hidentity => ?_⟩
  · rw [hids, List.mem_append, List.mem_singleton]
    by_cases hearlier : event.receivedAt < old.firstTouchAt
    · rw [if_pos hearlier, TouchPoint.mk.injEq] at hfirst
      rw [hfirst.1, hfirst.2.1]
      exact .inr rfl
    · rw [if_neg hearlier, TouchPoint.mk.injEq] at hfirst
      rw [hfirst.1, hfirst.2.1]
      exact .inl h.first
  · rw [hids, List.mem_append, List.mem_singleton]
    by_cases hlater : old.lastTouchAt < event.receivedAt
    · rw [if_pos hlater, TouchPoint.mk.injEq] at hlast
      rw [hlast.1, hlast.2.1]
      exact .inr rfl
    · rw [if_neg hlater, TouchPoint.mk.injEq] at hlast
      rw [hlast.1, hlast.2.1]
      exact .inl h.last
  · rw [hids] at hidentity
    have hact : old.firstTouchAt ≤ act.receivedAt ∧ act.receivedAt ≤ old.lastTouchAt ∨
        act.receivedAt = event.receivedAt := by
      rw [List.mem_append, List.mem_singleton] at hact
      rcases hact with hact | rfl
      · exact .inl (h.between act hact hidentity)
      · exact .inr rfl
    split at hfirst <;> split at hlast <;> simp only [TouchPoint.mk.injEq] at hfirst hlast <;>
      simp only [Time] at * <;> omega

theorem Extremes.edit {acts : List Taken} {old : AttributionTouch} (h : Extremes acts old)
    (event : Event) (updatedAt : Time) : Extremes acts (Attribute.editTouch old event updatedAt) := by
  unfold Attribute.editTouch
  split <;> dsimp only <;> split <;> exact ⟨h.first, h.last, h.between⟩

theorem Extremes.append {acts : List Taken} {touch : AttributionTouch} (h : Extremes acts touch)
    {act : Taken} (hact : act.identityId = touch.identityId →
      touch.firstTouchAt ≤ act.receivedAt ∧ act.receivedAt ≤ touch.lastTouchAt) :
    Extremes (acts ++ [act]) touch := by
  refine ⟨List.mem_append_left _ h.first, List.mem_append_left _ h.last, fun other hother => ?_⟩
  rcases List.mem_append.mp hother with hother | hother
  · exact h.between other hother
  · rw [List.mem_singleton.mp hother]
    exact hact

theorem Extremes.of_mem {acts : List Taken} {act : Taken} {touch : AttributionTouch}
    (h : Extremes (acts ++ [act]) touch) (hact : act ∈ acts) : Extremes acts touch := by
  have hmem : ∀ other ∈ acts ++ [act], other ∈ acts := by
    intro other hother
    rcases List.mem_append.mp hother with hother | hother
    · exact hother
    · rwa [List.mem_singleton.mp hother]
  exact ⟨hmem _ h.first, hmem _ h.last, fun other hother => h.between other (List.mem_append_left _ hother)⟩

/-- The touch after an event has been acted on. -/
theorem Act.Touches.extremes {event : Event} {identityId : Uuid} {touch : AttributionTouch}
    {acts : List Taken} (h : Act.Touches L event identityId touch)
    (hidentity : touch.identityId = identityId) (hevent : event ∈ L.db .events)
    (htold : TouchesTold acts L.db)
    (hintime : ¬ Known acts ⟨identityId, event.id, event.receivedAt⟩ → event.isEdit = true →
      ∀ old ∈ L.db .attributionTouches, AttributionTouch.identityId old = identityId →
        AttributionTouch.firstTouchAt old ≤ event.receivedAt ∧
          event.receivedAt ≤ AttributionTouch.lastTouchAt old) :
    Extremes (acts ++ ([⟨identityId, event.id, event.receivedAt⟩].filter fun act =>
      ¬ Known acts act)) touch := by
  by_cases hknown : Known acts ⟨identityId, event.id, event.receivedAt⟩
  · rw [List.filter_cons_of_neg (by simpa using hknown), List.filter_nil, List.append_nil]
    obtain ⟨earlier, hearlier, hsameIdentity, hsameEvent⟩ := hknown
    obtain ⟨hnone, -⟩ | ⟨old, hold, holdIdentity, updatedAt, rfl⟩ := h
    · obtain ⟨old, hold, holdIdentity⟩ := htold.exists_touch earlier hearlier
      exact absurd (holdIdentity.trans hsameIdentity) (hnone old hold)
    · cases hedit : event.isEdit with
      | true =>
          rw [if_pos rfl]
          exact (htold.extremes old hold).edit event updatedAt
      | false =>
          -- the event is as it was when it was first acted on
          rw [if_neg (by simp)]
          refine ((htold.extremes old hold).extend event updatedAt).of_mem ?_
          have hreceived := htold.unedited earlier hearlier event hevent hsameEvent.symm hedit
          obtain ⟨earlierIdentity, earlierEvent, earlierAt⟩ := earlier
          dsimp only at hsameIdentity hsameEvent hreceived
          rwa [holdIdentity, hreceived, ← hsameIdentity, ← hsameEvent]
  · rw [List.filter_cons_of_pos (by simpa using hknown), List.filter_nil]
    obtain ⟨hnone, id, now, rfl⟩ | ⟨old, hold, holdIdentity, updatedAt, rfl⟩ := h
    · refine ⟨List.mem_append_right _ (List.mem_singleton_self _),
        List.mem_append_right _ (List.mem_singleton_self _), fun act hact hsame => ?_⟩
      rcases List.mem_append.mp hact with hact | hact
      · obtain ⟨old, hold, holdIdentity⟩ := htold.exists_touch act hact
        exact absurd (holdIdentity.trans hsame) (hnone old hold)
      · rw [List.mem_singleton.mp hact]
        exact ⟨Int.le_refl _, Int.le_refl _⟩
    · cases hedit : event.isEdit with
      | true =>
          rw [if_pos rfl]
          have hbetween := hintime hknown hedit old hold holdIdentity
          refine ((htold.extremes old hold).append fun _ => hbetween).edit event updatedAt
      | false =>
          rw [if_neg (by simp), ← holdIdentity]
          exact (htold.extremes old hold).extend event updatedAt

theorem Act.Acts.told {event : Event} {identityId : Uuid} {score : Option Score} {acts : List Taken}
    (h : Act.Acts app still L event identityId score ws) (hdistinct : L.db.Distinct)
    (happ : Applicable ws L.db) (htold : TouchesTold acts L.db) (hintime : InTime acts ⟨L.db, ws⟩) :
    TouchesTold (acts ++ (DemandSignal.takenIn ⟨L.db, ws⟩).filter fun act => ¬ Known acts act)
      (L.commit ws).db := by
  have htaken := h.takenIn hdistinct
  have hseen : event ∈ L.db .events := by
    obtain ⟨h⟩ := h
    exact h.seen
  have hevents : (L.commit ws).db .events = L.db .events :=
    commit_of_untouched (h.tables.ne (by decide))
  obtain ⟨lead, route, touch, hleaves⟩ := h.leaves hdistinct happ
  have hextremes := hleaves.touched.extremes hleaves.touchIdentity hseen htold
    fun hknown hedit old hold holdIdentity => by
      refine hintime ⟨identityId, event.id, event.receivedAt⟩ ?_ hknown event hseen rfl hedit old hold
        holdIdentity
      rw [htaken]
      exact List.mem_singleton_self _
  rw [htaken]
  refine ⟨fun other hother => ?_, fun act hact => ?_, fun act hact => ?_, fun act hact other => ?_⟩
  · obtain rfl | ⟨hold, hne⟩ := (hleaves.touches other).mp hother
    · exact hextremes
    · rw [hleaves.touchIdentity] at hne
      by_cases hknown : Known acts ⟨identityId, event.id, event.receivedAt⟩
      · rw [List.filter_cons_of_neg (by simpa using hknown), List.filter_nil, List.append_nil]
        exact htold.extremes other hold
      · rw [List.filter_cons_of_pos (by simpa using hknown), List.filter_nil]
        exact (htold.extremes other hold).append fun hsame => absurd hsame.symm hne
  · by_cases hsame : act.identityId = identityId
    · exact ⟨touch, hleaves.touches.new_mem, hleaves.touchIdentity.trans hsame.symm⟩
    · rcases List.mem_append.mp hact with hact | hact
      · obtain ⟨old, hold, holdIdentity⟩ := htold.exists_touch act hact
        refine ⟨old, hleaves.touches.mem_of_ne hold ?_, holdIdentity⟩
        rwa [holdIdentity, hleaves.touchIdentity]
      · rw [List.mem_singleton.mp (List.mem_of_mem_filter hact)] at hsame
        exact absurd rfl hsame
  · rcases List.mem_append.mp hact with hact | hact
    · exact (htold.exists_event act hact).foldl ws
    · rw [List.mem_singleton.mp (List.mem_of_mem_filter hact)]
      exact Db.Has.foldl (t := .events) ⟨event, hseen, rfl⟩ ws
  · rw [hevents]
    intro hother hid hedit
    rcases List.mem_append.mp hact with hact | hact
    · exact htold.unedited act hact other hother hid hedit
    · rw [List.mem_singleton.mp (List.mem_of_mem_filter hact)] at hid ⊢
      rw [hdistinct.eq_of_id (t := .events) hother hseen hid]

/-- A transaction that is no act. -/
theorem takenIn_of_not_acts (h : Transaction app still L ws)
    (hacts : ∀ event identityId score, ¬ Act.Acts app still L event identityId score ws) :
    takenIn ⟨L.db, ws⟩ = [] ∧
      (L.commit ws).db .attributionTouches = L.db .attributionTouches := by
  cases h with
  | acts h => exact absurd h (hacts _ _ _)
  | creates h =>
      exact ⟨takenIn_of_records h.records (by decide) (by decide) _,
        commit_of_untouched (h.tables.ne (by decide))⟩
  | edits h =>
      exact ⟨takenIn_of_records h.records (by decide) (by decide) _,
        commit_of_untouched (h.tables.ne (by decide))⟩
  | rejects h =>
      exact ⟨takenIn_of_records h.records (by decide) (by decide) _,
        commit_of_untouched (h.tables.ne (by decide))⟩
  | links h =>
      exact ⟨takenIn_of_records h.records (by decide) (by decide) _,
        commit_of_untouched (h.tables.ne (by decide))⟩
  | parks h =>
      exact ⟨takenIn_of_records h.records (by decide) (by decide) _,
        commit_of_untouched (h.tables.ne (by decide))⟩
  | resolves h =>
      exact ⟨takenIn_of_records h.records (by decide) (by decide) _,
        commit_of_untouched (h.tables.ne (by decide))⟩
  | interprets h =>
      exact ⟨takenIn_of_records h.records (by decide) (by decide) _,
        commit_of_untouched (h.tables.ne (by decide))⟩
  | scores h =>
      exact ⟨takenIn_of_records h.records (by decide) (by decide) _,
        commit_of_untouched (h.tables.ne (by decide))⟩
  | deadLetters h =>
      exact ⟨takenIn_of_records h.records (by decide) (by decide) _,
        commit_of_untouched (h.tables.ne (by decide))⟩
  | revives h =>
      exact ⟨takenIn_of_records h.records (by decide) (by decide) _,
        commit_of_untouched (h.tables.ne (by decide))⟩
  | escalates h =>
      exact ⟨takenIn_of_records h.records (by decide) (by decide) _,
        commit_of_untouched (h.tables.ne (by decide))⟩

/-- The touches are told by the log, if every commit of the log is in time. -/
theorem History.touchesTold (h : History app still L)
    (hintime : ∀ n (hn : n < L.log.length), InTime (firstActs (L.log.take n)) L.log[n]) :
    TouchesTold (firstActs L.log) L.db := by
  induction h with
  | empty =>
      exact ⟨fun _ htouch => absurd htouch List.not_mem_nil, fun _ hact => absurd hact List.not_mem_nil,
        fun _ hact => absurd hact List.not_mem_nil, fun _ hact => absurd hact List.not_mem_nil⟩
  | @commit L ws h htransaction happ ih =>
      have htold : TouchesTold (firstActs L.log) L.db := by
        refine ih fun n hn => ?_
        have hlast := hintime n (by simp [Ledger.commit]; omega)
        simp only [Ledger.commit] at hlast
        rwa [List.take_append_of_le_length (by omega), List.getElem_append_left hn] at hlast
      have hlast : InTime (firstActs L.log) ⟨L.db, ws⟩ := by
        have hlast := hintime L.log.length (by simp [Ledger.commit])
        simpa [Ledger.commit] using hlast
      rw [firstActs_commit]
      by_cases hacts : ∃ event identityId score, Act.Acts app still L event identityId score ws
      · obtain ⟨event, identityId, score, hacts⟩ := hacts
        exact hacts.told h.distinct happ htold hlast
      · obtain ⟨htaken, htouches⟩ := takenIn_of_not_acts htransaction fun event identityId score hact =>
          hacts ⟨event, identityId, score, hact⟩
        rw [htaken, List.filter_nil, List.append_nil]
        exact htold.of_events htouches (htransaction.events_cases h.distinct happ)

end DemandSignal
