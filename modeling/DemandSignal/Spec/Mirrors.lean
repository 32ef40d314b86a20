import DemandSignal.Spec.Worklist

/-!
# The events a touch names

A touch copies the source and the campaign of the events it names. An edit of such an event makes the
copies stale, and acting on it refreshes them, since its touch is that of the identity it is linked to.
-/

namespace DemandSignal

open Txn Resolve

variable {app : App} {L L' : Ledger Db Write} {ws : List Write} {stale : Option Uuid} {db db' : Db}
  {event : Event} {identityId : Uuid}

/-! ### Touches and their events -/

/-- The event that one end of a touch names is as the touch has it. -/
def Db.Mirrors (db : Db) (point : TouchPoint) : Prop :=
  ∃ event ∈ db .events, Event.id event = point.eventId ∧ Event.source event = point.source ∧
    Event.campaignId event = point.campaignId

/-- A touch is in order, and up to a stale event both ends are as they should be. -/
structure Db.MirrorsTouch (db : Db) (stale : Option Uuid) (touch : AttributionTouch) : Prop where
  ordered : touch.firstTouchAt ≤ touch.lastTouchAt
  first : stale ≠ some touch.firstTouchEventId → db.Mirrors touch.first
  last : stale ≠ some touch.lastTouchEventId → db.Mirrors touch.last

def Db.Mirrored (db : Db) (stale : Option Uuid) : Prop :=
  ∀ touch ∈ db .attributionTouches, db.MirrorsTouch stale touch

theorem Db.mirrors_point (hevent : event ∈ db .events) : db.Mirrors event.point :=
  ⟨event, hevent, rfl, rfl, rfl⟩

/-- The events that are not stale stay. -/
theorem Db.Mirrored.of_events (h : db.Mirrored none)
    (htouches : db' .attributionTouches = db .attributionTouches)
    (hevents : ∀ event ∈ db .events, stale ≠ some (Event.id event) → event ∈ db' .events) :
    db'.Mirrored stale := by
  have hmirrors : ∀ point, stale ≠ some point.eventId → db.Mirrors point → db'.Mirrors point := by
    rintro point hfresh ⟨event, hevent, hid, hcopied⟩
    exact ⟨event, hevents event hevent (hid ▸ hfresh), hid, hcopied⟩
  intro touch htouch
  rw [htouches] at htouch
  obtain ⟨hordered, hfirst, hlast⟩ := h touch htouch
  exact ⟨hordered, fun hfresh => hmirrors _ hfresh (hfirst (Option.some_ne_none _).symm),
    fun hfresh => hmirrors _ hfresh (hlast (Option.some_ne_none _).symm)⟩

theorem Db.Mirrored.of_eq (h : db.Mirrored stale)
    (htouches : db' .attributionTouches = db .attributionTouches)
    (hevents : db' .events = db .events) : db'.Mirrored stale := by
  intro touch htouch
  rw [htouches] at htouch
  obtain ⟨hordered, hfirst, hlast⟩ := h touch htouch
  unfold Db.Mirrors at hfirst hlast
  rw [← hevents] at hfirst hlast
  exact ⟨hordered, hfirst, hlast⟩

/-- A transaction that names neither table. -/
theorem Db.Mirrored.of_names {ts : List Table} (h : L.db.Mirrored stale) (hnames : Names ws ts)
    (htouches : .attributionTouches ∉ ts) (hevents : .events ∉ ts) :
    (L.commit ws).db.Mirrored stale :=
  h.of_eq (commit_of_untouched (hnames.ne htouches)) (commit_of_untouched (hnames.ne hevents))

/-- Nothing copies an event without a link. -/
theorem Db.Mirrored.of_unlinked (h : db.Mirrored (some event.id)) (howned : db.Owned)
    (hunlinked : Unlinked event.id db) : db.Mirrored none := by
  have hnot : ∀ owner, ¬ db.Attributed event.id owner := by
    intro owner hattributed
    obtain ⟨link, hlink, hevent, -⟩ := howned _ _ hattributed
    exact hunlinked link hlink hevent
  intro touch htouch
  obtain ⟨hordered, hfirst, hlast⟩ := h touch htouch
  refine ⟨hordered, fun _ => hfirst fun hstale => ?_, fun _ => hlast fun hstale => ?_⟩
  · exact hnot touch.identityId (.firstTouch htouch rfl (Option.some_injective _ hstale).symm)
  · exact hnot touch.identityId (.lastTouch htouch rfl (Option.some_injective _ hstale).symm)

/-! ### Acting on an event -/

theorem editTouch_first (touch : AttributionTouch) (event : Event) (updatedAt : Time) :
    (Attribute.editTouch touch event updatedAt).first =
      if touch.firstTouchEventId = event.id then
        ⟨event.id, touch.firstTouchAt, event.source, event.campaignId⟩ else touch.first := by
  by_cases hfirst : touch.firstTouchEventId = event.id
  · by_cases hlast : touch.lastTouchEventId = event.id <;>
      simp [Attribute.editTouch, AttributionTouch.first, hfirst, hlast]
  · by_cases hlast : touch.lastTouchEventId = event.id <;>
      simp [Attribute.editTouch, AttributionTouch.first, hfirst, hlast]

theorem editTouch_last (touch : AttributionTouch) (event : Event) (updatedAt : Time) :
    (Attribute.editTouch touch event updatedAt).last =
      if touch.lastTouchEventId = event.id then
        ⟨event.id, touch.lastTouchAt, event.source, event.campaignId⟩ else touch.last := by
  by_cases hfirst : touch.firstTouchEventId = event.id
  · by_cases hlast : touch.lastTouchEventId = event.id <;>
      simp [Attribute.editTouch, AttributionTouch.last, hfirst, hlast]
  · by_cases hlast : touch.lastTouchEventId = event.id <;>
      simp [Attribute.editTouch, AttributionTouch.last, hfirst, hlast]

namespace Db.MirrorsTouch

variable {old : AttributionTouch}

/-- An edit refreshes the copies of the stale event. -/
theorem edit (h : db.MirrorsTouch stale old) (hevent : event ∈ db .events)
    (hstale : ∀ eventId, stale = some eventId → eventId = event.id) (updatedAt : Time) :
    db.MirrorsTouch none (Attribute.editTouch old event updatedAt) := by
  have hfirst := editTouch_first old event updatedAt
  have hlast := editTouch_last old event updatedAt
  refine ⟨?_, fun _ => ?_, fun _ => ?_⟩
  · have hfirstAt : (Attribute.editTouch old event updatedAt).firstTouchAt = old.firstTouchAt := by
      refine (congrArg TouchPoint.receivedAt hfirst).trans ?_
      split <;> rfl
    have hlastAt : (Attribute.editTouch old event updatedAt).lastTouchAt = old.lastTouchAt := by
      refine (congrArg TouchPoint.receivedAt hlast).trans ?_
      split <;> rfl
    rw [hfirstAt, hlastAt]
    exact h.ordered
  · rw [hfirst]
    split
    · exact ⟨event, hevent, rfl, rfl, rfl⟩
    · next hother => exact h.first fun hsame => hother (hstale _ hsame)
  · rw [hlast]
    split
    · exact ⟨event, hevent, rfl, rfl, rfl⟩
    · next hother => exact h.last fun hsame => hother (hstale _ hsame)

theorem extend (h : db.MirrorsTouch none old) (hevent : event ∈ db .events) (updatedAt : Time) :
    db.MirrorsTouch none (Attribute.extendTouch old event updatedAt) := by
  have hfirst := extendTouch_first old event updatedAt
  have hlast := extendTouch_last old event updatedAt
  have hordered := h.ordered
  refine ⟨?_, fun _ => ?_, fun _ => ?_⟩
  · have hfirstAt := congrArg TouchPoint.receivedAt hfirst
    have hlastAt := congrArg TouchPoint.receivedAt hlast
    simp only [AttributionTouch.first, AttributionTouch.last] at hfirstAt hlastAt
    rw [hfirstAt, hlastAt]
    split <;> split <;> simp only [Event.point, Time] at * <;> omega
  · rw [hfirst]
    split
    · exact mirrors_point hevent
    · exact h.first (Option.some_ne_none _).symm
  · rw [hlast]
    split
    · exact mirrors_point hevent
    · exact h.last (Option.some_ne_none _).symm

theorem of_new (hevent : event ∈ db .events) (identityId id : Uuid) (now : Time) :
    db.MirrorsTouch none (Attribute.newTouch event identityId id now) :=
  ⟨le_rfl, fun _ => mirrors_point hevent, fun _ => mirrors_point hevent⟩

end Db.MirrorsTouch

/-- An event that is stale is the edited one. -/
def StaleEdit (stale : Option Uuid) (event : Event) : Prop :=
  stale = none ∨ stale = some event.id ∧ event.isEdit = true

theorem Act.Touches.mirrors {touch : AttributionTouch} (h : Act.Touches L event identityId touch)
    (hevent : event ∈ L.db .events) (hstale : StaleEdit stale event)
    (hmirrored : L.db.Mirrored stale) : L.db.MirrorsTouch none touch := by
  obtain ⟨-, id, now, rfl⟩ | ⟨old, hold, -, updatedAt, rfl⟩ := h
  · exact .of_new hevent identityId id now
  · have hmirrors := hmirrored old hold
    obtain rfl | ⟨rfl, hedit⟩ := hstale
    · split
      · exact hmirrors.edit hevent (fun _ hnone => by cases hnone) updatedAt
      · exact hmirrors.extend hevent updatedAt
    · rw [if_pos hedit]
      exact hmirrors.edit hevent (fun _ hsome => (Option.some_injective _ hsome).symm) updatedAt

/-- The copies of an event are on the touch of the identity it is linked to. -/
theorem Act.Acts.mirrored {score : Option Score}
    (h : Act.Acts app still L event identityId score ws) (hdistinct : L.db.Distinct)
    (happ : Applicable ws L.db) (howned : L.db.Owned) (hstale : StaleEdit stale event)
    (hmirrored : L.db.Mirrored stale) : (L.commit ws).db.Mirrored none := by
  obtain ⟨lead, route, touch, hleaves⟩ := h.leaves hdistinct happ
  have hseen : event ∈ L.db .events ∧ Linked event.id identityId L.db := by
    obtain @⟨_, _, _, _, _, _, _, _, _, h⟩ := h
    exact ⟨h.seen, h.linked.resolve_left not_shared_still⟩
  have hevents : (L.commit ws).db .events = L.db .events :=
    commit_of_untouched (h.tables.ne (by decide))
  have hsame : ∀ other, L.db.MirrorsTouch none other → (L.commit ws).db.MirrorsTouch none other := by
    rintro other ⟨hordered, hfirst, hlast⟩
    unfold Db.Mirrors at hfirst hlast
    rw [← hevents] at hfirst hlast
    exact ⟨hordered, hfirst, hlast⟩
  intro other hother
  refine hsame other ?_
  obtain rfl | ⟨hold, hne⟩ := (hleaves.touches other).mp hother
  · exact hleaves.touched.mirrors hseen.1 hstale hmirrored
  · have hforeign : ∀ eventId, L.db.Attributed eventId (AttributionTouch.identityId other) →
        stale ≠ some eventId := by
      rintro eventId hattributed hsome
      obtain rfl | ⟨rfl, -⟩ := hstale
      · cases hsome
      · obtain rfl := Option.some_injective _ hsome
        obtain ⟨link, hlink, hlinkEvent, hidentity⟩ := howned _ _ hattributed
        obtain ⟨held, hheld, hheldEvent, hheldIdentity⟩ := hseen.2
        rw [eq_of_eventId hdistinct hlink hheld (hlinkEvent.trans hheldEvent.symm),
          hheldIdentity] at hidentity
        rw [hleaves.touchIdentity] at hne
        exact hne hidentity.symm
    obtain ⟨hordered, hfirst, hlast⟩ := hmirrored other hold
    exact ⟨hordered, fun _ => hfirst (hforeign _ (.firstTouch hold rfl rfl)),
      fun _ => hlast (hforeign _ (.lastTouch hold rfl rfl))⟩

/-! ### A request -/

/-- A pipeline acts, or leaves the events and the touches alone. -/
theorem Piped.mirrored {heard : List Reply} {r : Except Error (Option Pipeline.Outcome)}
    (h : Piped app L event identityId heard r L') (hhistory : History app still L)
    (hreviewed : L.db.Reviewed) (howned : L.db.Owned) (hstale : StaleEdit stale event)
    (hmirrored : L.db.Mirrored stale) :
    L'.db.Mirrored none ∨ L'.db.Mirrored stale ∧ acts L'.log = acts L.log ∧
      L'.db .events = L.db .events := by
  cases h with
  | acted hfields hinterprets happ₁ hcurrent heventId hscores happ₂ hacts happ₃ =>
      have h₁ := inOrder_of_names hreviewed howned hinterprets.tables (by decide) (by decide)
        (by decide) (by decide)
      have h₂ := inOrder_of_names h₁.reviewed h₁.owned hscores.tables (by decide) (by decide)
        (by decide) (by decide)
      have hhistory₂ := (hhistory.commit (.interprets hinterprets) happ₁).commit (.scores hscores) happ₂
      have hmirrored₂ := (hmirrored.of_names hinterprets.tables (by decide) (by decide)).of_names
        hscores.tables (by decide) (by decide)
      exact .inl (hacts.acts.mirrored hhistory₂.distinct happ₃ h₂.owned hstale hmirrored₂)
  | dead herror hdead happ =>
      exact .inr ⟨hmirrored.of_names hdead.tables (by decide) (by decide),
        acts_of_records hdead.records (by decide) (by decide),
        commit_of_untouched (hdead.tables.ne (by decide))⟩
  | alreadyDead => exact .inr ⟨hmirrored, rfl, rfl⟩
  | noText => exact .inr ⟨hmirrored, rfl, rfl⟩
  | unstorable => exact .inr ⟨hmirrored, rfl, rfl⟩
  | badMessage => exact .inr ⟨hmirrored, rfl, rfl⟩
  | noScore hfields hinterprets =>
      exact .inr ⟨hmirrored.of_names hinterprets.tables (by decide) (by decide),
        acts_of_records hinterprets.records (by decide) (by decide),
        commit_of_untouched (hinterprets.tables.ne (by decide))⟩

/-- A pipeline of an event whose copies are as they should be keeps them so. -/
theorem Piped.mirrored_none {heard : List Reply} {r : Except Error (Option Pipeline.Outcome)}
    (h : Piped app L event identityId heard r L') (hhistory : History app still L)
    (hreviewed : L.db.Reviewed) (howned : L.db.Owned) (hmirrored : L.db.Mirrored none) :
    L'.db.Mirrored none :=
  (h.mirrored hhistory hreviewed howned (.inl rfl) hmirrored).elim id And.left

/-- The version of an event that a request accepts is new. -/
theorem Accepted.not_mem {model : EventIn} {payload : Json.Fields} {status : Ingest.IngestStatus}
    (h : Accepted app L model payload event status L') (hdistinct : L.db.Distinct) :
    event ∉ L.db .events := by
  intro hold
  cases h.row hdistinct with
  | created haccept hnew hid => exact hid ⟨_, hold, rfl⟩
  | @edited existing hexisting hedits =>
      have hsame : Ingest.edited app existing model payload = existing :=
        hdistinct.eq_of_id (t := .events) hold hexisting rfl
      exact hedits.payloadHash (congrArg Event.payloadHash hsame).symm

/-- Only the accepted event is stale, and only if it is edited. -/
theorem Accepted.mirrored {model : EventIn} {payload : Json.Fields} {status : Ingest.IngestStatus}
    (h : Accepted app L model payload event status L') (hdistinct : L.db.Distinct)
    (hmirrored : L.db.Mirrored none) :
    ∃ stale, StaleEdit stale event ∧ L'.db.Mirrored stale := by
  have hsets := (h.sets hdistinct).2
  have hrow := h.row hdistinct
  cases h with
  | created hcreates happ hevent =>
      refine ⟨none, .inl rfl, hmirrored.of_events (commit_of_untouched (hcreates.tables.ne (by decide)))
        fun old hold _ => ?_⟩
      obtain ⟨row, -, hrows, -⟩ := hcreates.rows (L := L)
      rw [hrows]
      exact List.mem_append_left _ hold
  | edited hedits happ hevent hid =>
      have hedit : event.isEdit = true := by
        cases hrow
        rfl
      refine ⟨some event.id, .inr ⟨rfl, hedit⟩,
        hmirrored.of_events (commit_of_untouched (hedits.tables.ne (by decide)))
        fun old hold hfresh => hsets.mem_of_ne hold fun hsame => hfresh (congrArg some hsame.symm)⟩

/-- An event is accepted and has its identity, and is not acted on: its pipeline has failed. -/
def Abandons (L L' : Ledger Db Write) : Prop :=
  ∃ event ∈ L'.db .events, event ∉ L.db .events ∧ ¬ Unlinked (Event.id event) L'.db ∧
    ∀ act ∈ (acts L'.log).drop (acts L.log).length, act.eventId ≠ Event.id event

instance (eventId : Uuid) (db : Db) : Decidable (Unlinked eventId db) := by
  unfold Unlinked
  infer_instance

instance (L L' : Ledger Db Write) : Decidable (Abandons L L') := by
  unfold Abandons
  infer_instance

theorem Posted.mirrored {heard : List Reply} {model : EventIn} {payload : Json.Fields}
    {r : Except Error Events.Answer} (h : Posted app L heard model payload r L')
    (hhistory : History app still L) (hreviewed : L.db.Reviewed) (howned : L.db.Owned)
    (hminds : ∀ existing ∈ L.db .events, AwaitsReview (Event.id existing) L.db →
      Edits app model payload existing → LeavesToReviewer app L.db model.identity)
    (hacted : ¬ Abandons L L') (hmirrored : L.db.Mirrored none) : L'.db.Mirrored none := by
  cases h with
  | duplicate => exact hmirrored
  | unacceptable => exact hmirrored
  | parked haccepted hparks happ =>
      obtain ⟨stale, hstale, hmirrored₁⟩ := haccepted.mirrored hhistory.distinct hmirrored
      refine Db.Mirrored.of_names ?_ hparks.tables (by decide) (by decide)
      obtain rfl | ⟨rfl, -⟩ := hstale
      · exact hmirrored₁
      · refine hmirrored₁.of_unlinked (haccepted.inOrder hreviewed howned).owned ?_
        obtain ⟨-, hunlinked⟩ := hparks
        exact hunlinked
  | @piped event status L₁ L₂ identityId r L' haccepted hidentified hpiped =>
      have hhistory₁ := haccepted.history hhistory
      have h₁ := haccepted.inOrder hreviewed howned
      obtain ⟨stale, hstale, hmirrored₁⟩ := haccepted.mirrored hhistory.distinct hmirrored
      obtain ⟨h₂, hmirrored₂, hlinked⟩ : InOrder L₁ L₂ ∧ L₂.db.Mirrored stale ∧
          Linked event.id identityId L₂.db := by
        cases hidentified with
        | found hlinked => exact ⟨⟨h₁.reviewed, h₁.owned, fun _ hlink => hlink⟩, hmirrored₁, hlinked⟩
        | linked hlinks =>
            exact ⟨hlinks.inOrder hhistory₁.distinct h₁.reviewed h₁.owned
                (haccepted.not_awaits hhistory.distinct hreviewed hminds hlinks),
              hmirrored₁.of_names hlinks.tables (by decide) (by decide),
              (hlinks.linked lawful_still).resolve_left not_shared_still⟩
      have hhistory₂ := hidentified.history hhistory₁
      obtain hdone | ⟨-, hacts, hevents⟩ :=
        hpiped.mirrored hhistory₂ h₂.reviewed h₂.owned hstale hmirrored₂
      · exact hdone
      · refine absurd ⟨event, ?_, haccepted.not_mem hhistory.distinct, ?_, ?_⟩ hacted
        · rw [hevents, hidentified.events]
          exact haccepted.event_mem
        · intro hunlinked
          obtain ⟨link, hlink, hevent, -⟩ :=
            (hpiped.inOrder hhistory₂ h₂.reviewed h₂.owned).stay.linked hlinked
          exact hunlinked link hlink hevent
        · rw [hacts, hidentified.dead.1, haccepted.acts, List.drop_length]
          exact fun _ hact => absurd hact List.not_mem_nil

theorem Visited.mirrored {heard : List Reply} {request : Request} {r : Except Error Response}
    (h : Visited app L heard request r L') (hhistory : History app still L)
    (hminds : MindsReviews app L.db request) (hreviewed : L.db.Reviewed) (howned : L.db.Owned)
    (hacted : ¬ Abandons L L') (hmirrored : L.db.Mirrored none) : L'.db.Mirrored none := by
  cases h with
  | posted hbody hvalid hposted =>
      obtain ⟨⟨json, wf⟩, rfl, rfl⟩ := Option.map_eq_some_iff.mp hbody
      simp only [MindsReviews, hvalid] at hminds
      exact hposted.mirrored hhistory hreviewed howned hminds hacted hmirrored
  | rejected hrefusal hrefuses =>
      have hrejects := hrefuses.rejects
      obtain ⟨row, -, hrows, -⟩ := hrejects.rows (L := L)
      refine hmirrored.of_events (commit_of_untouched (hrejects.tables.ne (by decide)))
        fun old hold _ => ?_
      rw [hrows]
      exact List.mem_append_left _ hold
  | malformed => exact hmirrored
  | unrecorded => exact hmirrored
  | quiet => exact hmirrored
  | reviewed hdecides hresolves =>
      exact hmirrored.of_names hresolves.tables (by decide) (by decide)
  | resumed hdecides hresolves happ hevent heventId hpiped =>
      have h₁ := hresolves.inOrder hhistory.distinct hreviewed howned
      exact hpiped.mirrored_none (hhistory.commit (.resolves hresolves) happ) h₁.reviewed h₁.owned
        (hmirrored.of_names hresolves.tables (by decide) (by decide))
  | replayed hevent hlinked hdlq heventId hopen hfailed hpiped =>
      exact hpiped.mirrored_none hhistory hreviewed howned hmirrored
  | revived hevent hlinked hpiped hrevives =>
      exact (hpiped.mirrored_none hhistory hreviewed howned hmirrored).of_names hrevives.tables
        (by decide) (by decide)
  | simulated hdead => exact hmirrored.of_names hdead.tables (by decide) (by decide)
  | escalated hreads hescalates =>
      exact hmirrored.of_names hescalates.tables (by decide) (by decide)

end DemandSignal
