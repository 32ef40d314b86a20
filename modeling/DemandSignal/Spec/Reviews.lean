import DemandSignal.Spec.Alone

/-!
# Reviews and links

An event that awaits review has no link, one whose review is resolved has one, and what carries the
id of an event belongs to the identity the event is linked to. Each transaction keeps this, and no
link changes; the one exception is a resolution that links an event behind its reviewer's back.
-/

namespace DemandSignal

open Txn Resolve

variable {app : App} {L L' : Ledger Db Write} {ws : List Write}

/-- A reviewer has yet to decide on the event. -/
def AwaitsReview (eventId : Uuid) (db : Db) : Prop :=
  ∃ review ∈ db .manualReviewQueue, ManualReviewQueue.eventId review = eventId ∧
    ManualReviewQueue.status review = .pending

instance (eventId : Uuid) (db : Db) : Decidable (AwaitsReview eventId db) := by
  unfold AwaitsReview
  infer_instance

/-- An event is linked or awaits review. -/
structure Db.Reviewed (db : Db) : Prop where
  pending : ∀ eventId, AwaitsReview eventId db → Unlinked eventId db
  resolved : ∀ review ∈ db .manualReviewQueue, ManualReviewQueue.status review = .resolved →
    ∃ identityId, Linked (ManualReviewQueue.eventId review) identityId db
  known : ∀ review ∈ db .manualReviewQueue, db.Has .events (ManualReviewQueue.eventId review)

/-- A lead or a touch of the identity carries the id of the event. -/
inductive Db.Attributed (db : Db) (eventId identityId : Uuid) : Prop
  | lead {lead : Lead} (hlead : lead ∈ db .leads) (hidentity : lead.identityId = identityId)
      (hevent : lead.sourceEventId = eventId)
  | firstTouch {touch : AttributionTouch} (htouch : touch ∈ db .attributionTouches)
      (hidentity : touch.identityId = identityId) (hevent : touch.firstTouchEventId = eventId)
  | lastTouch {touch : AttributionTouch} (htouch : touch ∈ db .attributionTouches)
      (hidentity : touch.identityId = identityId) (hevent : touch.lastTouchEventId = eventId)

def Db.Owned (db : Db) : Prop :=
  ∀ eventId identityId, db.Attributed eventId identityId → Linked eventId identityId db

theorem eq_of_eventId {db : Db} (h : db.Distinct) {link link' : IdentityLink}
    (hlink : link ∈ db .identityLinks) (hlink' : link' ∈ db .identityLinks)
    (hevent : link.eventId = link'.eventId) : link = link' := by
  have hkey : Key.linkEvent link.eventId ∈ Row.indexed (t := .identityLinks) link' := by
    rw [hevent]
    exact List.mem_singleton_self _
  exact h.eq_of_indexed (t := .identityLinks) hlink hlink' (List.mem_singleton_self _) hkey

theorem Db.Reviewed.empty : Db.Reviewed {} :=
  ⟨fun _ ⟨_, hreview, _⟩ => absurd hreview List.not_mem_nil,
    fun _ hreview => absurd hreview List.not_mem_nil,
    fun _ hreview => absurd hreview List.not_mem_nil⟩

theorem Db.Owned.empty : Db.Owned {} := by
  rintro _ _ (⟨hmem, -, -⟩ | ⟨hmem, -, -⟩ | ⟨hmem, -, -⟩) <;> cases hmem

/-- Every link is still there, as it was. -/
def LinksStay (db db' : Db) : Prop :=
  ∀ link ∈ db .identityLinks, link ∈ db' .identityLinks

theorem LinksStay.trans {db db' db'' : Db} (h : LinksStay db db') (h' : LinksStay db' db'') :
    LinksStay db db'' := fun link hlink => h' link (h link hlink)

theorem LinksStay.linked {db db' : Db} (h : LinksStay db db') {eventId identityId : Uuid}
    (hlinked : Linked eventId identityId db) : Linked eventId identityId db' := by
  obtain ⟨link, hlink, hfits⟩ := hlinked
  exact ⟨link, h link hlink, hfits⟩

/-- Reviews and links are in order, and the links of before stay. -/
structure InOrder (L L' : Ledger Db Write) : Prop where
  reviewed : L'.db.Reviewed
  owned : L'.db.Owned
  stay : LinksStay L.db L'.db

theorem Db.Reviewed.of_eq {db db' : Db} (h : db.Reviewed)
    (hreviews : db' .manualReviewQueue = db .manualReviewQueue)
    (hlinks : db' .identityLinks = db .identityLinks)
    (hevents : ∀ u, db.Has .events u → db'.Has .events u) : db'.Reviewed := by
  refine ⟨fun eventId hawaits => ?_, fun review hreview hstatus => ?_, fun review hreview => ?_⟩
  · unfold AwaitsReview at hawaits
    rw [hreviews] at hawaits
    unfold Unlinked
    rw [hlinks]
    exact h.pending eventId hawaits
  · rw [hreviews] at hreview
    unfold Linked
    rw [hlinks]
    exact h.resolved review hreview hstatus
  · rw [hreviews] at hreview
    exact hevents _ (h.known review hreview)

theorem Db.Owned.of_eq {db db' : Db} (h : db.Owned) (hstay : LinksStay db db')
    (hleads : db' .leads = db .leads)
    (htouches : db' .attributionTouches = db .attributionTouches) : db'.Owned := by
  intro eventId identityId hattributed
  refine hstay.linked (h eventId identityId ?_)
  cases hattributed with
  | lead hlead hidentity hevent =>
      rw [hleads] at hlead
      exact .lead hlead hidentity hevent
  | firstTouch htouch hidentity hevent =>
      rw [htouches] at htouch
      exact .firstTouch htouch hidentity hevent
  | lastTouch htouch hidentity hevent =>
      rw [htouches] at htouch
      exact .lastTouch htouch hidentity hevent

/-- A transaction that names none of the tables. -/
theorem inOrder_of_names {ts : List Table} (hreviewed : L.db.Reviewed) (howned : L.db.Owned)
    (hnames : Names ws ts) (hreviews : .manualReviewQueue ∉ ts) (hlinks : .identityLinks ∉ ts)
    (hleads : .leads ∉ ts) (htouches : .attributionTouches ∉ ts) : InOrder L (L.commit ws) := by
  have hsame : (L.commit ws).db .identityLinks = L.db .identityLinks :=
    commit_of_untouched (hnames.ne hlinks)
  have hstay : LinksStay L.db (L.commit ws).db := fun link hlink => by rwa [hsame]
  exact ⟨hreviewed.of_eq (commit_of_untouched (hnames.ne hreviews)) hsame fun _ hu => hu.foldl ws,
    howned.of_eq hstay (commit_of_untouched (hnames.ne hleads))
      (commit_of_untouched (hnames.ne htouches)), hstay⟩

/-- A new link of an event that has none. -/
theorem linksStay_of_sets {link : IdentityLink} (hunlinked : Unlinked link.eventId L.db)
    (hsets : Sets IdentityLink.eventId link (L.db .identityLinks) ((L.commit ws).db .identityLinks)) :
    LinksStay L.db (L.commit ws).db :=
  fun old hold => hsets.mem_of_ne hold (hunlinked old hold)

/-- A resolution that links an event nobody is asked about. -/
theorem Resolve.Links.inOrder {event : Event} {identityId : Uuid}
    (h : Links app still L event identityId ws) (hdistinct : L.db.Distinct)
    (hreviewed : L.db.Reviewed) (howned : L.db.Owned) (hawaits : ¬ AwaitsReview event.id L.db) :
    InOrder L (L.commit ws) := by
  have hunlinked : Unlinked event.id L.db := by
    cases h with
    | found _ hunlinked => exact hunlinked
    | minted _ hunlinked => exact hunlinked
  obtain ⟨matchRule, hlinks⟩ := h.linksEvent
  obtain ⟨link, hevent, -, hsets⟩ := hlinks.sets hdistinct
  have hstay : LinksStay L.db (L.commit ws).db :=
    linksStay_of_sets (by rwa [hevent]) hsets
  have hreviews : (L.commit ws).db .manualReviewQueue = L.db .manualReviewQueue :=
    commit_of_untouched (h.tables.ne (by decide))
  refine ⟨⟨fun eventId hpending => ?_, fun review hreview hstatus => ?_, fun review hreview => ?_⟩,
    howned.of_eq hstay (commit_of_untouched (h.tables.ne (by decide)))
      (commit_of_untouched (h.tables.ne (by decide))), hstay⟩
  · unfold AwaitsReview at hpending
    rw [hreviews] at hpending
    intro other hother hotherEvent
    have hne : IdentityLink.eventId other ≠ link.eventId := by
      intro heq
      rw [hevent, hotherEvent] at heq
      subst heq
      exact hawaits hpending
    exact hreviewed.pending eventId hpending other (hsets.of_ne hother hne) hotherEvent
  · rw [hreviews] at hreview
    exact (hreviewed.resolved review hreview hstatus).imp fun _ => hstay.linked
  · rw [hreviews] at hreview
    exact (hreviewed.known review hreview).foldl ws

theorem Resolve.Parks.inOrder {event : Event} (h : Parks app still L event ws)
    (hdistinct : L.db.Distinct) (hreviewed : L.db.Reviewed) (howned : L.db.Owned) :
    InOrder L (L.commit ws) := by
  obtain ⟨entry, hevent, hentry, hsets⟩ := h.sets hdistinct
  have hseen : event ∈ L.db .events ∧ Unlinked event.id L.db := by
    obtain ⟨hseen, hunlinked, -, -⟩ := h
    exact ⟨hseen, hunlinked⟩
  have hlinks : (L.commit ws).db .identityLinks = L.db .identityLinks :=
    commit_of_untouched (h.tables.ne (by decide))
  have hstay : LinksStay L.db (L.commit ws).db := fun link hlink => by rwa [hlinks]
  have hstatus : entry.status = .pending := by
    obtain ⟨-, hnew⟩ | ⟨review, hreview, hreviewEvent, hsame⟩ := hentry
    · exact hnew
    · cases hcase : entry.status with
      | pending => rfl
      | resolved =>
          rw [hcase] at hsame
          obtain ⟨identityId, link, hlink, hlinkEvent, -⟩ :=
            hreviewed.resolved review hreview hsame.symm
          exact absurd (hlinkEvent.trans hreviewEvent) (hseen.2 link hlink)
  refine ⟨⟨fun eventId hpending => ?_, fun review hreview hresolved => ?_, fun review hreview => ?_⟩,
    howned.of_eq hstay (commit_of_untouched (h.tables.ne (by decide)))
      (commit_of_untouched (h.tables.ne (by decide))), hstay⟩
  · unfold Unlinked
    rw [hlinks]
    by_cases heq : eventId = event.id
    · rw [heq]
      exact hseen.2
    · obtain ⟨review, hreview, hreviewEvent, hpending⟩ := hpending
      refine hreviewed.pending eventId ⟨review, hsets.of_ne hreview ?_, hreviewEvent, hpending⟩
      rw [hevent, hreviewEvent]
      exact heq
  · obtain rfl | ⟨hold, -⟩ := (hsets review).mp hreview
    · rw [hstatus] at hresolved
      cases hresolved
    · exact (hreviewed.resolved review hold hresolved).imp fun _ => hstay.linked
  · obtain rfl | ⟨hold, -⟩ := (hsets review).mp hreview
    · rw [hevent]
      exact Db.Has.foldl (t := .events) ⟨event, hseen.1, rfl⟩ ws
    · exact (hreviewed.known review hold).foldl ws

theorem Resolve.Resolves.inOrder {decision : String} {review : ManualReviewQueue}
    {identityId : Uuid} (h : Resolves still L decision review identityId ws)
    (hdistinct : L.db.Distinct) (hreviewed : L.db.Reviewed) (howned : L.db.Owned) :
    InOrder L (L.commit ws) := by
  obtain ⟨resolvedAt, hreviews⟩ := h.sets hdistinct
  obtain ⟨link, hevent, hidentity, hlinks⟩ := h.linksEvent.sets hdistinct
  obtain ⟨hmem, hstatus⟩ := h.pending
  have hunlinked := hreviewed.pending review.eventId ⟨review, hmem, rfl, hstatus⟩
  have hstay : LinksStay L.db (L.commit ws).db := linksStay_of_sets (by rwa [hevent]) hlinks
  refine ⟨⟨fun eventId hpending => ?_, fun other hother hresolved => ?_, fun other hother => ?_⟩,
    howned.of_eq hstay (commit_of_untouched (h.tables.ne (by decide)))
      (commit_of_untouched (h.tables.ne (by decide))), hstay⟩
  · obtain ⟨other, hother, hotherEvent, hpending⟩ := hpending
    obtain rfl | ⟨hold, hne⟩ := (hreviews other).mp hother
    · cases hpending
    · intro old hold' holdEvent
      have hneEvent : IdentityLink.eventId old ≠ link.eventId := by
        rw [holdEvent, hevent, ← hotherEvent]
        exact hne
      exact hreviewed.pending eventId ⟨other, hold, hotherEvent, hpending⟩ old
        (hlinks.of_ne hold' hneEvent) holdEvent
  · obtain rfl | ⟨hold, -⟩ := (hreviews other).mp hother
    · exact ⟨identityId, link, hlinks.new_mem, hevent, hidentity⟩
    · exact (hreviewed.resolved other hold hresolved).imp fun _ => hstay.linked
  · obtain rfl | ⟨hold, -⟩ := (hreviews other).mp hother
    · exact (hreviewed.known review hmem).foldl ws
    · exact (hreviewed.known other hold).foldl ws

theorem Act.Acts.inOrder {event : Event} {identityId : Uuid} {score : Option Score}
    (h : Act.Acts app still L event identityId score ws) (hdistinct : L.db.Distinct)
    (happ : Applicable ws L.db) (hreviewed : L.db.Reviewed) (howned : L.db.Owned) :
    InOrder L (L.commit ws) := by
  have hlinked : Linked event.id identityId L.db := by
    obtain ⟨h⟩ := h
    exact h.linked.resolve_left not_shared_still
  obtain ⟨lead, route, touch, hleaves⟩ := h.leaves hdistinct happ
  have hlinks : (L.commit ws).db .identityLinks = L.db .identityLinks :=
    commit_of_untouched (h.tables.ne (by decide))
  have hstay : LinksStay L.db (L.commit ws).db := fun link hlink => by rwa [hlinks]
  refine ⟨hreviewed.of_eq (commit_of_untouched (h.tables.ne (by decide))) hlinks
    fun _ hu => hu.foldl ws, fun eventId owner hattributed => hstay.linked ?_, hstay⟩
  -- the ids a touch carries are those it carried and the event's
  have htouch : ∀ carried, (touch.firstTouchEventId = carried ∨ touch.lastTouchEventId = carried) →
      carried = event.id ∨ L.db.Attributed carried identityId := by
    intro carried hcarried
    obtain ⟨-, id, now, rfl⟩ | ⟨old, hold, holdIdentity, updatedAt, rfl⟩ := hleaves.touched
    · exact .inl (hcarried.elim Eq.symm Eq.symm)
    · have hfrom : carried = event.id ∨ carried = old.firstTouchEventId ∨
          carried = old.lastTouchEventId := by
        revert hcarried
        unfold Attribute.editTouch Attribute.extendTouch
        split <;> dsimp only <;> split <;> split <;> grind
      obtain heq | rfl | rfl := hfrom
      · exact .inl heq
      · exact .inr (.firstTouch hold holdIdentity rfl)
      · exact .inr (.lastTouch hold holdIdentity rfl)
  have hevent : ∀ carried, (touch.firstTouchEventId = carried ∨ touch.lastTouchEventId = carried) →
      Linked carried identityId L.db := by
    intro carried hcarried
    obtain rfl | hattributed := htouch carried hcarried
    · exact hlinked
    · exact howned _ _ hattributed
  cases hattributed with
  | @lead other hmem hidentity hsource =>
      obtain rfl | ⟨hold, -⟩ := (hleaves.leads other).mp hmem
      · rwa [← hidentity, ← hsource, hleaves.leadIdentity, hleaves.leadSource]
      · exact howned _ _ (.lead hold hidentity hsource)
  | @firstTouch other hmem hidentity hfirst =>
      obtain rfl | ⟨hold, -⟩ := (hleaves.touches other).mp hmem
      · rw [← hidentity, hleaves.touchIdentity]
        exact hevent eventId (.inl hfirst)
      · exact howned _ _ (.firstTouch hold hidentity hfirst)
  | @lastTouch other hmem hidentity hlast =>
      obtain rfl | ⟨hold, -⟩ := (hleaves.touches other).mp hmem
      · rw [← hidentity, hleaves.touchIdentity]
        exact hevent eventId (.inr hlast)
      · exact howned _ _ (.lastTouch hold hidentity hlast)

/-! ### Edits of events that await review -/

/-- The rules link nobody with these fields: there is nothing to go by, or a similar name. -/
def LeavesToReviewer (app : App) (db : Db) (fields : IdentityFields) : Prop :=
  match rule app fields with
  | .exactEmail _ => False
  | .exactPhone _ => False
  | .fuzzyName name => fuzzyCandidate app name (companyName fields) (named db) ≠ none
  | .noIdentityFields => True

/-- The payload makes a new version of the event. -/
structure Edits (app : App) (model : EventIn) (payload : Json.Fields) (existing : Event) : Prop
    extends Ingest.Holds app model existing where
  acceptable : Ingest.acceptable model payload = true
  payloadHash : existing.payloadHash ≠ Ingest.computePayloadHash app payload

/-- The request is no edit of an event that awaits review, or the new version is left to the reviewer
too. -/
def MindsReviews (app : App) (db : Db) : Request → Prop
  | .postEvent (some ⟨.obj payload, _⟩) =>
      match Schemas.validate app payload with
      | .ok model => ∀ existing ∈ db .events, AwaitsReview (Event.id existing) db →
          Edits app model payload existing → LeavesToReviewer app db model.identity
      | .error _ => True
  | _ => True

/-- The request is no edit of an event that awaits review. -/
def SparesReviews (app : App) (db : Db) : Request → Prop
  | .postEvent (some ⟨.obj payload, _⟩) =>
      match Schemas.validate app payload with
      | .ok model => ∀ existing ∈ db .events, Edits app model payload existing →
          ¬ AwaitsReview (Event.id existing) db
      | .error _ => True
  | _ => True

theorem SparesReviews.minds {db : Db} {request : Request} (h : SparesReviews app db request) :
    MindsReviews app db request := by
  unfold SparesReviews at h
  unfold MindsReviews
  split
  · dsimp only at h
    split
    · next model hvalid =>
        rw [hvalid] at h
        exact fun existing hexisting hawaits hedits => absurd hawaits (h existing hexisting hedits)
    · trivial
  · trivial

instance (app : App) (db : Db) (fields : IdentityFields) :
    Decidable (LeavesToReviewer app db fields) := by
  unfold LeavesToReviewer
  split <;> infer_instance

instance (app : App) (model : EventIn) (payload : Json.Fields) (existing : Event) :
    Decidable (Edits app model payload existing) :=
  decidable_of_iff (_ ∧ _ ∧ _ ∧ _)
    ⟨fun ⟨h₁, h₂, h₃, h₄⟩ => ⟨⟨h₁, h₂⟩, h₃, h₄⟩, fun ⟨⟨h₁, h₂⟩, h₃, h₄⟩ => ⟨h₁, h₂, h₃, h₄⟩⟩

instance (app : App) (db : Db) (request : Request) : Decidable (MindsReviews app db request) := by
  unfold MindsReviews
  split
  · split <;> infer_instance
  · infer_instance

instance (app : App) (db : Db) (request : Request) : Decidable (SparesReviews app db request) := by
  unfold SparesReviews
  split
  · split <;> infer_instance
  · infer_instance

/-- An event that the rules leave to the reviewer is not linked by them. -/
theorem LeavesToReviewer.not_links {event : Event} {fields : IdentityFields} {identityId : Uuid}
    {ws : List Write} (h : LeavesToReviewer app L.db fields) (hfields : fieldsOf event = fields) :
    ¬ Links app still L event identityId ws := by
  intro hlinks
  unfold LeavesToReviewer at h
  cases hlinks with
  | found _ _ _ hfinds _ =>
      rw [hfields] at hfinds
      cases hrule : rule app fields <;> rw [hrule] at h hfinds
      · exact h
      · exact h
      · exact hfinds
      · exact hfinds
  | minted _ _ hmisses hmints _ =>
      rw [hfields] at hmisses hmints
      cases hrule : rule app fields <;> rw [hrule] at h hmisses hmints
      · exact h
      · exact h
      · exact h hmisses
      · cases hmints

/-! ### A request -/

theorem Piped.inOrder {event : Event} {identityId : Uuid} {heard : List Reply}
    {r : Except Error (Option Pipeline.Outcome)} (h : Piped app L event identityId heard r L')
    (hhistory : History app still L) (hreviewed : L.db.Reviewed) (howned : L.db.Owned) :
    InOrder L L' := by
  have hsame : InOrder L L := ⟨hreviewed, howned, fun _ hlink => hlink⟩
  have hinterpreted : ∀ {fields interpretation ws},
      Interpret.Interprets still L event fields interpretation ws → InOrder L (L.commit ws) :=
    fun h => inOrder_of_names hreviewed howned h.tables (by decide) (by decide) (by decide) (by decide)
  cases h with
  | acted hfields hinterprets happ₁ hcurrent heventId hscores happ₂ hacts happ₃ =>
      have h₁ := hinterpreted hinterprets
      have hhistory₂ := (hhistory.commit (.interprets hinterprets) happ₁).commit (.scores hscores) happ₂
      have h₂ := inOrder_of_names h₁.reviewed h₁.owned hscores.tables (by decide) (by decide)
        (by decide) (by decide)
      have h₃ := hacts.acts.inOrder hhistory₂.distinct happ₃ h₂.reviewed h₂.owned
      exact ⟨h₃.reviewed, h₃.owned, (h₁.stay.trans h₂.stay).trans h₃.stay⟩
  | dead herror hdead happ =>
      exact inOrder_of_names hreviewed howned hdead.tables (by decide) (by decide) (by decide)
        (by decide)
  | alreadyDead => exact hsame
  | noText => exact hsame
  | unstorable => exact hsame
  | badMessage => exact hsame
  | noScore hfields hinterprets => exact hinterpreted hinterprets

/-- Ingest leaves reviews and links alone. -/
theorem Accepted.inOrder {model : EventIn} {payload : Json.Fields} {event : Event}
    {status : Ingest.IngestStatus} (h : Accepted app L model payload event status L')
    (hreviewed : L.db.Reviewed) (howned : L.db.Owned) : InOrder L L' := by
  cases h with
  | created hcreates =>
      exact inOrder_of_names hreviewed howned hcreates.tables (by decide) (by decide) (by decide)
        (by decide)
  | edited hedits =>
      exact inOrder_of_names hreviewed howned hedits.tables (by decide) (by decide) (by decide)
        (by decide)

/-- An event that a request has accepted is linked by the rules only if nobody is asked about it. -/
theorem Accepted.not_awaits {model : EventIn} {payload : Json.Fields} {event : Event}
    {status : Ingest.IngestStatus} {identityId : Uuid} {ws : List Write}
    (h : Accepted app L model payload event status L') (hdistinct : L.db.Distinct)
    (hreviewed : L.db.Reviewed)
    (hminds : ∀ existing ∈ L.db .events, AwaitsReview (Event.id existing) L.db →
      Edits app model payload existing → LeavesToReviewer app L.db model.identity)
    (hlinks : Links app still L' event identityId ws) : ¬ AwaitsReview event.id L'.db := by
  have hcarries := (h.sets hdistinct).1
  have hfields : fieldsOf event = model.identity := by
    rw [fieldsOf, hcarries.identityFields]
    rfl
  have hsame : L'.db .manualReviewQueue = L.db .manualReviewQueue ∧
      L'.db .identities = L.db .identities := by
    cases h with
    | created hcreates =>
        exact ⟨commit_of_untouched (hcreates.tables.ne (by decide)),
          commit_of_untouched (hcreates.tables.ne (by decide))⟩
    | edited hedits =>
        exact ⟨commit_of_untouched (hedits.tables.ne (by decide)),
          commit_of_untouched (hedits.tables.ne (by decide))⟩
  intro hawaits
  have hbefore : AwaitsReview event.id L.db := by
    unfold AwaitsReview at hawaits ⊢
    rwa [hsame.1] at hawaits
  cases h with
  | @created ws hcreates happ hevent =>
      -- the id of a new event is new, so no review has it
      obtain ⟨review, hreview, hreviewEvent, -⟩ := hbefore
      obtain ⟨old, hold, holdId⟩ := hreviewed.known review hreview
      obtain ⟨row, hinsert, -, now, hrow⟩ := hcreates.rows (L := L)
      refine happ.id_ne (t := .events) (s := .events) hold hinsert ?_
      rw [holdId, hreviewEvent, hrow]
      rfl
  | @edited existing ws hedits happ hevent hid =>
      have hedited : Edits app model payload existing := by
        obtain ⟨-, haccept, -, hholds, hnew⟩ := hedits
        exact ⟨hholds, haccept, hnew⟩
      rw [hid] at hbefore
      have hleaves := hminds existing hedits.seen hbefore hedited
      refine LeavesToReviewer.not_links ?_ hfields hlinks
      unfold LeavesToReviewer named at hleaves ⊢
      rwa [hsame.2]

theorem Prepared.inOrder {request : Request} (h : Prepared app L request L')
    (hhistory : History app still L) (hminds : MindsReviews app L.db request)
    (hreviewed : L.db.Reviewed) (howned : L.db.Owned) : InOrder L L' := by
  cases h with
  | nothing => exact ⟨hreviewed, howned, fun _ hlink => hlink⟩
  | accepted hbody hvalid haccepted => exact haccepted.inOrder hreviewed howned
  | linked hbody hvalid haccepted hlinks happ =>
      obtain ⟨⟨json, wf⟩, rfl, rfl⟩ := Option.map_eq_some_iff.mp hbody
      simp only [MindsReviews, hvalid] at hminds
      have h₁ := haccepted.inOrder hreviewed howned
      have h₂ := hlinks.inOrder (haccepted.history hhistory).distinct h₁.reviewed h₁.owned
        (haccepted.not_awaits hhistory.distinct hreviewed hminds hlinks)
      exact ⟨h₂.reviewed, h₂.owned, h₁.stay.trans h₂.stay⟩
  | parked hbody hvalid haccepted hparks happ =>
      have h₁ := haccepted.inOrder hreviewed howned
      have h₂ := hparks.inOrder (haccepted.history hhistory).distinct h₁.reviewed h₁.owned
      exact ⟨h₂.reviewed, h₂.owned, h₁.stay.trans h₂.stay⟩
  | rejected hrejects =>
      exact inOrder_of_names hreviewed howned hrejects.tables (by decide) (by decide) (by decide)
        (by decide)
  | resolved hpost hresolves => exact hresolves.inOrder hhistory.distinct hreviewed howned
  | simulated hpost hdead =>
      exact inOrder_of_names hreviewed howned hdead.tables (by decide) (by decide) (by decide)
        (by decide)
  | escalated hpost hescalates =>
      exact inOrder_of_names hreviewed howned hescalates.tables (by decide) (by decide) (by decide)
        (by decide)

theorem Pipelined.inOrder {heard : List Reply} (h : Pipelined app L heard L')
    (hhistory : History app still L) (hreviewed : L.db.Reviewed) (howned : L.db.Owned) :
    InOrder L L' := by
  cases h with
  | idle => exact ⟨hreviewed, howned, fun _ hlink => hlink⟩
  | ran hevent hlinked hpiped => exact hpiped.inOrder hhistory hreviewed howned
  | revived hevent hlinked hpiped hrevives happ =>
      have h₁ := hpiped.inOrder hhistory hreviewed howned
      have h₂ := inOrder_of_names h₁.reviewed h₁.owned hrevives.tables (by decide) (by decide)
        (by decide) (by decide)
      exact ⟨h₂.reviewed, h₂.owned, h₁.stay.trans h₂.stay⟩

theorem Visited.inOrder {heard : List Reply} {request : Request} {r : Except Error Response}
    (h : Visited app L heard request r L') (hhistory : History app still L)
    (hminds : MindsReviews app L.db request) (hreviewed : L.db.Reviewed) (howned : L.db.Owned) :
    InOrder L L' := by
  obtain ⟨L₁, hprepared, hpipelined⟩ := h.phases
  have h₁ := hprepared.inOrder hhistory hminds hreviewed howned
  have h₂ := hpipelined.inOrder (hprepared.history hhistory) h₁.reviewed h₁.owned
  exact ⟨h₂.reviewed, h₂.owned, h₁.stay.trans h₂.stay⟩

end DemandSignal
