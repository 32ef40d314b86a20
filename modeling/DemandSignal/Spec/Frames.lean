import DemandSignal.Spec.Worklist

/-!
# Frames

What an ingested event may touch: its own rows, the lead, route and touch of the person it is linked
to, and rows that are new. Everything else is as it was.
-/

namespace DemandSignal

open Txn Resolve

variable {app : App} {L L₁ L' : Ledger Db Write} {ws : List Write} {heard : List Reply}

/-- The row belongs to the event, to a person it is linked to, or is new. -/
def Mine (before after : Db) (eventId : Uuid) : {t : Table} → Row t → Prop
  | .events, row => Event.id row = eventId
  | .identities, row => ¬ before.Has .identities (Identity.id row)
  | .identityLinks, row => IdentityLink.eventId row = eventId
  | .manualReviewQueue, row => ManualReviewQueue.eventId row = eventId
  | .interpretations, row => Interpretation.eventId row = eventId
  | .scores, row => Score.eventId row = eventId
  | .leads, row => Linked eventId (Lead.identityId row) after
  | .routes, row => ∃ lead ∈ after .leads, Lead.id lead = Route.leadId row ∧
      Linked eventId (Lead.identityId lead) after
  | .attributionTouches, row => Linked eventId (AttributionTouch.identityId row) after
  | .receipts, row => ¬ before.Has .receipts (Receipt.id row)
  | .deadLetterQueue, row => DeadLetterQueue.eventId row = eventId

/-- The rows that are not in the set are the same on both sides. -/
def Spares (mine : {t : Table} → Row t → Prop) (db db' : Db) : Prop :=
  ∀ t (row : Row t), ¬ mine row → (row ∈ db' t ↔ row ∈ db t)

section Spares

variable {mine : {t : Table} → Row t → Prop} {db db' db'' : Db}

theorem Spares.refl : Spares mine db db := fun _ _ _ => Iff.rfl

theorem Spares.trans (h : Spares mine db db') (h' : Spares mine db' db'') : Spares mine db db'' :=
  fun t row hrow => (h' t row hrow).trans (h t row hrow)

/-- Where one row per value of a column is set, the rows with other values are spared. -/
theorem Sets.spares {t : Table} {β : Type} {column : Row t → β} {new : Row t}
    {before after : List (Row t)} (h : Sets column new before after)
    (hmine : ∀ row, column row = column new → mine row) (row : Row t) (hrow : ¬ mine row) :
    row ∈ after ↔ row ∈ before := by
  have hne : column row ≠ column new := fun heq => hrow (hmine row heq)
  exact ⟨fun hmem => h.of_ne hmem hne, fun hmem => h.mem_of_ne hmem hne⟩

/-- A transaction spares what it does not name. -/
theorem spares_of_names {ts : List Table} (hnames : Names ws ts)
    (h : ∀ t ∈ ts, ∀ row : Row t, ¬ mine row → (row ∈ (L.commit ws).db t ↔ row ∈ L.db t)) :
    Spares mine L.db (L.commit ws).db := by
  intro t row hrow
  by_cases ht : t ∈ ts
  · exact h t ht row hrow
  · rw [commit_of_untouched (hnames.ne ht)]

end Spares

section Transactions

variable {before after : Db} {eventId : Uuid}

/-- New rows of a table whose rows never change. -/
theorem mem_commit_of_has {t : Table} (hstatic : Row.Static (t := t) id)
    (hhas : ∀ u, before.Has t u → L.db.Has t u) (happ : Applicable ws L.db) (row : Row t)
    (hold : ¬¬ before.Has t row.id) : row ∈ (L.commit ws).db t ↔ row ∈ L.db t := by
  have hrows : (L.commit ws).db t = L.db t ++ inserted t ws := by
    change ws.foldl Db.apply L.db t = _
    simpa using Db.map_foldl_apply hstatic ws L.db
  rw [hrows, List.mem_append]
  refine ⟨fun hmem => hmem.resolve_right fun hnew => ?_, .inl⟩
  obtain ⟨old, hmem, hid⟩ := hhas _ (not_not.mp hold)
  exact happ.id_ne hmem (mem_inserted.mp hnew) hid.symm

/-- What the transactions of a visit have in common: the database of before is there, and they can be
applied. -/
structure Since (before : Db) (L : Ledger Db Write) (ws : List Write) : Prop where
  has : ∀ t u, before.Has t u → L.db.Has t u
  distinct : L.db.Distinct
  applicable : Applicable ws L.db

theorem Since.receipts (h : Since before L ws) (row : Row .receipts)
    (hrow : ¬ Mine before after eventId row) :
    row ∈ (L.commit ws).db .receipts ↔ row ∈ L.db .receipts :=
  mem_commit_of_has (fun _ _ _ => rfl) (h.has .receipts) h.applicable row hrow

theorem Since.identities (h : Since before L ws) (row : Row .identities)
    (hrow : ¬ Mine before after eventId row) :
    row ∈ (L.commit ws).db .identities ↔ row ∈ L.db .identities :=
  mem_commit_of_has (fun _ _ _ => rfl) (h.has .identities) h.applicable row hrow

theorem Resolve.Links.spares {event : Event} {identityId : Uuid}
    (h : Links app still L event identityId ws) (hsince : Since before L ws) :
    Spares (Mine before after event.id) L.db (L.commit ws).db := by
  obtain ⟨matchRule, hlinks⟩ := h.linksEvent
  obtain ⟨link, hevent, -, hsets⟩ := hlinks.sets hsince.distinct
  refine spares_of_names h.tables ?_
  simp only [List.forall_mem_cons, List.not_mem_nil, IsEmpty.forall_iff, implies_true, and_true]
  exact ⟨hsince.identities, hsets.spares fun row hrow => hrow.trans hevent, hsince.receipts⟩

theorem Resolve.Parks.spares {event : Event} (h : Parks app still L event ws)
    (hsince : Since before L ws) : Spares (Mine before after event.id) L.db (L.commit ws).db := by
  obtain ⟨entry, hevent, -, hsets⟩ := h.sets hsince.distinct
  refine spares_of_names h.tables ?_
  simp only [List.forall_mem_cons, List.not_mem_nil, IsEmpty.forall_iff, implies_true, and_true]
  exact ⟨hsets.spares fun row hrow => hrow.trans hevent, hsince.receipts⟩

theorem Interpret.Interprets.spares {event : Event} {fields : Classified}
    {interpretation : Interpretation}
    (h : Interprets still L event fields interpretation ws) (hsince : Since before L ws) :
    Spares (Mine before after event.id) L.db (L.commit ws).db := by
  obtain ⟨hevent, -, -, hsets⟩ := h.sets hsince.distinct
  refine spares_of_names h.tables ?_
  simp only [List.forall_mem_cons, List.not_mem_nil, IsEmpty.forall_iff, implies_true, and_true]
  exact ⟨hsets.spares fun row hrow => hrow.trans hevent, hsince.receipts⟩

theorem Interpret.DeadLetters.spares {event : Event} (h : DeadLetters still L event ws)
    (hsince : Since before L ws) : Spares (Mine before after event.id) L.db (L.commit ws).db := by
  obtain ⟨dlq, -, hevent, -, hrows⟩ := h.rows
  refine spares_of_names h.tables ?_
  simp only [List.forall_mem_cons, List.not_mem_nil, IsEmpty.forall_iff, implies_true, and_true]
  refine ⟨fun row hrow => ?_, hsince.receipts⟩
  rw [hrows, List.mem_append, List.mem_singleton]
  refine ⟨fun hmem => hmem.resolve_right ?_, .inl⟩
  rintro rfl
  exact hrow hevent

theorem Scoring.Scores.spares {event : Event} {identityId : Uuid} {interpretation : Interpretation}
    {score : Score} (h : Scores app still L event identityId interpretation score ws)
    (hsince : Since before L ws) : Spares (Mine before after event.id) L.db (L.commit ws).db := by
  obtain ⟨hevent, hsets⟩ := h.sets hsince.distinct
  refine spares_of_names h.tables ?_
  simp only [List.forall_mem_cons, List.not_mem_nil, IsEmpty.forall_iff, implies_true, and_true]
  exact ⟨hsets.spares fun row hrow => hrow.trans hevent, hsince.receipts⟩

/-- Acting on an event touches the lead, the route and the touch of its person. -/
theorem Act.Acts.spares {event : Event} {identityId : Uuid} {score : Option Score}
    (h : Acts app still L event identityId score ws) (hsince : Since before L ws)
    (hlinked : Linked event.id identityId after) (hleads : after .leads = (L.commit ws).db .leads) :
    Spares (Mine before after event.id) L.db (L.commit ws).db := by
  obtain ⟨lead, route, touch, hleaves⟩ := h.leaves hsince.distinct hsince.applicable
  refine spares_of_names h.tables ?_
  simp only [List.forall_mem_cons, List.not_mem_nil, IsEmpty.forall_iff, implies_true, and_true]
  refine ⟨hleaves.leads.spares fun row hrow => ?_, hleaves.routes.spares fun row hrow => ?_,
    hleaves.touches.spares fun row hrow => ?_, hsince.receipts⟩
  · change Linked _ (Lead.identityId row) _
    rwa [hrow, hleaves.leadIdentity]
  · refine ⟨lead, ?_, (hrow.trans hleaves.routeLead).symm, ?_⟩
    · rw [hleads]
      exact hleaves.leads.new_mem
    · rwa [hleaves.leadIdentity]
  · change Linked _ (AttributionTouch.identityId row) _
    rwa [hrow, hleaves.touchIdentity]

end Transactions

/-! ### A request -/

theorem Accepted.spares {model : EventIn} {payload : Json.Fields} {event : Event}
    {status : Ingest.IngestStatus} {after : Db} (h : Accepted app L model payload event status L')
    (hdistinct : L.db.Distinct) : Spares (Mine L.db after event.id) L.db L'.db := by
  obtain ⟨-, hsets⟩ := h.sets hdistinct
  have hcommit : ∀ {ws : List Write}, L' = L.commit ws → Names ws [.events, .receipts] →
      Applicable ws L.db → Spares (Mine L.db after event.id) L.db L'.db := by
    rintro ws rfl hnames happ
    refine spares_of_names hnames ?_
    simp only [List.forall_mem_cons, List.not_mem_nil, IsEmpty.forall_iff, implies_true, and_true]
    exact ⟨hsets.spares fun row hrow => hrow, Since.receipts ⟨fun _ _ => id, hdistinct, happ⟩⟩
  cases h with
  | created hcreates happ => exact hcommit rfl hcreates.tables happ
  | edited hedits happ => exact hcommit rfl hedits.tables happ

theorem Accepted.distinct {model : EventIn} {payload : Json.Fields} {event : Event}
    {status : Ingest.IngestStatus} (h : Accepted app L model payload event status L')
    (hdistinct : L.db.Distinct) : L'.db.Distinct := by
  cases h with
  | created hcreates happ => exact hdistinct.foldl happ
  | edited hedits happ => exact hdistinct.foldl happ

theorem Extends.of_accepted {model : EventIn} {payload : Json.Fields} {event : Event}
    {status : Ingest.IngestStatus} (h : Accepted app L model payload event status L') :
    Extends L L' := by
  cases h with
  | created => exact .commit L _
  | edited => exact .commit L _

theorem Piped.spares {before : Db} {event : Event} {identityId : Uuid}
    {r : Except Error (Option Pipeline.Outcome)} (h : Piped app L event identityId heard r L')
    (hdistinct : L.db.Distinct) (hhas : ∀ t u, before.Has t u → L.db.Has t u)
    (hlinked : Linked event.id identityId L.db) :
    Spares (Mine before L'.db event.id) L.db L'.db := by
  cases h with
  | @acted ws₁ ws₂ ws₃ fields interpretation current score outcome hfields hinterprets happ₁ hcurrent
      heventId hscores happ₂ hacts happ₃ =>
      have hdistinct₁ : (L.commit ws₁).db.Distinct := hdistinct.foldl happ₁
      have hdistinct₂ : ((L.commit ws₁).commit ws₂).db.Distinct := hdistinct₁.foldl happ₂
      have hhas₁ : ∀ t u, before.Has t u → (L.commit ws₁).db.Has t u := fun t u hu =>
        (hhas t u hu).foldl ws₁
      have hhas₂ : ∀ t u, before.Has t u → ((L.commit ws₁).commit ws₂).db.Has t u := fun t u hu =>
        (hhas₁ t u hu).foldl ws₂
      have hlinks : (((L.commit ws₁).commit ws₂).commit ws₃).db .identityLinks =
          L.db .identityLinks := by
        rw [commit_of_untouched (hacts.acts.tables.ne (by decide)),
          commit_of_untouched (hscores.tables.ne (by decide)),
          commit_of_untouched (hinterprets.tables.ne (by decide))]
      have hafter : Linked event.id identityId (((L.commit ws₁).commit ws₂).commit ws₃).db := by
        unfold Linked
        rwa [hlinks]
      exact ((hinterprets.spares ⟨hhas, hdistinct, happ₁⟩).trans
        (hscores.spares ⟨hhas₁, hdistinct₁, happ₂⟩)).trans
        (hacts.acts.spares ⟨hhas₂, hdistinct₂, happ₃⟩ hafter rfl)
  | dead herror hdead happ => exact hdead.spares ⟨hhas, hdistinct, happ⟩
  | alreadyDead => exact .refl
  | noText => exact .refl
  | unstorable => exact .refl
  | badMessage => exact .refl
  | noScore hfields hinterprets happ => exact hinterprets.spares ⟨hhas, hdistinct, happ⟩

theorem Piped.distinct {event : Event} {identityId : Uuid}
    {r : Except Error (Option Pipeline.Outcome)} (h : Piped app L event identityId heard r L')
    (hdistinct : L.db.Distinct) : L'.db.Distinct := by
  cases h with
  | acted _ _ happ₁ _ _ _ happ₂ _ happ₃ => exact ((hdistinct.foldl happ₁).foldl happ₂).foldl happ₃
  | dead _ _ happ => exact hdistinct.foldl happ
  | alreadyDead => exact hdistinct
  | noText => exact hdistinct
  | unstorable => exact hdistinct
  | badMessage => exact hdistinct
  | noScore _ _ happ => exact hdistinct.foldl happ

/-- The event a `POST` is about, and what the request spares. -/
theorem Posted.spares {model : EventIn} {payload : Json.Fields} {r : Except Error Events.Answer}
    (h : Posted app L heard model payload r L') (hdistinct : L.db.Distinct) :
    L' = L ∨ ∃ event ∈ L'.db .events, Ingest.Holds app model event ∧
      Spares (Mine L.db L'.db (Event.id event)) L.db L'.db := by
  cases h with
  | duplicate => exact .inl rfl
  | unacceptable => exact .inl rfl
  | @parked event status L₁ ws reviewId haccepted hparks happ =>
      obtain ⟨hcarries, hsets⟩ := haccepted.sets hdistinct
      have hhas : ∀ t u, L.db.Has t u → L₁.db.Has t u := fun _ _ => (Extends.of_accepted haccepted).has
      refine .inr ⟨event, ?_, hcarries.toHolds, (haccepted.spares hdistinct).trans
        (hparks.spares ⟨hhas, haccepted.distinct hdistinct, happ⟩)⟩
      rw [commit_of_untouched (hparks.tables.ne (by decide))]
      exact hsets.new_mem
  | @piped event status L₁ L₂ identityId r L' haccepted hidentified hpiped =>
      obtain ⟨hcarries, hsets⟩ := haccepted.sets hdistinct
      have hdistinct₁ := haccepted.distinct hdistinct
      have hhas : ∀ t u, L.db.Has t u → L₁.db.Has t u := fun _ _ => (Extends.of_accepted haccepted).has
      have haccepts : Spares (Mine L.db L'.db event.id) L.db L₁.db := haccepted.spares hdistinct
      have hevent : event ∈ L'.db .events := by
        rw [hpiped.events, hidentified.events]
        exact hsets.new_mem
      refine .inr ⟨event, hevent, hcarries.toHolds, haccepts.trans ?_⟩
      cases hidentified with
      | found hlinked => exact hpiped.spares hdistinct₁ hhas hlinked
      | @linked ws hlinks happ =>
          have hhas₂ : ∀ t u, L.db.Has t u → (L₁.commit ws).db.Has t u := fun t u hu =>
            (hhas t u hu).foldl ws
          exact (hlinks.spares ⟨hhas, hdistinct₁, happ⟩).trans
            (hpiped.spares (hdistinct₁.foldl happ) hhas₂
              ((hlinks.linked lawful_still).resolve_left not_shared_still))

/-- A valid payload that is visited has been posted. -/
theorem Visited.posted_of_valid {body : Option Body} {payload : Json.Fields} {model : EventIn}
    {r : Except Error Response} (h : Visited app L heard (.postEvent body) r L')
    (hbody : body.map Body.json = some (.obj payload))
    (hvalid : Schemas.validate app payload = .ok model) :
    ∃ r', r = r'.map Response.ingest ∧ Posted app L heard model payload r' L' := by
  cases h with
  | posted hbody' hvalid' hposted =>
      rw [hbody] at hbody'
      cases hbody'
      rw [hvalid] at hvalid'
      cases hvalid'
      exact ⟨_, rfl, hposted⟩
  | rejected hrefusal => exact absurd hvalid (Events.refusal_invalid hrefusal hbody)
  | unrecorded hrefusal => exact absurd hvalid (Events.refusal_invalid hrefusal hbody)
  | malformed => cases hbody
  | quiet hquiet => exact hquiet.elim
  | reviewed hdecides => exact absurd ⟨body, rfl⟩ hdecides.not_posts
  | resumed hdecides => exact absurd ⟨body, rfl⟩ hdecides.not_posts
  | escalated hreads => exact absurd ⟨body, rfl⟩ (Request.not_posts_of_reads hreads)

/-- An accepted pair has one event. -/
theorem Ingest.Holds.eq {payload : Json.Fields} {model : EventIn} {db : Db} {event other : Event}
    (h : Ingest.Holds app model event) (h' : Ingest.Holds app model other)
    (hvalid : Schemas.validate app payload = .ok model) (hdistinct : db.Distinct)
    (hevent : event ∈ db .events) (hother : other ∈ db .events) : event = other := by
  obtain ⟨key, hkey⟩ := Ingest.computeDedupeKey_isSome hvalid
  exact hdistinct.eq_of_indexed (t := .events) hevent hother (indexed_of_holds hkey h)
    (indexed_of_holds hkey h')

theorem Posted.distinct {model : EventIn} {payload : Json.Fields} {r : Except Error Events.Answer}
    (h : Posted app L heard model payload r L') (hdistinct : L.db.Distinct) : L'.db.Distinct := by
  cases h with
  | duplicate => exact hdistinct
  | unacceptable => exact hdistinct
  | parked haccepted hparks happ => exact (haccepted.distinct hdistinct).foldl happ
  | piped haccepted hidentified hpiped =>
      have hdistinct₁ := haccepted.distinct hdistinct
      refine hpiped.distinct ?_
      cases hidentified with
      | found => exact hdistinct₁
      | linked hlinks happ => exact hdistinct₁.foldl happ

end DemandSignal
