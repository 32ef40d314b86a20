import DemandSignal.Spec.Payloads
import DemandSignal.Spec.Reviews
import DemandSignal.Spec.Touches

/-!
# Pipeline runs

Which requests start the pipeline of which event, and how a pipeline can end: it acts, it leaves a dead
letter, or it stops at a value that a later step does not take.
-/

namespace DemandSignal

open Txn Resolve

variable {app : App} {L L' : Ledger Db Write} {heard : List Reply}

/-! ### What names an event -/

/-- Links, reviews and dead letters name events, and the event of a resolved review is linked. -/
structure Db.Grounded (db : Db) : Prop where
  links : ∀ link ∈ db .identityLinks, db.Has .events (IdentityLink.eventId link)
  reviews : ∀ review ∈ db .manualReviewQueue, db.Has .events (ManualReviewQueue.eventId review)
  deadLetters : ∀ dlq ∈ db .deadLetterQueue, db.Has .events (DeadLetterQueue.eventId dlq)
  resolved : ∀ review ∈ db .manualReviewQueue, ManualReviewQueue.status review = .resolved →
    ∃ identityId, Linked (ManualReviewQueue.eventId review) identityId db

theorem Db.Grounded.empty : Db.Grounded {} :=
  ⟨fun _ hmem => absurd hmem List.not_mem_nil, fun _ hmem => absurd hmem List.not_mem_nil,
    fun _ hmem => absurd hmem List.not_mem_nil, fun _ hmem => absurd hmem List.not_mem_nil⟩

/-- The new rows of a transaction name events that are there. -/
theorem Db.Grounded.commit {ws : List Write} (h : L.db.Grounded)
    (hlinks : ∀ link ∈ (L.commit ws).db .identityLinks, link ∈ L.db .identityLinks ∨
      L.db.Has .events (IdentityLink.eventId link))
    (hstay : ∀ link ∈ L.db .identityLinks, ∃ identityId,
      Linked (IdentityLink.eventId link) identityId (L.commit ws).db)
    (hreviews : ∀ review ∈ (L.commit ws).db .manualReviewQueue, review ∈ L.db .manualReviewQueue ∨
      L.db.Has .events (ManualReviewQueue.eventId review) ∧
        (ManualReviewQueue.status review = .resolved →
          ∃ identityId, Linked (ManualReviewQueue.eventId review) identityId (L.commit ws).db))
    (hdlqs : ∀ dlq ∈ (L.commit ws).db .deadLetterQueue,
      L.db.Has .events (DeadLetterQueue.eventId dlq)) : (L.commit ws).db.Grounded := by
  refine ⟨fun link hlink => Db.Has.foldl ?_ ws, fun review hreview => Db.Has.foldl ?_ ws,
    fun dlq hdlq => (hdlqs dlq hdlq).foldl ws, fun review hreview hresolved => ?_⟩
  · exact (hlinks link hlink).elim (h.links link) id
  · exact (hreviews review hreview).elim (h.reviews review) And.left
  · rcases hreviews review hreview with hold | ⟨-, hlinked⟩
    · obtain ⟨identityId, link, hlink, hevent, -⟩ := h.resolved review hold hresolved
      rw [← hevent]
      exact hstay link hlink
    · exact hlinked hresolved

theorem linked_of_mem {db : Db} {link : IdentityLink} (h : link ∈ db .identityLinks) :
    ∃ identityId, Linked link.eventId identityId db := ⟨_, link, h, rfl, rfl⟩

/-- A transaction that leaves links and reviews alone. -/
theorem Db.Grounded.of_dead {ws : List Write} {ts : List Table} (h : L.db.Grounded)
    (hnames : Names ws ts) (hlinks : .identityLinks ∉ ts) (hreviews : .manualReviewQueue ∉ ts)
    (hdlqs : ∀ dlq ∈ (L.commit ws).db .deadLetterQueue,
      L.db.Has .events (DeadLetterQueue.eventId dlq)) : (L.commit ws).db.Grounded := by
  have hlinks : (L.commit ws).db .identityLinks = L.db .identityLinks :=
    commit_of_untouched (hnames.ne hlinks)
  refine h.commit ?_ ?_ ?_ hdlqs
  · rw [hlinks]
    exact fun link hlink => .inl hlink
  · intro link hlink
    rw [← hlinks] at hlink
    exact linked_of_mem hlink
  · rw [commit_of_untouched (hnames.ne hreviews)]
    exact fun review hreview => .inl hreview

theorem Db.Grounded.of_names {ws : List Write} {ts : List Table} (h : L.db.Grounded)
    (hnames : Names ws ts) (hlinks : .identityLinks ∉ ts) (hreviews : .manualReviewQueue ∉ ts)
    (hdlqs : .deadLetterQueue ∉ ts) : (L.commit ws).db.Grounded := by
  refine h.of_dead hnames hlinks hreviews ?_
  rw [commit_of_untouched (hnames.ne hdlqs)]
  exact h.deadLetters

/-- A transaction that links one event, and resolves its review if it touches the reviews. -/
theorem Db.Grounded.of_link {ws : List Write} {link : IdentityLink} (h : L.db.Grounded)
    (hevent : L.db.Has .events link.eventId)
    (hlinks : Sets IdentityLink.eventId link (L.db .identityLinks) ((L.commit ws).db .identityLinks))
    (hreviews : ∀ review ∈ (L.commit ws).db .manualReviewQueue, review ∈ L.db .manualReviewQueue ∨
      ManualReviewQueue.eventId review = link.eventId)
    (hdlqs : (L.commit ws).db .deadLetterQueue = L.db .deadLetterQueue) :
    (L.commit ws).db.Grounded := by
  refine h.commit (fun other hother => ?_) (fun other hother => ?_) (fun review hreview => ?_) ?_
  · obtain rfl | ⟨hold, -⟩ := (hlinks other).mp hother
    exacts [.inr hevent, .inl hold]
  · by_cases hsame : IdentityLink.eventId other = link.eventId
    · rw [hsame]
      exact linked_of_mem hlinks.new_mem
    · exact linked_of_mem (hlinks.mem_of_ne hother hsame)
  · rcases hreviews review hreview with hold | hsame
    · exact .inl hold
    · rw [hsame]
      exact .inr ⟨hevent, fun _ => linked_of_mem hlinks.new_mem⟩
  · rw [hdlqs]
    exact h.deadLetters

theorem Resolve.Links.grounded {event : Event} {identityId : Uuid} {ws : List Write}
    (h : Links app still L event identityId ws) (hdistinct : L.db.Distinct)
    (hgrounded : L.db.Grounded) : (L.commit ws).db.Grounded := by
  have hseen : event ∈ L.db .events := by
    cases h with
    | found hseen => exact hseen
    | minted hseen => exact hseen
  obtain ⟨matchRule, hlinks⟩ := h.linksEvent
  obtain ⟨link, hevent, -, hsets⟩ := hlinks.sets hdistinct
  refine hgrounded.of_link ?_ hsets (fun review hreview => .inl ?_)
    (commit_of_untouched (h.tables.ne (by decide)))
  · rw [hevent]
    exact ⟨event, hseen, rfl⟩
  · rwa [commit_of_untouched (h.tables.ne (by decide))] at hreview

theorem Resolve.Resolves.grounded {decision : String} {review : ManualReviewQueue}
    {identityId : Uuid} {ws : List Write} (h : Resolves still L decision review identityId ws)
    (hdistinct : L.db.Distinct) (hgrounded : L.db.Grounded) : (L.commit ws).db.Grounded := by
  obtain ⟨resolvedAt, hreviews⟩ := h.sets hdistinct
  obtain ⟨link, hevent, -, hsets⟩ := h.linksEvent.sets hdistinct
  refine hgrounded.of_link ?_ hsets (fun other hother => ?_)
    (commit_of_untouched (h.tables.ne (by decide)))
  · rw [hevent]
    exact hgrounded.reviews review h.pending.1
  · obtain rfl | ⟨hold, -⟩ := (hreviews other).mp hother
    · exact .inr hevent.symm
    · exact .inl hold

theorem Resolve.Parks.grounded {event : Event} {ws : List Write}
    (h : Parks app still L event ws) (hdistinct : L.db.Distinct) (hgrounded : L.db.Grounded) :
    (L.commit ws).db.Grounded := by
  obtain ⟨entry, hevent, hentry, hsets⟩ := h.sets hdistinct
  have hseen : event ∈ L.db .events ∧ Unlinked event.id L.db := by
    obtain ⟨hseen, hunlinked, -, -⟩ := h
    exact ⟨hseen, hunlinked⟩
  have hlinks : (L.commit ws).db .identityLinks = L.db .identityLinks :=
    commit_of_untouched (h.tables.ne (by decide))
  refine hgrounded.commit ?_ ?_ (fun review hreview => ?_) ?_
  · rw [hlinks]
    exact fun link hlink => .inl hlink
  · intro link hlink
    rw [← hlinks] at hlink
    exact linked_of_mem hlink
  · obtain rfl | ⟨hold, -⟩ := (hsets review).mp hreview
    · refine .inr ⟨hevent ▸ ⟨event, hseen.1, rfl⟩, fun hresolved => ?_⟩
      -- the event of a resolved review is linked, and a linked event is not parked
      obtain ⟨-, hpending⟩ | ⟨old, hold, holdEvent, hstatus⟩ := hentry
      · rw [hpending] at hresolved
        cases hresolved
      · obtain ⟨identityId, link, hlink, hlinkEvent, -⟩ :=
          hgrounded.resolved old hold (hstatus.symm.trans hresolved)
        exact absurd (hlinkEvent.trans holdEvent) (hseen.2 link hlink)
    · exact .inl hold
  · rw [commit_of_untouched (h.tables.ne (by decide))]
    exact hgrounded.deadLetters

theorem History.grounded (h : History app still L) : L.db.Grounded := by
  induction h with
  | empty => exact .empty
  | @commit L ws h htransaction happ ih =>
      cases htransaction with
      | links h' => exact h'.grounded h.distinct ih
      | parks h' => exact h'.grounded h.distinct ih
      | resolves h' => exact h'.grounded h.distinct ih
      | @deadLetters event h' =>
          obtain ⟨dlq, hinsert, hevent, -, hrows⟩ := h'.rows
          have hseen : event ∈ L.db .events := by
            obtain ⟨hseen⟩ := h'
            exact hseen
          refine ih.of_dead h'.tables (by decide) (by decide) fun other hother => ?_
          rw [hrows, List.mem_append, List.mem_singleton] at hother
          rcases hother with hother | rfl
          · exact ih.deadLetters other hother
          · rw [hevent]
            exact ⟨event, hseen, rfl⟩
      | revives h' =>
          obtain ⟨dlq, hdlq, hevent, -, hsets⟩ := h'.sets h.distinct
          refine ih.of_dead h'.tables (by decide) (by decide) fun other hother => ?_
          obtain rfl | ⟨hold, -⟩ := (hsets other).mp hother
          · exact ih.deadLetters dlq hdlq
          · exact ih.deadLetters other hold
      | creates h' => exact ih.of_names h'.tables (by decide) (by decide) (by decide)
      | edits h' => exact ih.of_names h'.tables (by decide) (by decide) (by decide)
      | rejects h' => exact ih.of_names h'.tables (by decide) (by decide) (by decide)
      | interprets h' => exact ih.of_names h'.tables (by decide) (by decide) (by decide)
      | scores h' => exact ih.of_names h'.tables (by decide) (by decide) (by decide)
      | acts h' => exact ih.of_names h'.tables (by decide) (by decide) (by decide)
      | escalates h' => exact ih.of_names h'.tables (by decide) (by decide) (by decide)

/-! ### Starts -/

/-- The request takes the event into the pipeline. -/
inductive Starts (app : App) (db : Db) : Request → Event → Prop
  | created {body payload model id now} (hbody : body.map Body.json = some (.obj payload))
      (hvalid : Schemas.validate app payload = .ok model)
      (haccept : Ingest.acceptable model payload = true)
      (hnew : ∀ event ∈ db .events, ¬ Ingest.Holds app model event)
      (hrules : ¬ LeavesToReviewer app db model.identity) :
      Starts app db (.postEvent body) (Ingest.created app model payload
        (Ingest.computeDedupeKey app (.str model.source) (.str model.externalEventId)) id now)
  | edited {body payload model existing} (hbody : body.map Body.json = some (.obj payload))
      (hvalid : Schemas.validate app payload = .ok model) (hexisting : existing ∈ db .events)
      (hedits : Edits app model payload existing)
      (hrules : Unlinked existing.id db → ¬ LeavesToReviewer app db model.identity) :
      Starts app db (.postEvent body) (Ingest.edited app existing model payload)
  | decided {request decision review identityId event}
      (hdecides : request.Decides review.id decision identityId)
      (hreview : review ∈ db .manualReviewQueue) (hpending : review.status = .pending)
      (htarget : decision = "merge_into" → ∃ target ∈ db .identities, Identity.id target = identityId)
      (hevent : event ∈ db .events) (heventId : event.id = review.eventId) :
      Starts app db request event

/-- Where the row of an accepted payload comes from. -/
inductive Accepted.Row (app : App) (db : Db) (model : EventIn) (payload : Json.Fields) :
    Ingest.IngestStatus → Event → Prop
  | created {id now} (haccept : Ingest.acceptable model payload = true)
      (hnew : ∀ event ∈ db .events, ¬ Ingest.Holds app model event) (hid : ¬ db.Has .events id) :
      Row app db model payload .created (Ingest.created app model payload
        (Ingest.computeDedupeKey app (.str model.source) (.str model.externalEventId)) id now)
  | edited {existing} (hexisting : existing ∈ db .events) (hedits : Edits app model payload existing) :
      Row app db model payload .edit (Ingest.edited app existing model payload)

theorem indexed_of_holds {model : EventIn} {event : Event} {key : String}
    (hkey : Ingest.computeDedupeKey app (.str model.source) (.str model.externalEventId) = some key)
    (h : Ingest.Holds app model event) : Key.eventDedupeKey key ∈ Row.indexed (t := .events) event := by
  have hdedupe : event.dedupeKey = some key := h.dedupeKey.trans hkey
  simp [Row.indexed, h.isValid, hdedupe]

theorem Accepted.row {payload : Json.Fields} {model : EventIn} {event : Event}
    {status : Ingest.IngestStatus} (h : Accepted app L model payload event status L')
    (hdistinct : L.db.Distinct) : Accepted.Row app L.db model payload status event := by
  cases h with
  | @created ws hcreates happ hevent =>
      obtain ⟨row, hinsert, hrows, now, hrow⟩ := hcreates.rows (L := L)
      have hvalid : Schemas.validate app payload = .ok model := by
        obtain ⟨hvalid, -⟩ := hcreates
        exact hvalid
      have haccept : Ingest.acceptable model payload = true := by
        obtain ⟨-, haccept⟩ := hcreates
        exact haccept
      have hid : event.id = row.id := by rw [hrow]; rfl
      have hnew : ¬ L.db.Has .events event.id := by
        rintro ⟨old, hold, holdId⟩
        exact happ.id_ne (t := .events) (s := .events) hold hinsert (hid.symm.trans holdId.symm)
      have hsame : event = row := by
        rw [hrows, List.mem_append, List.mem_singleton] at hevent
        exact hevent.resolve_left fun hold => hnew ⟨event, hold, rfl⟩
      obtain ⟨key, hkey⟩ := Ingest.computeDedupeKey_isSome hvalid
      have hfree : L.db.holds .events (.eventDedupeKey key) = false := by
        refine happ.free .events row hinsert _ ?_
        refine indexed_of_holds (hkey : Ingest.computeDedupeKey app (.str model.source) _ = some key) ?_
        rw [hrow]
        exact ⟨rfl, rfl⟩
      rw [Db.holds_eq_false] at hfree
      rw [hsame, hrow]
      exact .created haccept
        (fun old hold hholds => hfree old hold (List.mem_cons_of_mem _ (indexed_of_holds hkey hholds)))
        hnew
  | @edited existing ws hedits happ hevent hid =>
      have hsame := (hedits.sets hdistinct).eq_new hevent hid
      obtain ⟨-, haccept, hexisting, hholds, hnew⟩ := hedits
      rw [hsame]
      exact .edited hexisting ⟨hholds, haccept, hnew⟩

theorem Accepted.identities {payload : Json.Fields} {model : EventIn} {event : Event}
    {status : Ingest.IngestStatus} (h : Accepted app L model payload event status L') :
    L'.db .identities = L.db .identities ∧ L'.db .identityLinks = L.db .identityLinks ∧
      L'.db .manualReviewQueue = L.db .manualReviewQueue ∧
      L'.db .deadLetterQueue = L.db .deadLetterQueue := by
  cases h with
  | created h =>
      exact ⟨commit_of_untouched (h.tables.ne (by decide)),
        commit_of_untouched (h.tables.ne (by decide)),
        commit_of_untouched (h.tables.ne (by decide)), commit_of_untouched (h.tables.ne (by decide))⟩
  | edited h =>
      exact ⟨commit_of_untouched (h.tables.ne (by decide)),
        commit_of_untouched (h.tables.ne (by decide)),
        commit_of_untouched (h.tables.ne (by decide)), commit_of_untouched (h.tables.ne (by decide))⟩

/-- An accepted event that gets an identity starts its pipeline. -/
theorem Accepted.starts {body : Option Body} {payload : Json.Fields} {model : EventIn} {event : Event}
    {status : Ingest.IngestStatus} {identityId : Uuid} {L₂ : Ledger Db Write}
    (hbody : body.map Body.json = some (.obj payload))
    (hvalid : Schemas.validate app payload = .ok model)
    (h : Accepted app L model payload event status L')
    (hidentified : Identified app L' event identityId L₂) (hdistinct : L.db.Distinct)
    (hgrounded : L.db.Grounded) : Starts app L.db (.postEvent body) event := by
  obtain ⟨hidentities, hlinks, -, -⟩ := h.identities
  have hfields : fieldsOf event = model.identity := by
    rw [fieldsOf, (h.sets hdistinct).1.identityFields]
    rfl
  have hrules : Unlinked event.id L.db → ¬ LeavesToReviewer app L.db model.identity := by
    intro hunlinked hleaves
    cases hidentified with
    | found hlinked =>
        obtain ⟨link, hlink, hevent, -⟩ := hlinked
        rw [hlinks] at hlink
        exact hunlinked link hlink hevent
    | linked hlinks =>
        refine LeavesToReviewer.not_links ?_ hfields hlinks
        unfold LeavesToReviewer named at hleaves ⊢
        rwa [hidentities]
  cases h.row hdistinct with
  | created haccept hnew hid =>
      refine .created hbody hvalid haccept hnew (hrules fun link hlink hevent => hid ?_)
      have hhas := hgrounded.links link hlink
      rwa [hevent] at hhas
  | edited hexisting hedits => exact .edited hbody hvalid hexisting hedits hrules

/-! ### Ends -/

def acts (log : List (Commit Db Write)) : List Taken := log.flatMap takenIn

theorem acts_commit (L : Ledger Db Write) (ws : List Write) :
    acts (L.commit ws).log = acts L.log ++ takenIn ⟨L.db, ws⟩ := by
  simp [acts, Ledger.commit]

/-- A commit that acts on nothing. -/
theorem acts_of_records {ws : List Write} {actions : List ActionType} (h : Records ws actions)
    (hcreated : .leadCreated ∉ actions) (hupdated : .leadUpdated ∉ actions) :
    acts (L.commit ws).log = acts L.log := by
  rw [acts_commit, takenIn_of_records h hcreated hupdated, List.append_nil]

/-- The event has a dead letter that no replay has closed. -/
def Unresolved (eventId : Uuid) (db : Db) : Prop :=
  ∃ dlq ∈ db .deadLetterQueue, DeadLetterQueue.eventId dlq = eventId ∧
    DeadLetterQueue.resolved dlq = false

instance (eventId : Uuid) (db : Db) : Decidable (Unresolved eventId db) := by
  unfold Unresolved
  infer_instance

theorem unresolved_of_eq {db db' : Db} (h : db' .deadLetterQueue = db .deadLetterQueue)
    (eventId : Uuid) : Unresolved eventId db' ↔ Unresolved eventId db := by
  unfold Unresolved
  rw [h]

theorem unresolved_of_holds {db : Db} {eventId : Uuid}
    (h : db.holds .deadLetterQueue (.unresolvedEvent eventId) = true) : Unresolved eventId db := by
  rw [Db.holds, List.any_eq_true] at h
  obtain ⟨dlq, hdlq, hkey⟩ := h
  have hkey : Key.unresolvedEvent eventId ∈ Row.keys (t := .deadLetterQueue) dlq := by simpa using hkey
  rw [Row.keys, List.mem_cons, Row.indexed] at hkey
  cases hresolved : DeadLetterQueue.resolved dlq with
  | true => simp [hresolved] at hkey
  | false =>
      simp only [hresolved, Bool.false_eq_true, if_false, List.mem_singleton, reduceCtorEq, false_or,
        Key.unresolvedEvent.injEq] at hkey
      exact ⟨dlq, hdlq, hkey.symm, hresolved⟩

/-- A dead letter opens the worklist entry of its event only. -/
theorem Interpret.DeadLetters.unresolved {event : Event} {ws : List Write}
    (h : Interpret.DeadLetters still L event ws) (eventId : Uuid) :
    Unresolved eventId (L.commit ws).db ↔ eventId = event.id ∨ Unresolved eventId L.db := by
  obtain ⟨dlq, -, hevent, hopen, hrows⟩ := h.rows
  unfold Unresolved
  rw [hrows]
  simp only [List.mem_append, List.mem_singleton]
  constructor
  · rintro ⟨other, hother | rfl, hothers, hothero⟩
    · exact .inr ⟨other, hother, hothers, hothero⟩
    · exact .inl (hothers.symm.trans hevent)
  · rintro (rfl | ⟨other, hother, hothers⟩)
    · exact ⟨dlq, .inr rfl, hevent, hopen⟩
    · exact ⟨other, .inl hother, hothers⟩

/-- A replay closes the worklist entry of its event only. -/
theorem Interpret.Revives.unresolved {eventId identityId : Uuid} {ws : List Write}
    (h : Interpret.Revives still L eventId identityId ws) (hdistinct : L.db.Distinct) (other : Uuid) :
    Unresolved other (L.commit ws).db ↔ other ≠ eventId ∧ Unresolved other L.db := by
  obtain ⟨dlq, hdlq, hevent, hopen, hsets⟩ := h.sets hdistinct
  have hkey : ∀ row : DeadLetterQueue, row.resolved = false →
      Key.unresolvedEvent row.eventId ∈ Row.indexed (t := .deadLetterQueue) row := by
    intro row hrow
    simp [Row.indexed, hrow]
  constructor
  · rintro ⟨row, hrow, hrowEvent, hrowOpen⟩
    obtain rfl | ⟨hold, hne⟩ := (hsets row).mp hrow
    · cases hrowOpen
    · refine ⟨?_, row, hold, hrowEvent, hrowOpen⟩
      rintro rfl
      have hkey' := hkey dlq hopen
      rw [hevent, ← hrowEvent] at hkey'
      have hsame : row = dlq :=
        hdistinct.eq_of_indexed (t := .deadLetterQueue) hold hdlq (hkey row hrowOpen) hkey'
      exact hne (by rw [hsame])
  · rintro ⟨hne, row, hrow, hrowEvent, hrowOpen⟩
    refine ⟨row, hsets.mem_of_ne hrow fun hid => hne ?_, hrowEvent, hrowOpen⟩
    rw [← hrowEvent, hdistinct.eq_of_id (t := .deadLetterQueue) hrow hdlq hid, hevent]

/-- A score can be computed, whatever the event is. -/
def Scoring.scorable (policy : ScoringPolicy) (label : String) (confidence : Decimal) : Bool :=
  (Scoring.computeScore policy label confidence "" false none).isSome

theorem Scoring.isSome_computeScore (policy : ScoringPolicy) (label : String) (confidence : Decimal)
    (source : String) (consent : Bool) (campaignId : Option String) :
    (Scoring.computeScore policy label confidence source consent campaignId).isSome =
      Scoring.scorable policy label confidence := by
  unfold Scoring.scorable Scoring.computeScore
  cases (policy.labelScores.lookup label).join with
  | none => rfl
  | some labelBase =>
      cases policy.confidenceMultiplierEnabled with
      | false => rfl
      | true =>
          dsimp only
          cases Scoring.applyMultiplier labelBase confidence <;> rfl

theorem Scoring.scorable_hundredths (policy : ScoringPolicy) (label : String) (n : ℤ) :
    Scoring.scorable policy label (.hundredths n) = true := by
  unfold Scoring.scorable Scoring.computeScore Scoring.applyMultiplier
  dsimp only
  split
  · rfl
  · split <;> rfl

namespace Interpret

/-- The database takes what the reply makes of an event, and so does the scoring. -/
def harmless (app : App) (reply : Reply) : Bool :=
  match callResult app reply with
  | .ok result =>
      (classified app result).storable &&
        Scoring.scorable app.scoringPolicy (classified app result).label
          (classified app result).confidence
  | .error error => Python.storable (Python.take 500 error.message)

/-- The call is exhausted: its last reply is a failure. -/
def lastFails (app : App) (heard : List Reply) : Bool :=
  match heard.getLast? with
  | some reply =>
      match callResult app reply with
      | .ok _ => false
      | .error _ => true
  | none => false

theorem Exhausted.lastFails {event : Event} {error : CallError}
    (h : Exhausted app event heard error) : Interpret.lastFails app heard = true := by
  obtain ⟨-, -, hlast, hanswer⟩ := h
  rw [Interpret.lastFails, hlast]
  simp only [hanswer]

theorem Classification.lastFails {event : Event} {fields : Classified}
    (h : Classification app event heard fields) : Interpret.lastFails app heard = false := by
  cases h with
  | skipped => rfl
  | classified htext hlong hlast hanswer =>
      rw [Interpret.lastFails, hlast]
      simp only [hanswer]

/-- What a harmless reply makes of an event can be stored and scored. -/
theorem Classification.harmless {event : Event} {fields : Classified}
    (h : Classification app event heard fields)
    (hheard : ∀ reply ∈ heard.getLast?, Interpret.harmless app reply = true) :
    fields.storable = true ∧
      Scoring.scorable app.scoringPolicy fields.label fields.confidence = true := by
  cases h with
  | skipped htext hshort =>
      exact ⟨storable_skipped _, Scoring.scorable_hundredths _ _ 0⟩
  | classified htext hlong hlast hanswer =>
      have hreply := hheard _ hlast
      simpa only [Interpret.harmless, hanswer, Bool.and_eq_true] using hreply

end Interpret

section Piped

variable {event : Event} {identityId : Uuid}

/-- A pipeline stops only at a text, a reply or a message that is not fit. -/
theorem Piped.ended {r : Except Error (Option Pipeline.Outcome)}
    (h : Piped app L event identityId heard r L') (hdistinct : L.db.Distinct)
    (htext : Interpret.extractText event ≠ none)
    (hheard : ∀ reply ∈ heard.getLast?, Interpret.harmless app reply = true) :
    (∃ outcome, r = .ok (some outcome)) ∨ r = .ok none := by
  cases h with
  | acted => exact .inl ⟨_, rfl⟩
  | dead => exact .inr rfl
  | alreadyDead => exact .inr rfl
  | noText hnone => exact absurd hnone htext
  | unstorable hfields hunstorable =>
      have hstorable := (hfields.harmless hheard).1
      rw [hunstorable] at hstorable
      cases hstorable
  | badMessage herror hunstorable =>
      obtain ⟨-, -, hlast, hanswer⟩ := herror
      have hreply := hheard _ hlast
      simp only [Interpret.harmless, hanswer, hunstorable] at hreply
      cases hreply
  | noScore hfields hinterprets happ hcurrent heventId hscore =>
      obtain ⟨hevent, hlabel, hconfidence, hsets⟩ := hinterprets.sets hdistinct
      have hscorable := (hfields.harmless hheard).2
      rw [hsets.eq_new hcurrent (heventId.trans hevent.symm), hlabel, hconfidence] at hscore
      rw [← Scoring.isSome_computeScore, hscore] at hscorable
      cases hscorable

theorem Piped.acted_tells {outcome : Pipeline.Outcome}
    (h : Piped app L event identityId heard (.ok (some outcome)) L') (hhistory : History app still L) :
    acts L'.log = acts L.log ++ [⟨identityId, event.id, event.receivedAt⟩] ∧
      L'.db .deadLetterQueue = L.db .deadLetterQueue ∧ Interpret.lastFails app heard = false := by
  cases h with
  | acted hfields hinterprets happ₁ hcurrent heventId hscores happ₂ hacts happ₃ =>
      have hhistory₂ := (hhistory.commit (.interprets hinterprets) happ₁).commit (.scores hscores) happ₂
      refine ⟨?_, ?_, hfields.lastFails⟩
      · rw [acts_commit, hacts.acts.takenIn hhistory₂.distinct,
          acts_of_records hscores.records (by decide) (by decide),
          acts_of_records hinterprets.records (by decide) (by decide)]
      · rw [commit_of_untouched (hacts.acts.tables.ne (by decide)),
          commit_of_untouched (hscores.tables.ne (by decide)),
          commit_of_untouched (hinterprets.tables.ne (by decide))]

theorem Piped.failed_tells (h : Piped app L event identityId heard (.ok none) L') :
    acts L'.log = acts L.log ∧ Interpret.lastFails app heard = true ∧
      ∀ eventId, Unresolved eventId L'.db ↔ eventId = event.id ∨ Unresolved eventId L.db := by
  cases h with
  | dead herror hdead happ =>
      exact ⟨acts_of_records hdead.records (by decide) (by decide), herror.lastFails, hdead.unresolved⟩
  | alreadyDead herror hheld =>
      refine ⟨rfl, herror.lastFails, fun eventId => ⟨.inr, ?_⟩⟩
      rintro (rfl | h)
      · exact unresolved_of_holds hheld
      · exact h

end Piped

end DemandSignal
