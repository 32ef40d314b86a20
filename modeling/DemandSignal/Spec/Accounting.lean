import DemandSignal.Spec.Worklist

/-!
# Accounting for events

An accepted event has been acted on as it is stored, or somebody is still to do something about it: a
reviewer, or whoever works on the dead letters.
-/

namespace DemandSignal

open Txn Resolve

variable {app : App} {L L' : Ledger Db Write} {heard : List Reply}

/-- The log holds an act of the event, and since then the row of the event has been what it is. -/
def ActedOn (log : List (Commit Db Write)) (event : Event) : Prop :=
  ∃ earlier commit later, log = earlier ++ commit :: later ∧
    (∃ act ∈ takenIn commit, act.eventId = event.id) ∧
    ∀ other ∈ commit :: later, event ∈ other.before .events

/-- A reviewer or a dead letter stands for the event. -/
def Outstanding (eventId : Uuid) (db : Db) : Prop := AwaitsReview eventId db ∨ Unresolved eventId db

def AccountedFor (L : Ledger Db Write) (event : Event) : Prop :=
  ActedOn L.log event ∨ Outstanding event.id L.db

theorem ActedOn.commit {event : Event} (h : ActedOn L.log event) (hevent : event ∈ L.db .events)
    (ws : List Write) : ActedOn (L.commit ws).log event := by
  obtain ⟨earlier, commit, later, hlog, hact, hbefore⟩ := h
  refine ⟨earlier, commit, later ++ [⟨L.db, ws⟩], ?_, hact, fun other hother => ?_⟩
  · simp [Ledger.commit, hlog]
  · rw [← List.cons_append, List.mem_append, List.mem_singleton] at hother
    rcases hother with hother | rfl
    exacts [hbefore other hother, hevent]

theorem ActedOn.now {event : Event} {ws : List Write} (hevent : event ∈ L.db .events)
    (hact : ∃ act ∈ takenIn ⟨L.db, ws⟩, act.eventId = event.id) :
    ActedOn (L.commit ws).log event := by
  refine ⟨L.log, ⟨L.db, ws⟩, [], rfl, hact, fun other hother => ?_⟩
  rw [List.mem_singleton.mp hother]
  exact hevent

/-- An event that has been acted on has acts in the log. -/
theorem ActedOn.exists_act {log : List (Commit Db Write)} {event : Event} (h : ActedOn log event) :
    ∃ act ∈ acts log, act.eventId = event.id := by
  obtain ⟨earlier, commit, later, rfl, ⟨act, hact, hevent⟩, -⟩ := h
  refine ⟨act, List.mem_flatMap.mpr ⟨commit, ?_, hact⟩, hevent⟩
  exact List.mem_append_right _ (List.mem_cons_self ..)

/-- A transaction that leaves an event, its review and its dead letter alone. -/
structure Keeps (L L' : Ledger Db Write) (event : Event) : Prop where
  mem : event ∈ L'.db .events
  acted : ActedOn L.log event → ActedOn L'.log event
  outstanding : Outstanding event.id L.db → Outstanding event.id L'.db

theorem Keeps.accounted {event : Event} (h : Keeps L L' event) (haccounted : AccountedFor L event) :
    AccountedFor L' event := haccounted.imp h.acted h.outstanding

theorem Keeps.refl {event : Event} (h : event ∈ L.db .events) : Keeps L L event := ⟨h, id, id⟩

theorem Keeps.trans {L'' : Ledger Db Write} {event : Event} (h : Keeps L L' event)
    (h' : Keeps L' L'' event) : Keeps L L'' event :=
  ⟨h'.mem, h'.acted ∘ h.acted, h'.outstanding ∘ h.outstanding⟩

/-- A transaction that only adds to what is outstanding. -/
theorem keeps_of_names {ws : List Write} {ts : List Table} {event : Event}
    (hevent : event ∈ L.db .events) (hnames : Names ws ts) (hevents : .events ∉ ts)
    (houtstanding : Outstanding event.id L.db → Outstanding event.id (L.commit ws).db) :
    Keeps L (L.commit ws) event := by
  refine ⟨?_, fun hacted => hacted.commit hevent ws, houtstanding⟩
  rwa [commit_of_untouched (hnames.ne hevents)]

theorem outstanding_of_names {ws : List Write} {ts : List Table} (hnames : Names ws ts)
    (hreviews : .manualReviewQueue ∉ ts) (hdlqs : .deadLetterQueue ∉ ts) {eventId : Uuid}
    (h : Outstanding eventId L.db) : Outstanding eventId (L.commit ws).db := by
  refine h.imp (fun hawaits => ?_) (unresolved_of_eq (commit_of_untouched (hnames.ne hdlqs)) _).mpr
  unfold AwaitsReview at hawaits ⊢
  rwa [commit_of_untouched (hnames.ne hreviews)]

theorem Interpret.DeadLetters.outstanding {event : Event} {ws : List Write}
    (h : Interpret.DeadLetters still L event ws) {eventId : Uuid} (hout : Outstanding eventId L.db) :
    Outstanding eventId (L.commit ws).db := by
  refine hout.imp (fun hawaits => ?_) fun hopen => (h.unresolved eventId).mpr (.inr hopen)
  unfold AwaitsReview at hawaits ⊢
  rwa [commit_of_untouched (h.tables.ne (by decide))]

/-- A pipeline run leaves what is outstanding outstanding. -/
theorem Piped.keeps {event other : Event} {identityId : Uuid}
    {r : Except Error (Option Pipeline.Outcome)} (h : Piped app L event identityId heard r L')
    (hother : other ∈ L.db .events) : Keeps L L' other := by
  cases h with
  | acted _ hinterprets _ _ _ hscores _ hacts =>
      have h₁ := keeps_of_names hother hinterprets.tables (by decide)
        (outstanding_of_names hinterprets.tables (by decide) (by decide))
      have h₂ := keeps_of_names h₁.mem hscores.tables (by decide)
        (outstanding_of_names hscores.tables (by decide) (by decide))
      have h₃ := keeps_of_names h₂.mem hacts.acts.tables (by decide)
        (outstanding_of_names hacts.acts.tables (by decide) (by decide))
      exact (h₁.trans h₂).trans h₃
  | dead _ hdead => exact keeps_of_names hother hdead.tables (by decide) hdead.outstanding
  | alreadyDead => exact .refl hother
  | noText => exact .refl hother
  | unstorable => exact .refl hother
  | badMessage => exact .refl hother
  | noScore _ hinterprets =>
      exact keeps_of_names hother hinterprets.tables (by decide)
        (outstanding_of_names hinterprets.tables (by decide) (by decide))

/-- The reply or the text of the event stops its pipeline. -/
def Stops (app : App) (event : Event) (heard : List Reply) : Prop :=
  Interpret.extractText event = none ∨ ∃ reply ∈ heard.getLast?, Interpret.harmless app reply = false

theorem Piped.actedOn {event : Event} {identityId : Uuid} {outcome : Pipeline.Outcome}
    (h : Piped app L event identityId heard (.ok (some outcome)) L') (hhistory : History app still L)
    (hevent : event ∈ L.db .events) : ActedOn L'.log event := by
  cases h with
  | acted _ hinterprets happ₁ _ _ hscores happ₂ hacts happ₃ =>
      have hhistory₂ :=
        (hhistory.commit (.interprets hinterprets) happ₁).commit (.scores hscores) happ₂
      refine .now ?_ ⟨⟨identityId, event.id, event.receivedAt⟩, ?_, rfl⟩
      · rwa [commit_of_untouched (hscores.tables.ne (by decide)),
          commit_of_untouched (hinterprets.tables.ne (by decide))]
      · rw [hacts.acts.takenIn hhistory₂.distinct]
        exact List.mem_singleton_self _

/-- A pipeline run that nothing stops accounts for its event. -/
theorem Piped.accounted {event : Event} {identityId : Uuid}
    {r : Except Error (Option Pipeline.Outcome)} (h : Piped app L event identityId heard r L')
    (hhistory : History app still L) (hevent : event ∈ L.db .events)
    (hstops : Stops app event heard → Outstanding event.id L.db) : AccountedFor L' event := by
  by_cases hstopped : Stops app event heard
  · exact (h.keeps hevent).accounted (.inr (hstops hstopped))
  · obtain ⟨htext, hreplies⟩ := not_or.mp hstopped
    have hreplies : ∀ reply ∈ heard.getLast?, Interpret.harmless app reply = true := by
      intro reply hreply
      by_contra hharm
      exact hreplies ⟨reply, hreply, by simpa using hharm⟩
    obtain ⟨outcome, rfl⟩ | rfl := h.ended hhistory.distinct htext hreplies
    · exact .inl (h.actedOn hhistory hevent)
    · exact .inr (.inr ((h.failed_tells.2.2 event.id).mpr (.inl rfl)))

/-! ### The other transactions -/

theorem Accepted.outstanding {payload : Json.Fields} {model : EventIn} {event : Event}
    {status : Ingest.IngestStatus} (h : Accepted app L model payload event status L') {eventId : Uuid}
    (houtstanding : Outstanding eventId L.db) : Outstanding eventId L'.db := by
  cases h with
  | created h => exact outstanding_of_names h.tables (by decide) (by decide) houtstanding
  | edited h => exact outstanding_of_names h.tables (by decide) (by decide) houtstanding

theorem Accepted.keeps {payload : Json.Fields} {model : EventIn} {event other : Event}
    {status : Ingest.IngestStatus} (h : Accepted app L model payload event status L')
    (hdistinct : L.db.Distinct) (hother : other ∈ L.db .events) (hne : other.id ≠ event.id) :
    Keeps L L' other := by
  refine ⟨(h.sets hdistinct).2.mem_of_ne hother hne, ?_, h.outstanding⟩
  cases h with
  | created => exact fun hacted => hacted.commit hother _
  | edited => exact fun hacted => hacted.commit hother _

theorem Identified.keeps {event other : Event} {identityId : Uuid}
    (h : Identified app L event identityId L') (hother : other ∈ L.db .events) : Keeps L L' other := by
  cases h with
  | found => exact .refl hother
  | linked hlinks =>
      exact keeps_of_names hother hlinks.tables (by decide)
        (outstanding_of_names hlinks.tables (by decide) (by decide))

/-- A parked event awaits review. -/
theorem Resolve.Parks.awaits {event : Event} {ws : List Write} (h : Parks app still L event ws)
    (hdistinct : L.db.Distinct) (hgrounded : L.db.Grounded) :
    AwaitsReview event.id (L.commit ws).db := by
  obtain ⟨entry, hevent, hentry, hsets⟩ := h.sets hdistinct
  have hunlinked : Unlinked event.id L.db := by
    obtain ⟨-, hunlinked, -, -⟩ := h
    exact hunlinked
  refine ⟨entry, hsets.new_mem, hevent, ?_⟩
  obtain ⟨-, hpending⟩ | ⟨old, hold, holdEvent, hstatus⟩ := hentry
  · exact hpending
  · cases hcase : ManualReviewQueue.status old with
    | pending => rw [hstatus, hcase]
    | resolved =>
        obtain ⟨identityId, link, hlink, hlinkEvent, -⟩ := hgrounded.resolved old hold hcase
        exact absurd (hlinkEvent.trans holdEvent) (hunlinked link hlink)

theorem Resolve.Parks.keeps {event other : Event} {ws : List Write} (h : Parks app still L event ws)
    (hdistinct : L.db.Distinct) (hgrounded : L.db.Grounded) (hother : other ∈ L.db .events) :
    Keeps L (L.commit ws) other := by
  refine keeps_of_names hother h.tables (by decide) fun houtstanding => ?_
  refine houtstanding.imp (fun ⟨review, hreview, hevent, hstatus⟩ => ?_)
    (unresolved_of_eq (commit_of_untouched (h.tables.ne (by decide))) _).mpr
  by_cases hsame : other.id = event.id
  · rw [hsame]
    exact h.awaits hdistinct hgrounded
  · obtain ⟨entry, hentryEvent, -, hsets⟩ := h.sets hdistinct
    refine ⟨review, hsets.mem_of_ne hreview ?_, hevent, hstatus⟩
    rw [hevent, hentryEvent]
    exact hsame

/-- A decision closes the review of its event only. -/
theorem Resolve.Resolves.outstanding {decision : String} {review : ManualReviewQueue}
    {identityId eventId : Uuid} {ws : List Write} (h : Resolves still L decision review identityId ws)
    (hdistinct : L.db.Distinct)
    (houtstanding : Outstanding eventId L.db)
    (hother : eventId = review.eventId → Unresolved eventId L.db) :
    Outstanding eventId (L.commit ws).db := by
  obtain ⟨resolvedAt, hsets⟩ := h.sets hdistinct
  have hdlqs := unresolved_of_eq (commit_of_untouched (L := L) (h.tables.ne (t := .deadLetterQueue) (by decide)))
  by_cases hsame : eventId = review.eventId
  · exact .inr ((hdlqs eventId).mpr (hother hsame))
  · refine houtstanding.imp (fun ⟨other, hmem, hevent, hstatus⟩ => ?_) (hdlqs eventId).mpr
    refine ⟨other, hsets.mem_of_ne hmem ?_, hevent, hstatus⟩
    rw [hevent]
    exact hsame

/-! ### A request -/

/-- The request takes an event into the pipeline that stops there, and nobody stands for the event. -/
def Strands (app : App) (db : Db) (request : Request) (heard : List Reply) : Prop :=
  ∃ event, Starts app db request event ∧ Stops app event heard ∧ ¬ Unresolved event.id db ∧
    (request.Posts → ¬ AwaitsReview event.id db)

def AllAccounted (L : Ledger Db Write) : Prop :=
  ∀ event ∈ L.db .events, Event.isValid event = true → AccountedFor L event

theorem AllAccounted.of_keeps (h : AllAccounted L) (hevents : L'.db .events = L.db .events)
    (hkeeps : ∀ event ∈ L.db .events, Keeps L L' event) : AllAccounted L' := by
  intro event hevent hvalid
  rw [hevents] at hevent
  exact (hkeeps event hevent).accounted (h event hevent hvalid)

theorem Posted.accounted {body : Option Body} {payload : Json.Fields} {model : EventIn}
    {r : Except Error Events.Answer} (hbody : body.map Body.json = some (.obj payload))
    (hvalid : Schemas.validate app payload = .ok model)
    (h : Posted app L heard model payload r L') (hhistory : History app still L)
    (hstrands : ¬ Strands app L.db (.postEvent body) heard) (haccounted : AllAccounted L) :
    AllAccounted L' := by
  cases h with
  | duplicate => exact haccounted
  | unacceptable => exact haccounted
  | @parked event status L₁ ws _ haccepted hparks happ =>
      obtain ⟨-, hsets⟩ := haccepted.sets hhistory.distinct
      have hhistory₁ := haccepted.history hhistory
      intro other hother hotherValid
      rw [commit_of_untouched (hparks.tables.ne (by decide))] at hother
      obtain rfl | ⟨hold, hne⟩ := (hsets other).mp hother
      · exact .inr (.inl (hparks.awaits hhistory₁.distinct hhistory₁.grounded))
      · have hkeeps := (haccepted.keeps hhistory.distinct hold hne).trans
          (hparks.keeps hhistory₁.distinct hhistory₁.grounded hother)
        exact hkeeps.accounted (haccounted other hold hotherValid)
  | @piped event status L₁ L₂ identityId r L' haccepted hidentified hpiped =>
      obtain ⟨-, hsets⟩ := haccepted.sets hhistory.distinct
      have hhistory₁ := haccepted.history hhistory
      have hstarts := haccepted.starts hbody hvalid hidentified hhistory.distinct hhistory.grounded
      intro other hother hotherValid
      rw [hpiped.events, hidentified.events] at hother
      have hkeeps₂ := hidentified.keeps hother
      obtain rfl | ⟨hold, hne⟩ := (hsets other).mp hother
      · refine hpiped.accounted (hidentified.history hhistory₁) hkeeps₂.mem fun hstops => ?_
        refine hkeeps₂.outstanding (haccepted.outstanding ?_)
        by_contra hnone
        obtain ⟨hawaits, hopen⟩ := not_or.mp hnone
        exact hstrands ⟨other, hstarts, hstops, hopen, fun _ => hawaits⟩
      · have hkeeps := ((haccepted.keeps hhistory.distinct hold hne).trans hkeeps₂).trans
          (hpiped.keeps hkeeps₂.mem)
        exact hkeeps.accounted (haccounted other hold hotherValid)

theorem Visited.accounted {request : Request} {r : Except Error Response}
    (h : Visited app L heard request r L') (hhistory : History app still L)
    (hstrands : ¬ Strands app L.db request heard) (haccounted : AllAccounted L) :
    AllAccounted L' := by
  cases h with
  | posted hbody hvalid hposted => exact hposted.accounted hbody hvalid hhistory hstrands haccounted
  | rejected hrefusal hrefuses =>
      obtain ⟨receivedAt, row, id, now, rid, hrow, hevents, -⟩ := hrefuses.rows (L := L)
      intro event hevent hvalid
      have hold : event ∈ L.db .events := by
        rw [hevents, List.mem_append, List.mem_singleton] at hevent
        refine hevent.resolve_right ?_
        rintro rfl
        rw [(Ingest.rejectedEvent_spec hrow id now).2.1] at hvalid
        cases hvalid
      refine (haccounted event hold hvalid).imp (fun hacted => hacted.commit hold _)
        (outstanding_of_names hrefuses.rejects.tables (by decide) (by decide))
  | malformed => exact haccounted
  | unrecorded => exact haccounted
  | quiet => exact haccounted
  | @reviewed _ _ decision review identityId ws hdecides hresolves happ hgone =>
      have hevents : (L.commit ws).db .events = L.db .events :=
        commit_of_untouched (hresolves.tables.ne (by decide))
      rw [hevents] at hgone
      refine haccounted.of_keeps hevents fun event hevent => ?_
      exact keeps_of_names hevent hresolves.tables (by decide) fun houtstanding =>
        hresolves.outstanding hhistory.distinct houtstanding fun hid =>
          absurd hid (hgone event hevent)
  | @resumed _ _ decision review identityId ws event r' L' hdecides hresolves happ hevent heventId
      hpiped =>
      have hstarts : Starts app L.db request event := hresolves.starts hdecides hevent heventId
      have hhistory₁ := hhistory.commit (.resolves hresolves) happ
      have hevents : (L.commit ws).db .events = L.db .events :=
        commit_of_untouched (hresolves.tables.ne (by decide))
      intro other hother hvalid
      rw [hpiped.events] at hother
      have hold : other ∈ L.db .events := by rwa [← hevents]
      by_cases hsame : other.id = event.id
      · obtain rfl := hhistory₁.distinct.eq_of_id (t := .events) hother hevent hsame
        refine hpiped.accounted hhistory₁ hother fun hstops => ?_
        have hopen : Unresolved other.id L.db := by
          by_contra hclosed
          exact hstrands ⟨other, hstarts, hstops, hclosed, fun hposts =>
            absurd hposts hdecides.not_posts⟩
        exact hresolves.outstanding hhistory.distinct (.inr hopen) fun _ => hopen
      · have hkeeps := keeps_of_names hold hresolves.tables (by decide) fun houtstanding =>
          hresolves.outstanding hhistory.distinct houtstanding fun hid =>
            absurd (hid.trans heventId.symm) hsame
        exact (hkeeps.trans (hpiped.keeps hother)).accounted (haccounted other hold hvalid)
  | replayed _ _ _ _ _ _ hpiped =>
      exact haccounted.of_keeps hpiped.events fun event hevent => hpiped.keeps hevent
  | @revived _ event identityId outcome L₁ ws hevent _ hpiped hrevives happ =>
      have hdistinct₁ := (hpiped.history hhistory).distinct
      intro other hother hvalid
      rw [commit_of_untouched (hrevives.tables.ne (by decide)), hpiped.events] at hother
      have hkeeps := hpiped.keeps hother
      by_cases hsame : other.id = event.id
      · obtain rfl := hhistory.distinct.eq_of_id (t := .events) hother hevent hsame
        exact .inl ((hpiped.actedOn hhistory hevent).commit hkeeps.mem ws)
      · refine (hkeeps.accounted (haccounted other hother hvalid)).imp
          (fun hacted => hacted.commit hkeeps.mem ws) (Or.imp (fun hawaits => ?_) fun hopen => ?_)
        · unfold AwaitsReview at hawaits ⊢
          rwa [commit_of_untouched (hrevives.tables.ne (by decide))]
        · exact (hrevives.unresolved hdistinct₁ _).mpr ⟨hsame, hopen⟩
  | simulated hdead =>
      exact haccounted.of_keeps (commit_of_untouched (hdead.tables.ne (by decide)))
        fun event hevent => keeps_of_names hevent hdead.tables (by decide) hdead.outstanding
  | escalated _ hescalates =>
      exact haccounted.of_keeps (commit_of_untouched (hescalates.tables.ne (by decide)))
        fun event hevent => keeps_of_names hevent hescalates.tables (by decide)
          (outstanding_of_names hescalates.tables (by decide) (by decide))

end DemandSignal
