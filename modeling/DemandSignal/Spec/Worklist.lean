import DemandSignal.Spec.Starts

/-!
# The dead letter worklist

The outcomes of an event's pipeline runs, read off the requests that were served, and what each request
does to the unresolved dead letters.
-/

namespace DemandSignal

open Txn Resolve

variable {app : App} {L L' : Ledger Db Write} {heard : List Reply}

/-! ### The events after a request -/

theorem Identified.events {event : Event} {identityId : Uuid}
    (h : Identified app L event identityId L') : L'.db .events = L.db .events := by
  cases h with
  | found => rfl
  | linked hlinks => exact commit_of_untouched (hlinks.tables.ne (by decide))

/-- What a pipeline run does not write to. -/
theorem Piped.untouched {event : Event} {identityId : Uuid}
    {r : Except Error (Option Pipeline.Outcome)} (h : Piped app L event identityId heard r L')
    {t : Table} (ht : t ∈ [Table.events, .identities, .identityLinks, .manualReviewQueue]) :
    L'.db t = L.db t := by
  have hnot : ∀ ts : List Table,
      (∀ t ∈ [Table.events, .identities, .identityLinks, .manualReviewQueue], t ∉ ts) → t ∉ ts :=
    fun ts hts => hts t ht
  cases h with
  | acted _ hinterprets _ _ _ hscores _ hacts =>
      rw [commit_of_untouched (hacts.acts.tables.ne (hnot _ (by decide))),
        commit_of_untouched (hscores.tables.ne (hnot _ (by decide))),
        commit_of_untouched (hinterprets.tables.ne (hnot _ (by decide)))]
  | dead _ hdead => exact commit_of_untouched (hdead.tables.ne (hnot _ (by decide)))
  | alreadyDead => rfl
  | noText => rfl
  | unstorable => rfl
  | badMessage => rfl
  | noScore _ hinterprets => exact commit_of_untouched (hinterprets.tables.ne (hnot _ (by decide)))

theorem Piped.events {event : Event} {identityId : Uuid}
    {r : Except Error (Option Pipeline.Outcome)} (h : Piped app L event identityId heard r L') :
    L'.db .events = L.db .events := h.untouched (by decide)

/-- What a request makes of the events. -/
inductive Request.EventsAfter (app : App) (L L' : Ledger Db Write) : Request → Prop
  | same {request} (hevents : L'.db .events = L.db .events) : EventsAfter app L L' request
  | accepted {body payload model event status L₁} (hbody : body.map Body.json = some (.obj payload))
      (hvalid : Schemas.validate app payload = .ok model)
      (haccepted : Accepted app L model payload event status L₁)
      (hevents : L'.db .events = L₁.db .events) : EventsAfter app L L' (.postEvent body)
  | refused {body payload reason receivedAt row}
      (hrefusal : Events.refusal app (body.map Body.json) = some (payload, reason))
      (hrow : Ingest.rejectedEvent app payload reason receivedAt = some row)
      (hevents : ∃ id now, L'.db .events = L.db .events ++ [row id now]) :
      EventsAfter app L L' (.postEvent body)

/-- A body that is recorded is an object, or recorded as an empty one. -/
theorem Events.refusal_payload {body : Option Json} {payload : Json.Fields} {reason : String}
    (h : Events.refusal app body = some (payload, reason)) :
    body = some (.obj payload) ∨ payload = [] := by
  unfold Events.refusal at h
  split at h
  · cases h
  · split at h
    · cases h
      exact .inl rfl
    · cases h
  · cases h
    exact .inr rfl

/-- A record is one event and its receipt. -/
theorem Ingest.Refuses.rows {payload : Json.Fields} {reason : String} {ws : List Write}
    (h : Ingest.Refuses app payload reason ws) : ∃ receivedAt row id now rid,
      Ingest.rejectedEvent app payload reason receivedAt = some row ∧
      (L.commit ws).db .events = L.db .events ++ [row id now] ∧
      (L.commit ws).db .receipts = L.db .receipts ++ [receipt .eventRejected id .event
        (.eventRejected reason) (some id) none .error rid now] := by
  obtain @⟨receivedAt, row, id, rid, now, hrow⟩ := h
  refine ⟨receivedAt, row, id, now, rid, hrow, ?_, ?_⟩
  · rw [commit_rows]
    simp [Write.table, Db.apply_insert_self]
  · rw [commit_rows]
    simp [Write.table, Db.apply_insert_self]

/-- The record of a payload holds the payload. -/
theorem Ingest.rawPayload_rejectedEvent {payload : Json.Fields} {reason : String}
    {receivedAt : Time} {row : Uuid → Time → Event}
    (h : Ingest.rejectedEvent app payload reason receivedAt = some row) (id : Uuid) (now : Time) :
    (row id now).rawPayload = payload ∧ (row id now).invalidReason = some reason := by
  simp only [Ingest.rejectedEvent] at h
  split at h
  · split at h
    · cases h
      exact ⟨rfl, rfl⟩
    · cases h
  · cases h

theorem Visited.eventsAfter {request : Request} {r : Except Error Response}
    (h : Visited app L heard request r L') : request.EventsAfter app L L' := by
  cases h with
  | posted hbody hvalid hposted =>
      cases hposted with
      | duplicate => exact .same rfl
      | unacceptable => exact .same rfl
      | parked haccepted hparks =>
          exact .accepted hbody hvalid haccepted (commit_of_untouched (hparks.tables.ne (by decide)))
      | piped haccepted hidentified hpiped =>
          exact .accepted hbody hvalid haccepted (hpiped.events.trans hidentified.events)
  | rejected hrefusal hrefuses =>
      obtain ⟨receivedAt, row, id, now, rid, hrow, hevents, -⟩ := hrefuses.rows (L := L)
      exact .refused hrefusal hrow ⟨id, now, hevents⟩
  | malformed => exact .same rfl
  | unrecorded => exact .same rfl
  | quiet => exact .same rfl
  | reviewed _ hresolves => exact .same (commit_of_untouched (hresolves.tables.ne (by decide)))
  | resumed _ hresolves _ _ _ hpiped =>
      exact .same (hpiped.events.trans (commit_of_untouched (hresolves.tables.ne (by decide))))
  | replayed _ _ _ _ _ _ hpiped => exact .same hpiped.events
  | revived _ _ hpiped hrevives =>
      exact .same ((commit_of_untouched (hrevives.tables.ne (by decide))).trans hpiped.events)
  | simulated hdead => exact .same (commit_of_untouched (hdead.tables.ne (by decide)))
  | escalated _ hescalates => exact .same (commit_of_untouched (hescalates.tables.ne (by decide)))

/-- The texts of a payload are strings, whatever its source. -/
def Interpret.textual (payload : Json.Fields) : Bool :=
  ["web_form", "social_mention", "email_engagement"].all fun source =>
    !(Interpret.body source payload).truthy || (Interpret.body source payload).text?.isSome

theorem Interpret.extractText_ne_none {event : Event} (h : Interpret.textual event.rawPayload = true) :
    Interpret.extractText event ≠ none := by
  have hbody : (Interpret.body event.source event.rawPayload).truthy = true →
      (Interpret.body event.source event.rawPayload).text?.isSome = true := by
    simp only [Interpret.textual, List.all_cons, List.all_nil, Bool.and_true, Bool.and_eq_true,
      Bool.or_eq_true, Bool.not_eq_true'] at h
    intro htruthy
    by_cases hweb : event.source = "web_form"
    · rw [hweb] at htruthy ⊢
      exact h.1.resolve_left (by simp [htruthy])
    · by_cases hsocial : event.source = "social_mention"
      · rw [hsocial] at htruthy ⊢
        exact h.2.1.resolve_left (by simp [htruthy])
      · by_cases hemail : event.source = "email_engagement"
        · rw [hemail] at htruthy ⊢
          exact h.2.2.resolve_left (by simp [htruthy])
        · simp [Interpret.body, hweb, hsocial, hemail, Json.truthy] at htruthy
  unfold Interpret.extractText
  dsimp only
  intro hnone
  split at hnone
  · next htruthy =>
    rw [Option.map_eq_none_iff] at hnone
    have hsome := hbody htruthy
    rw [hnone] at hsome
    cases hsome
  · cases hnone

/-- The texts of what is posted are strings. -/
def Request.Textual : Request → Prop
  | .postEvent (some ⟨.obj payload, _⟩) => Interpret.textual payload = true
  | _ => True

def Request.textual : Request → Bool
  | .postEvent (some ⟨.obj payload, _⟩) => Interpret.textual payload
  | _ => true

theorem Request.textual_iff {request : Request} : request.textual = true ↔ request.Textual := by
  unfold textual Textual
  split
  · exact Iff.rfl
  · exact iff_of_true rfl trivial

instance (request : Request) : Decidable request.Textual := decidable_of_iff _ Request.textual_iff

theorem Request.Textual.payload {body : Option Body} {payload : Json.Fields}
    (h : (Request.postEvent body).Textual) (hbody : body.map Body.json = some (.obj payload)) :
    Interpret.textual payload = true := by
  obtain ⟨⟨json, hwf⟩, rfl, hjson⟩ := Option.map_eq_some_iff.mp hbody
  cases hjson
  exact h

theorem Visited.textual {request : Request} {r : Except Error Response}
    (h : Visited app L heard request r L') (hdistinct : L.db.Distinct) (hrequest : request.Textual)
    (htexts : ∀ event ∈ L.db .events, Interpret.textual (Event.rawPayload event) = true) :
    ∀ event ∈ L'.db .events, Interpret.textual (Event.rawPayload event) = true := by
  cases h.eventsAfter with
  | same hevents =>
      rw [hevents]
      exact htexts
  | accepted hbody hvalid haccepted hevents =>
      obtain ⟨hcarries, hsets⟩ := haccepted.sets hdistinct
      obtain ⟨⟨json, wf⟩, rfl, rfl⟩ := Option.map_eq_some_iff.mp hbody
      rw [hevents]
      intro event hevent
      obtain rfl | ⟨hold, -⟩ := (hsets event).mp hevent
      · rw [hcarries.rawPayload]
        exact hrequest
      · exact htexts event hold
  | refused hrefusal hrow hevents =>
      obtain ⟨id, now, hevents⟩ := hevents
      rw [hevents]
      intro event hevent
      rw [List.mem_append, List.mem_singleton] at hevent
      obtain hold | rfl := hevent
      · exact htexts event hold
      · rw [(Ingest.rawPayload_rejectedEvent hrow id now).1]
        obtain hbody | rfl := Events.refusal_payload hrefusal
        · obtain ⟨⟨json, wf⟩, rfl, rfl⟩ := Option.map_eq_some_iff.mp hbody
          exact hrequest
        · rfl

/-! ### Outcomes -/

/-- A request that has been served. -/
abbrev ServiceVisit := Visit Request Db Write Error Reply Response

/-- The event a request is about: the accepted one of the pair, the one under review, or the one that
is named. -/
def subject (app : App) (visit : ServiceVisit) : Option Uuid :=
  match visit.input with
  | .postEvent body =>
      match body.map Body.json with
      | some (.obj payload) =>
          match Schemas.validate app payload with
          | .ok model =>
              ((visit.after.db .events).find? fun event => Event.isValid event &&
                Event.dedupeKey event =
                  Ingest.computeDedupeKey app (.str model.source) (.str model.externalEventId)).map
                Event.id
          | .error _ => none
      | _ => none
  | .replayEvent _ eventId => eventId
  | .simulateFailure _ _ eventId => eventId
  | request => request.review.bind fun reviewId =>
      ((visit.before.db .manualReviewQueue).find? fun review =>
        ManualReviewQueue.id review = reviewId).map ManualReviewQueue.eventId

inductive PipelineOutcome where
  | completed
  | failed
deriving DecidableEq

/-- The request fails its event: the provider's last reply is a failure, or the failure is simulated. -/
def fails (app : App) (visit : ServiceVisit) : Bool :=
  match visit.input, visit.result with
  | .simulateFailure _ _ _, .ok _ => true
  | .simulateFailure _ _ _, .error _ => false
  | _, _ => Interpret.lastFails app visit.session.replies

/-- The acts of a request. -/
def actsOf (visit : ServiceVisit) : List Taken :=
  (acts visit.after.log).drop (acts visit.before.log).length

/-- What a request makes of the event's pipeline. -/
def pipelineOutcome (app : App) (visit : ServiceVisit) (eventId : Uuid) : Option PipelineOutcome :=
  if ∃ act ∈ actsOf visit, act.eventId = eventId then some .completed
  else if subject app visit = some eventId ∧ fails app visit = true then some .failed
  else none

/-- The outcome of the last request that has taken the event through the pipeline, or failed it. -/
def lastOutcome (app : App) (visits : List ServiceVisit) (eventId : Uuid) : Option PipelineOutcome :=
  (visits.filterMap fun visit => pipelineOutcome app visit eventId).getLast?

theorem lastOutcome_append (visits : List ServiceVisit) (visit : ServiceVisit) (eventId : Uuid) :
    lastOutcome app (visits ++ [visit]) eventId =
      (pipelineOutcome app visit eventId).or (lastOutcome app visits eventId) := by
  unfold lastOutcome
  rw [List.filterMap_append, List.getLast?_append]
  cases houtcome : pipelineOutcome app visit eventId <;> simp [houtcome]

section Outcome

variable {visit : ServiceVisit}

/-- A request that acts on nothing and fails nothing. -/
theorem pipelineOutcome_of_still (hacts : acts visit.after.log = acts visit.before.log)
    (hfails : subject app visit = none ∨ fails app visit = false) (eventId : Uuid) :
    pipelineOutcome app visit eventId = none := by
  unfold pipelineOutcome actsOf
  rw [hacts, List.drop_length, if_neg (by simp), if_neg]
  rintro ⟨hsubject, hfailed⟩
  rcases hfails with hnone | hfails
  · rw [hnone] at hsubject
    cases hsubject
  · rw [hfails] at hfailed
    cases hfailed

theorem pipelineOutcome_of_acted {act : Taken}
    (hacts : acts visit.after.log = acts visit.before.log ++ [act])
    (hfails : fails app visit = false) (eventId : Uuid) :
    pipelineOutcome app visit eventId = if eventId = act.eventId then some .completed else none := by
  unfold pipelineOutcome actsOf
  rw [hacts, List.drop_left]
  by_cases heq : eventId = act.eventId
  · rw [if_pos heq, if_pos ⟨act, List.mem_singleton_self _, heq.symm⟩]
  · rw [if_neg heq, if_neg, if_neg (by simp [hfails])]
    rintro ⟨other, hother, hsame⟩
    rw [List.mem_singleton.mp hother] at hsame
    exact heq hsame.symm

theorem pipelineOutcome_of_failed {failed : Uuid}
    (hacts : acts visit.after.log = acts visit.before.log)
    (hsubject : subject app visit = some failed) (hfails : fails app visit = true) (eventId : Uuid) :
    pipelineOutcome app visit eventId = if eventId = failed then some .failed else none := by
  unfold pipelineOutcome actsOf
  rw [hacts, List.drop_length, if_neg (by simp), hsubject, hfails]
  by_cases heq : eventId = failed
  · rw [if_pos heq, if_pos ⟨by rw [heq], rfl⟩]
  · rw [if_neg heq, if_neg fun h => heq (Option.some.inj h.1).symm]

end Outcome

/-! ### What a request tells -/

/-- How a request moves its event on the worklist. -/
inductive Moves (app : App) (visit : ServiceVisit) : Prop
  | still (houtcome : ∀ eventId, pipelineOutcome app visit eventId = none)
      (hsame : ∀ eventId, Unresolved eventId visit.after.db ↔ Unresolved eventId visit.before.db)
  | failed {failed}
      (houtcome : ∀ eventId, pipelineOutcome app visit eventId =
        if eventId = failed then some .failed else none)
      (hopens : ∀ eventId, Unresolved eventId visit.after.db ↔
        eventId = failed ∨ Unresolved eventId visit.before.db)
  | completed {event} (houtcome : ∀ eventId, pipelineOutcome app visit eventId =
        if eventId = Event.id event then some .completed else none)
      (hstarts : Starts app visit.before.db visit.input event)
      (hlast : Interpret.lastFails app visit.session.replies = false)
      (hsame : ∀ eventId, Unresolved eventId visit.after.db ↔ Unresolved eventId visit.before.db)
  | replayed {replayed} (houtcome : ∀ eventId, pipelineOutcome app visit eventId =
        if eventId = replayed then some .completed else none)
      (hcloses : ∀ eventId, Unresolved eventId visit.after.db ↔
        eventId ≠ replayed ∧ Unresolved eventId visit.before.db)

theorem subject_of_accepted {L L₁ L' : Ledger Db Write} {body : Option Body} {payload : Json.Fields}
    {model : EventIn} {event : Event} {status : Ingest.IngestStatus}
    {r : Except Error Response} {s : Session Write Reply}
    (hbody : body.map Body.json = some (.obj payload))
    (hvalid : Schemas.validate app payload = .ok model)
    (haccepted : Accepted app L model payload event status L₁) (hdistinct : L.db.Distinct)
    (hdistinct' : L'.db.Distinct) (hevents : L'.db .events = L₁.db .events) :
    subject app ⟨.postEvent body, L, r, s, L'⟩ = some event.id := by
  obtain ⟨hcarries, hsets⟩ := haccepted.sets hdistinct
  have hmem : event ∈ L'.db .events := by
    rw [hevents]
    exact hsets.new_mem
  obtain ⟨key, hkey⟩ := Ingest.computeDedupeKey_isSome hvalid
  simp only [subject, hbody, hvalid]
  cases hfind : (L'.db .events).find? fun event => Event.isValid event && decide
      (Event.dedupeKey event =
        Ingest.computeDedupeKey app (.str model.source) (.str model.externalEventId)) with
  | none =>
      have hnone := List.find?_eq_none.mp hfind event hmem
      simp [hcarries.isValid, hcarries.dedupeKey] at hnone
  | some found =>
      have hfound := List.find?_some hfind
      simp only [Bool.and_eq_true, decide_eq_true_eq] at hfound
      rw [hdistinct'.eq_of_indexed (t := .events) (List.mem_of_find?_eq_some hfind) hmem
        (indexed_of_holds hkey ⟨hfound.1, hfound.2⟩) (indexed_of_holds hkey hcarries.toHolds)]
      rfl

theorem subject_of_review {request : Request} {review : ManualReviewQueue}
    {L L' : Ledger Db Write} {r : Except Error Response} {s : Session Write Reply}
    (hrequest : request.review = some review.id) (hreview : review ∈ L.db .manualReviewQueue)
    (hdistinct : L.db.Distinct) : subject app ⟨request, L, r, s, L'⟩ = some review.eventId := by
  have hfound : ((L.db .manualReviewQueue).find? fun other =>
      ManualReviewQueue.id other = review.id).map ManualReviewQueue.eventId = some review.eventId := by
    cases hfind : (L.db .manualReviewQueue).find? fun other =>
        ManualReviewQueue.id other = review.id with
    | none => simpa using List.find?_eq_none.mp hfind review hreview
    | some found =>
        have hid : ManualReviewQueue.id found = review.id := by simpa using List.find?_some hfind
        rw [hdistinct.eq_of_id (t := .manualReviewQueue) (List.mem_of_find?_eq_some hfind) hreview hid]
        rfl
  cases request with
  | resolveManualReview =>
      obtain rfl : _ = _ := hrequest
      exact hfound
  | resolveForm =>
      obtain rfl : _ = _ := hrequest
      exact hfound
  | _ => cases hrequest

/-- A refused body is about no event. -/
theorem subject_of_refusal {body : Option Body} {payload : Json.Fields} {reason : String}
    {L L' : Ledger Db Write} {r : Except Error Response} {s : Session Write Reply}
    (h : Events.refusal app (body.map Body.json) = some (payload, reason)) :
    subject app ⟨.postEvent body, L, r, s, L'⟩ = none := by
  unfold subject
  dsimp only
  split
  · next payload' hbody =>
    split
    · next model hvalid => exact absurd hvalid (Events.refusal_invalid h hbody)
    · rfl
  · rfl

theorem fails_eq {request : Request} {L L' : Ledger Db Write} {r : Except Error Response}
    {s : Session Write Reply}
    (hrequest : ∀ authorized stage eventId, request ≠ .simulateFailure authorized stage eventId) :
    fails app ⟨request, L, r, s, L'⟩ = Interpret.lastFails app s.replies := by
  cases request with
  | simulateFailure => exact absurd rfl (hrequest _ _ _)
  | _ => rfl

theorem Request.Decides.ne_simulateFailure {request : Request} {reviewId identityId : Uuid}
    {decision : String} (h : request.Decides reviewId decision identityId) (authorized : Bool)
    (stage : String) (eventId : Option Uuid) :
    request ≠ .simulateFailure authorized stage eventId := by
  rintro rfl
  exact h

/-- A request that runs the pipeline of an event, from a ledger where nothing has been done yet. -/
theorem Piped.moves {L L₁ L' : Ledger Db Write} {event : Event} {identityId : Uuid}
    {request : Request} {result : Except Error Response} {s : Session Write Reply}
    {r : Except Error (Option Pipeline.Outcome)}
    (h : Piped app L₁ event identityId s.replies r L') (hhistory : History app still L₁)
    (hacts : acts L₁.log = acts L.log)
    (hdlqs : L₁.db .deadLetterQueue = L.db .deadLetterQueue)
    (hsubject : subject app ⟨request, L, result, s, L'⟩ = some event.id)
    (hrequest : ∀ authorized stage eventId, request ≠ .simulateFailure authorized stage eventId)
    (htext : Interpret.textual event.rawPayload = true)
    (hreplies : ∀ reply ∈ s.replies.getLast?, Interpret.harmless app reply = true)
    (hstarts : Starts app L.db request event) : Moves app ⟨request, L, result, s, L'⟩ := by
  have hfails : fails app ⟨request, L, result, s, L'⟩ = Interpret.lastFails app s.replies :=
    fails_eq hrequest
  obtain ⟨outcome, rfl⟩ | rfl :=
    h.ended hhistory.distinct (Interpret.extractText_ne_none htext) hreplies
  · obtain ⟨hacts', hdlqs', hlast⟩ := h.acted_tells hhistory
    refine .completed (pipelineOutcome_of_acted (hacts'.trans (by rw [hacts])) (hfails.trans hlast))
      hstarts hlast (unresolved_of_eq (hdlqs'.trans hdlqs))
  · obtain ⟨hacts', hlast, hopens⟩ := h.failed_tells
    refine .failed (pipelineOutcome_of_failed (hacts'.trans hacts) hsubject (hfails.trans hlast))
      fun eventId => (hopens eventId).trans (or_congr_right (unresolved_of_eq hdlqs eventId))

theorem Identified.dead {event : Event} {identityId : Uuid}
    (h : Identified app L event identityId L') :
    acts L'.log = acts L.log ∧ L'.db .deadLetterQueue = L.db .deadLetterQueue := by
  cases h with
  | found => exact ⟨rfl, rfl⟩
  | linked hlinks =>
      exact ⟨acts_of_records hlinks.records (by decide) (by decide),
        commit_of_untouched (hlinks.tables.ne (by decide))⟩

theorem Accepted.acts {payload : Json.Fields} {model : EventIn} {event : Event}
    {status : Ingest.IngestStatus} (h : Accepted app L model payload event status L') :
    DemandSignal.acts L'.log = DemandSignal.acts L.log := by
  cases h with
  | created h => exact acts_of_records h.records (by decide) (by decide)
  | edited h => exact acts_of_records h.records (by decide) (by decide)

/-- The event whose review is decided starts its pipeline. -/
theorem Resolve.Resolves.starts {request : Request} {decision : String}
    {review : ManualReviewQueue} {identityId : Uuid} {ws : List Write} {event : Event}
    (h : Resolves still L decision review identityId ws)
    (hdecides : request.Decides review.id decision identityId)
    (hevent : event ∈ (L.commit ws).db .events) (heventId : event.id = review.eventId) :
    Starts app L.db request event := by
  obtain ⟨hreview, hpending⟩ := h.pending
  refine .decided hdecides hreview hpending (fun hmerge => ?_) ?_ heventId
  · cases h with
    | merged _ _ htarget => exact ⟨_, htarget, rfl⟩
    | created _ hdecision => exact absurd hmerge hdecision
  · rwa [commit_of_untouched (h.tables.ne (by decide))] at hevent

theorem Visited.moves {request : Request} {result : Except Error Response}
    {s : Session Write Reply} (h : Visited app L s.replies request result L')
    (hhistory : History app still L) (hafter : History app still L')
    (htexts : ∀ event ∈ L'.db .events, Interpret.textual (Event.rawPayload event) = true)
    (hreplies : ∀ reply ∈ s.replies.getLast?, Interpret.harmless app reply = true) :
    Moves app ⟨request, L, result, s, L'⟩ := by
  have hstill : ∀ {L₁ : Ledger Db Write}, L₁ = L' → acts L₁.log = acts L.log →
      L₁.db .deadLetterQueue = L.db .deadLetterQueue →
      (subject app ⟨request, L, result, s, L'⟩ = none ∨
        fails app ⟨request, L, result, s, L'⟩ = false) →
      Moves app ⟨request, L, result, s, L'⟩ := by
    rintro L₁ rfl hacts hdlqs hfails
    exact .still (pipelineOutcome_of_still hacts hfails) (unresolved_of_eq hdlqs)
  have hsilent : s.replies = [] → Interpret.lastFails app s.replies = false := by
    intro hheard
    rw [hheard]
    rfl
  cases h with
  | posted hbody hvalid hposted =>
      cases hposted with
      | duplicate _ _ _ hheard => exact hstill rfl rfl rfl (.inr (hsilent hheard))
      | unacceptable _ hheard => exact hstill rfl rfl rfl (.inr (hsilent hheard))
      | parked haccepted hparks _ hheard =>
          refine hstill rfl ?_ ?_ (.inr (hsilent hheard))
          · rw [acts_of_records hparks.records (by decide) (by decide), haccepted.acts]
          · rw [commit_of_untouched (hparks.tables.ne (by decide)), haccepted.identities.2.2.2]
      | piped haccepted hidentified hpiped =>
          obtain ⟨hacts, hdlqs⟩ := hidentified.dead
          have hevents := hpiped.events.trans hidentified.events
          have hhistory₁ := haccepted.history hhistory
          refine hpiped.moves (hidentified.history hhistory₁) (hacts.trans haccepted.acts)
            (hdlqs.trans haccepted.identities.2.2.2)
            (subject_of_accepted hbody hvalid haccepted hhistory.distinct hafter.distinct hevents)
            (fun _ _ _ => by simp) (htexts _ ?_) hreplies
            (haccepted.starts hbody hvalid hidentified hhistory.distinct hhistory.grounded)
          rw [hevents]
          exact haccepted.event_mem
  | rejected hrefusal hrefuses =>
      exact hstill rfl (acts_of_records hrefuses.rejects.records (by decide) (by decide))
        (commit_of_untouched (hrefuses.rejects.tables.ne (by decide)))
        (.inl (subject_of_refusal hrefusal))
  | malformed => exact hstill rfl rfl rfl (.inl rfl)
  | unrecorded hrefusal => exact hstill rfl rfl rfl (.inl (subject_of_refusal hrefusal))
  | quiet hquiet =>
      refine hstill rfl rfl rfl ?_
      cases request with
      | postEvent => exact hquiet.elim
      | resolveManualReview => exact .inr (hsilent hquiet)
      | resolveForm => exact .inr (hsilent hquiet)
      | replayEvent => exact .inr (hsilent hquiet)
      | simulateFailure =>
          obtain ⟨x, rfl⟩ := hquiet
          exact .inr rfl
      | _ => exact .inl rfl
  | reviewed hdecides hresolves _ _ hheard =>
      refine hstill rfl (acts_of_records hresolves.records (by decide) (by decide))
        (commit_of_untouched (hresolves.tables.ne (by decide))) (.inr ?_)
      rw [fails_eq hdecides.ne_simulateFailure, hsilent hheard]
  | resumed hdecides hresolves happ hevent heventId hpiped =>
      refine hpiped.moves (hhistory.commit (.resolves hresolves) happ)
        (acts_of_records hresolves.records (by decide) (by decide))
        (commit_of_untouched (hresolves.tables.ne (by decide))) ?_ hdecides.ne_simulateFailure
        (htexts _ ?_) hreplies (hresolves.starts hdecides hevent heventId)
      · exact (subject_of_review hdecides.review hresolves.pending.1 hhistory.distinct).trans
          (congrArg some heventId.symm)
      · rwa [hpiped.events]
  | @replayed authorized event dlq identityId x r L' hevent _ _ _ _ hfailed hpiped =>
      have htext := htexts event (by rwa [hpiped.events])
      obtain ⟨outcome, rfl⟩ | rfl :=
        hpiped.ended hhistory.distinct (Interpret.extractText_ne_none htext) hreplies
      · exact absurd rfl (hfailed outcome)
      · obtain ⟨hacts, hlast, hopens⟩ := hpiped.failed_tells
        exact .failed (pipelineOutcome_of_failed hacts rfl hlast) hopens
  | @revived authorized event identityId outcome L₁ ws hevent _ hpiped hrevives happ =>
      obtain ⟨hacts, hdlqs, hlast⟩ := hpiped.acted_tells hhistory
      have hdistinct₁ := (hpiped.history hhistory).distinct
      have hacts₁ : acts (L₁.commit ws).log =
          acts L.log ++ [⟨identityId, event.id, event.receivedAt⟩] :=
        (acts_of_records hrevives.records (by decide) (by decide)).trans hacts
      exact .replayed (pipelineOutcome_of_acted hacts₁ hlast) fun eventId =>
        (hrevives.unresolved hdistinct₁ eventId).trans
          (and_congr_right fun _ => unresolved_of_eq hdlqs eventId)
  | simulated hdead =>
      exact .failed (pipelineOutcome_of_failed
        (acts_of_records hdead.records (by decide) (by decide)) rfl rfl) hdead.unresolved
  | escalated hreads hescalates =>
      refine hstill rfl (acts_of_records hescalates.records (by decide) (by decide))
        (commit_of_untouched (hescalates.tables.ne (by decide))) (.inl ?_)
      cases request with
      | listLeads => rfl
      | getLead => rfl
      | reconciliation => rfl
      | _ => exact hreads.elim

end DemandSignal
