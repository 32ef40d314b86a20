import DemandSignal.Spec.History

/-!
# Visits

What serving one request alone does to the ledger. Nobody interferes, so every transaction is applied
to the ledger that the one before it has left.
-/

namespace DemandSignal

open Txn Program

variable {app : App} {L L' : Ledger Db Write} {heard : List Reply}

/-- A pipeline run of an event. -/
inductive Piped (app : App) (L : Ledger Db Write) (event : Event) (identityId : Uuid)
    (heard : List Reply) : Except Error (Option Pipeline.Outcome) → Ledger Db Write → Prop
  | acted {ws₁ ws₂ ws₃ fields interpretation current score acted}
      (hfields : Interpret.Classification app event heard fields)
      (hinterprets : Interpret.Interprets still L event fields interpretation ws₁)
      (happ₁ : Applicable ws₁ L.db) (hcurrent : current ∈ (L.commit ws₁).db .interpretations)
      (heventId : current.eventId = event.id)
      (hscores : Scoring.Scores app still (L.commit ws₁) event identityId current score ws₂)
      (happ₂ : Applicable ws₂ (L.commit ws₁).db)
      (hacts : Act.Performs app still ((L.commit ws₁).commit ws₂) event identityId (some score) acted
        ws₃)
      (happ₃ : Applicable ws₃ ((L.commit ws₁).commit ws₂).db) :
      Piped app L event identityId heard (.ok (some ⟨interpretation, some score, acted⟩))
        (((L.commit ws₁).commit ws₂).commit ws₃)
  | dead {ws error} (herror : Interpret.Exhausted app event heard error)
      (hdead : Interpret.DeadLetters still L event ws) (happ : Applicable ws L.db) :
      Piped app L event identityId heard (.ok none) (L.commit ws)
  | alreadyDead {error} (herror : Interpret.Exhausted app event heard error)
      (hheld : L.db.holds .deadLetterQueue (.unresolvedEvent event.id) = true) :
      Piped app L event identityId heard (.ok none) L
  | noText (htext : Interpret.extractText event = none) :
      Piped app L event identityId heard (.error .attributeError) L
  | unstorable {fields} (hfields : Interpret.Classification app event heard fields)
      (hunstorable : fields.storable = false) :
      Piped app L event identityId heard (.error .dataError) L
  | badMessage {error} (herror : Interpret.Exhausted app event heard error)
      (hunstorable : Python.storable (Python.take 500 error.message) = false) :
      Piped app L event identityId heard (.error .dataError) L
  | noScore {ws fields interpretation current}
      (hfields : Interpret.Classification app event heard fields)
      (hinterprets : Interpret.Interprets still L event fields interpretation ws)
      (happ : Applicable ws L.db) (hcurrent : current ∈ (L.commit ws).db .interpretations)
      (heventId : current.eventId = event.id)
      (hscore : Scoring.computeScore app.scoringPolicy current.label current.confidence event.source
        event.consent event.campaignId = none) :
      Piped app L event identityId heard (.error .valueError) (L.commit ws)

/-- An accepted payload makes a new event, or a new version of one. -/
inductive Accepted (app : App) (L : Ledger Db Write) (model : EventIn) (payload : Json.Fields)
    (event : Event) : Ingest.IngestStatus → Ledger Db Write → Prop
  | created {ws} (hcreates : Ingest.Creates app model payload event.id ws)
      (happ : Applicable ws L.db) (hevent : event ∈ (L.commit ws).db .events) :
      Accepted app L model payload event .created (L.commit ws)
  | edited {existing ws} (hedits : Ingest.Edits app still L model payload existing ws)
      (happ : Applicable ws L.db) (hevent : event ∈ (L.commit ws).db .events)
      (hid : event.id = existing.id) :
      Accepted app L model payload event .edit (L.commit ws)

/-- An event has a link, or gets one. -/
inductive Identified (app : App) (L : Ledger Db Write) (event : Event) (identityId : Uuid) :
    Ledger Db Write → Prop
  | found (hlinked : Resolve.Linked event.id identityId L.db) :
      Identified app L event identityId L
  | linked {ws} (hlinks : Resolve.Links app still L event identityId ws)
      (happ : Applicable ws L.db) : Identified app L event identityId (L.commit ws)

/-- A `POST` of a payload that the schema accepts. -/
inductive Posted (app : App) (L : Ledger Db Write) (heard : List Reply) (model : EventIn)
    (payload : Json.Fields) : Except Error Events.Answer → Ledger Db Write → Prop
  | duplicate {event} (hevent : event ∈ L.db .events) (hholds : Ingest.Holds app model event)
      (hhash : event.payloadHash = Ingest.computePayloadHash app payload) (hheard : heard = []) :
      Posted app L heard model payload (.ok (200, { eventId := event.id, duplicate := true })) L
  | unacceptable (hdata : Ingest.acceptable model payload = false) (hheard : heard = [])
      (hdiffers : Ingest.Differs app model payload L.db) :
      Posted app L heard model payload (.error .dataError) L
  | parked {event status L₁ ws reviewId} (haccepted : Accepted app L model payload event status L₁)
      (hparks : Resolve.Parks app still L₁ event ws) (happ : Applicable ws L₁.db)
      (hheard : heard = []) :
      Posted app L heard model payload
        (.ok (200, { eventId := event.id, isEdit := status = .edit, status := some "manual_review"
                     reviewId := some reviewId })) (L₁.commit ws)
  | piped {event status L₁ L₂ identityId r L'}
      (haccepted : Accepted app L model payload event status L₁)
      (hidentified : Identified app L₁ event identityId L₂)
      (hpiped : Piped app L₂ event identityId heard r L') :
      Posted app L heard model payload (Events.answerOf event.id status identityId r) L'

def Request.Posts (request : Request) : Prop := ∃ body, request = .postEvent body

/-- The review a request decides on. -/
def Request.review : Request → Option Uuid
  | .resolveManualReview reviewId _ _ => reviewId
  | .resolveForm reviewId _ _ => reviewId
  | _ => none

/-- The request is a decision on the review that names the identity if it merges. -/
def Request.Decides (reviewId : Uuid) (decision : String) (identityId : Uuid) : Request → Prop
  | .resolveManualReview named taken choice => named = some reviewId ∧ taken = decision ∧
      (decision = "merge_into" ∨ decision = "create_new") ∧
      (decision = "merge_into" → choice = some (some identityId))
  | .resolveForm named taken choice => named = some reviewId ∧ taken = decision ∧
      (decision = "merge_into" → choice = some (some identityId))
  | _ => False

def Request.Reads : Request → Prop
  | .listLeads _ => True
  | .getLead _ _ => True
  | .reconciliation _ => True
  | _ => False

/-- A request that leaves the ledger alone and is no `POST` of an event has not asked the provider,
and no failure is simulated. -/
def Request.Quiet (heard : List Reply) : Request → Except Error Response → Prop
  | .postEvent _, _ => False
  | .resolveManualReview _ _ _, _ => heard = []
  | .resolveForm _ _ _, _ => heard = []
  | .replayEvent _ _, _ => heard = []
  | .simulateFailure _ _ _, r => ∃ x, r = .error x
  | _, _ => True

/-- What a request does to the ledger, what it hears of the provider and what it returns. -/
inductive Visited (app : App) (L : Ledger Db Write) (heard : List Reply) :
    Request → Except Error Response → Ledger Db Write → Prop
  | posted {body payload model r L'} (hbody : body.map Body.json = some (.obj payload))
      (hvalid : Schemas.validate app payload = .ok model)
      (hposted : Posted app L heard model payload r L') :
      Visited app L heard (.postEvent body) (r.map Response.ingest) L'
  | rejected {body eventId payload reason ws}
      (hrefusal : Events.refusal app (body.map Body.json) = some (payload, reason))
      (hrefuses : Ingest.Refuses app payload reason ws) (happ : Applicable ws L.db)
      (hrecordable : Ingest.recordable app payload reason = true) :
      Visited app L heard (.postEvent body)
        (.ok (.ingest (200, { eventId, isValid := false, invalidReason := some reason })))
        (L.commit ws)
  | malformed {x} : Visited app L heard (.postEvent none) (.error x) L
  | unrecorded {body x payload reason}
      (hrefusal : Events.refusal app (body.map Body.json) = some (payload, reason))
      (hrecordable : Ingest.recordable app payload reason = false) :
      Visited app L heard (.postEvent body) (.error x) L
  | quiet {request r} (hquiet : request.Quiet heard r) : Visited app L heard request r L
  | reviewed {request r decision review identityId ws} (hdecides : request.Decides review.id decision identityId)
      (hresolves : Resolve.Resolves still L decision review identityId ws)
      (happ : Applicable ws L.db)
      (hgone : ∀ event ∈ (L.commit ws).db .events, event.id ≠ review.eventId) (hheard : heard = []) :
      Visited app L heard request r (L.commit ws)
  | resumed {request r decision review identityId ws event r' L'}
      (hdecides : request.Decides review.id decision identityId)
      (hresolves : Resolve.Resolves still L decision review identityId ws)
      (happ : Applicable ws L.db) (hevent : event ∈ (L.commit ws).db .events)
      (heventId : event.id = review.eventId)
      (hpiped : Piped app (L.commit ws) event identityId heard r' L') :
      Visited app L heard request r L'
  | replayed {authorized event dlq identityId x r L'} (hevent : event ∈ L.db .events)
      (hlinked : Resolve.Linked event.id identityId L.db) (hdlq : dlq ∈ L.db .deadLetterQueue)
      (heventId : dlq.eventId = event.id) (hopen : dlq.resolved = false)
      (hfailed : ∀ outcome, r ≠ .ok (some outcome))
      (hpiped : Piped app L event identityId heard r L') :
      Visited app L heard (.replayEvent authorized (some event.id)) (.error x) L'
  | revived {authorized event identityId outcome L₁ ws} (hevent : event ∈ L.db .events)
      (hlinked : Resolve.Linked event.id identityId L.db)
      (hpiped : Piped app L event identityId heard (.ok (some outcome)) L₁)
      (hrevives : Interpret.Revives still L₁ event.id identityId ws) (happ : Applicable ws L₁.db) :
      Visited app L heard (.replayEvent authorized (some event.id))
        (.ok (.replayed ⟨event.id, outcome.acted⟩)) (L₁.commit ws)
  | simulated {authorized stage dlq event ws}
      (hdead : Interpret.DeadLetters still L event ws) (happ : Applicable ws L.db) :
      Visited app L heard (.simulateFailure authorized stage (some event.id)) (.ok (.deadLettered dlq))
        (L.commit ws)
  | escalated {request r ws} (hreads : request.Reads)
      (hescalates : Escalation.Escalates still L ws) (happ : Applicable ws L.db) :
      Visited app L heard request r (L.commit ws)

theorem Request.Decides.review {request : Request} {reviewId identityId : Uuid} {decision : String}
    (h : request.Decides reviewId decision identityId) : request.review = some reviewId := by
  cases request with
  | resolveManualReview => exact h.1
  | resolveForm => exact h.1
  | _ => exact h.elim

theorem Request.Decides.not_posts {request : Request} {reviewId identityId : Uuid}
    {decision : String} (h : request.Decides reviewId decision identityId) : ¬ request.Posts := by
  rintro ⟨body, rfl⟩
  exact h

theorem Request.not_posts_of_reads {request : Request} (h : request.Reads) : ¬ request.Posts := by
  rintro ⟨body, rfl⟩
  exact h

/-- A body that is refused is not accepted. -/
theorem Events.refusal_invalid {body : Option Json} {payload : Json.Fields} {reason : String}
    (h : Events.refusal app body = some (payload, reason)) {payload' : Json.Fields} {model : EventIn}
    (hbody : body = some (.obj payload')) : Schemas.validate app payload' ≠ .ok model := by
  intro hvalid
  rw [hbody, Events.refusal, hvalid] at h
  cases h

section Inversion

variable {Answers : Question → Reply → Prop} {commits : Session Write Reply → Ledger Db Write → Prop}
  {s s' : Session Write Reply}

theorem Pipeline.Ends.piped {event : Event} {identityId : Uuid}
    {r : Except Error (Option Pipeline.Outcome)}
    (h : Pipeline.Ends app (alone Answers commits) still s L event identityId r s' L') :
    ∃ heard, s'.replies = s.replies ++ heard ∧ Piped app L event identityId heard r L' := by
  cases h with
  | acted hrests hbefore₁ hfields hinterprets happ₁ hbefore₂ hcurrent heventId hscores happ₂
      hbefore₃ hacts happ₃ =>
      rw [before_alone] at hbefore₁ hbefore₂ hbefore₃
      subst hbefore₁ hbefore₂ hbefore₃
      exact ⟨_, hrests.replies,
        .acted hfields hinterprets happ₁ hcurrent heventId hscores happ₂ hacts happ₃⟩
  | dead hrests hbefore herror hdead happ =>
      rw [before_alone] at hbefore
      subst hbefore
      exact ⟨_, hrests.replies, .dead herror hdead happ⟩
  | alreadyDead hrests hbefore herror hheld hafter =>
      rw [before_alone] at hbefore hafter
      subst hbefore hafter
      exact ⟨_, hrests.replies, .alreadyDead herror hheld⟩
  | noText htext => exact ⟨[], (List.append_nil _).symm, .noText htext⟩
  | unstorable hrests hbefore hfields hunstorable =>
      rw [before_alone] at hbefore
      subst hbefore
      exact ⟨_, hrests.replies, .unstorable hfields hunstorable⟩
  | badMessage hrests hbefore herror hunstorable =>
      rw [before_alone] at hbefore
      subst hbefore
      exact ⟨_, hrests.replies, .badMessage herror hunstorable⟩
  | noScore hrests hbefore hfields hinterprets happ hafter hcurrent heventId hscore =>
      rw [before_alone] at hbefore hafter
      subst hbefore hafter
      exact ⟨_, hrests.replies, .noScore hfields hinterprets happ hcurrent heventId hscore⟩
  | raced hraced => exact absurd hraced not_raced_alone

theorem Events.Ingested.accepted {model : EventIn} {payload : Json.Fields} {event : Event}
    {status : Ingest.IngestStatus}
    (h : Events.Ingested app (alone Answers commits) still s L model payload event status s' L') :
    s'.replies = s.replies ∧ Accepted app L model payload event status L' := by
  refine ⟨by rw [h.rests.replies, List.append_nil], ?_⟩
  cases h with
  | created hrests hbefore hcreates happ hafter hevent hown hnew =>
      rw [before_alone] at hbefore hafter
      subst hbefore hafter
      exact .created hcreates happ hevent
  | edited hrests hbefore hedits happ hafter hevent hid =>
      rw [before_alone] at hbefore hafter
      subst hbefore hafter
      exact .edited hedits happ hevent hid

theorem Events.Resolved.identified {own : List Uuid} {event : Event} {identityId : Uuid}
    (h : Events.Resolved app (alone Answers commits) still own L event identityId L') :
    Identified app L event identityId L' := by
  cases h with
  | found hbefore hlinked =>
      rw [before_alone] at hbefore
      subst hbefore
      exact .found hlinked
  | linked hbefore hlinks happ hafter =>
      rw [before_alone] at hbefore hafter
      subst hbefore hafter
      exact .linked hlinks happ

theorem ManualReview.Ends.visited {decision : String} {request : Request}
    {r : Except Error Response} {reviewId : Option Uuid} {choice : Option (Option Uuid)}
    (hdecides : ∀ id identityId, reviewId = some id →
      (decision = "merge_into" → choice = some (some identityId)) →
      request.Decides id decision identityId)
    (hquiet : request.Quiet [] r) (hs : s.replies = [])
    (h : ManualReview.Ends app (alone Answers commits) still s L reviewId decision choice s' L') :
    Visited app L s'.replies request r L' := by
  cases h with
  | refused hbefore hreplies =>
      rw [before_alone] at hbefore
      subst hbefore
      rw [hreplies, hs]
      exact .quiet hquiet
  | resolved hbefore hid hchoice hresolves happ hafter hgone hreplies =>
      rw [before_alone] at hbefore hafter
      subst hbefore hafter
      exact .reviewed (hdecides _ _ hid hchoice) hresolves happ hgone (hreplies.trans hs)
  | piped hbefore hid hchoice hresolves happ hafter hevent heventId hrests hends =>
      rw [before_alone] at hbefore hafter
      subst hbefore hafter
      obtain ⟨heard, hheard, hpiped⟩ := hends.piped
      rw [hrests.replies, hs, List.append_nil, List.nil_append] at hheard
      rw [hheard]
      exact .resumed (hdecides _ _ hid hchoice) hresolves happ hevent heventId hpiped
  | raced hraced => exact absurd hraced not_raced_alone

theorem Admin.Ends.visited {authorized : Bool} {eventId : Option Uuid}
    {r : Except Error Admin.Replayed} (hs : s.replies = [])
    (h : Admin.Ends app (alone Answers commits) still s L eventId r s' L') :
    Visited app L s'.replies (.replayEvent authorized eventId) (r.map Response.replayed) L' := by
  have hnotShared : ¬ still.shared := id
  cases h with
  | refused hbefore hreplies =>
      rw [before_alone] at hbefore
      subst hbefore
      rw [hreplies, hs]
      exact .quiet rfl
  | piped hbefore hevent hid hlinked hdlq heventId hopen hrests hfailed hends =>
      rw [before_alone] at hbefore
      subst hbefore
      obtain ⟨heard, hheard, hpiped⟩ := hends.piped
      rw [hrests.replies, hs, List.append_nil, List.nil_append] at hheard
      rw [hheard, hid]
      exact .replayed hevent (hlinked.resolve_left hnotShared) hdlq heventId hopen hfailed hpiped
  | revived hbefore hevent hid hlinked hrests hends hafter hrevives happ hquiet =>
      rw [before_alone] at hbefore hafter
      subst hbefore hafter
      obtain ⟨heard, hheard, hpiped⟩ := hends.piped
      rw [hrests.replies, hs, List.append_nil, List.nil_append] at hheard
      rw [hquiet, hheard, hid]
      exact .revived hevent (hlinked.resolve_left hnotShared) hpiped hrevives happ
  | raced hraced => exact absurd hraced not_raced_alone

end Inversion

theorem wp_createEvent_alone {Answers : Question → Reply → Prop} {body : Option Body} :
    wp (alone Answers fun _ _ => True : Rules Db Write Question Reply)
      (Events.createEvent app (body.map Body.json))
      (fun r s' L' => Visited app L s'.replies (.postEvent body) (r.map Response.ingest) L') {} L := by
  have howes : ∀ {s : Session Write Reply} {T : Ledger Db Write → List Write → Prop},
      Owes (alone Answers fun _ _ => True) s T := fun _ _ _ _ _ => trivial
  by_cases hvalid : ∃ payload model, body.map Body.json = some (.obj payload) ∧
      Schemas.validate app payload = .ok model
  · obtain ⟨payload, model, hbody, hvalid⟩ := hvalid
    rw [hbody]
    refine Events.wp_createEvent fair_alone rfl hvalid (fun _ => howes) (fun _ => howes)
      (fun s₁ L₁ event status _ => .of_owes howes)
      (fun s' L' event hrests hbefore hevent hholds hhash => ?_)
      (fun hdata s' L' hrests hbefore hdiffers => ?_)
      (fun s₁ L₁ event status hingested s' L₂ L' ws reviewId hrests hbefore hparks happ hafter => ?_)
      (fun s₁ L₁ event status hingested s₂ L₂ identityId hrests hresolved r s' L' hends => ?_)
      fun r s' L' hraced => absurd hraced not_raced_alone
    · rw [before_alone] at hbefore
      subst hbefore
      exact .posted (r := .ok _) hbody hvalid (.duplicate hevent hholds hhash hrests.replies)
    · rw [before_alone] at hbefore
      subst hbefore
      exact .posted (r := .error _) hbody hvalid (.unacceptable hdata hrests.replies hdiffers)
    · rw [before_alone] at hbefore hafter
      subst hbefore hafter
      obtain ⟨hreplies, haccepted⟩ := hingested.accepted
      refine .posted (r := .ok _) hbody hvalid (.parked haccepted hparks happ ?_)
      rw [hrests.replies, List.append_nil, hreplies]
    · obtain ⟨hreplies, haccepted⟩ := hingested.accepted
      obtain ⟨heard, hheard, hpiped⟩ := hends.piped
      rw [hrests.replies, List.append_nil, hreplies] at hheard
      rw [hheard]
      exact .posted hbody hvalid (.piped haccepted hresolved.identified hpiped)
  · have hinvalid : ∀ payload model, body.map Body.json = some (.obj payload) →
        Schemas.validate app payload ≠ .ok model :=
      fun payload model hbody hmodel => hvalid ⟨payload, model, hbody, hmodel⟩
    refine Events.wp_createEvent_invalid fair_alone rfl hinvalid howes (fun hbody x => ?_)
      (fun payload reason hrefusal hrecordable x L' hbefore => ?_)
      fun payload reason hrefusal eventId s' L₁ L' ws hbefore hrecordable hrefuses happ hafter => ?_
    · obtain rfl : body = none := by simpa using hbody
      exact .malformed
    · rw [before_alone] at hbefore
      subst hbefore
      exact .unrecorded hrefusal hrecordable
    · rw [before_alone] at hbefore hafter
      subst hbefore hafter
      exact .rejected hrefusal hrefuses happ hrecordable

attribute [local irreducible] Dashboard.reconciliation

/-- **A request served alone is visited.** -/
theorem visited_of_runs {request : Request} {r : Except Error Response} {s : Session Write Reply}
    (hrun : Runs ((service app).solo request) {} L (handle app request) r s L') :
    Visited app L s.replies request r L' := by
  have howes : ∀ T, Owes (alone (service app).Answers fun _ _ => True) ({} : Session Write Reply) T :=
    fun _ _ _ _ _ _ => trivial
  refine hrun.of_wp (fun r s L' => Visited app L s.replies request r L') ?_
  cases request with
  | postEvent body =>
      simp only [handle, bind_eq, pure_eq, wp_bind]
      refine wp_mono (fun r s' L' h => ?_) wp_createEvent_alone
      cases r <;> exact h
  | resolveManualReview reviewId decision identityId =>
      simp only [handle, bind_eq, pure_eq, wp_bind]
      refine ManualReview.wp_resolveManualReview fair_alone rfl (howes _)
        (fun r s' L' hbefore hreplies => ?_) fun hdecision r s' L' hends => ?_
      · rw [before_alone] at hbefore
        subst hbefore
        cases r <;> exact .quiet hreplies
      · cases r <;> exact hends.visited (fun _ _ hid hchoice => ⟨hid, rfl, hdecision, hchoice⟩) rfl rfl
  | resolveForm reviewId decision identityId =>
      simp only [handle, bind_eq, pure_eq, wp_bind]
      refine ManualReview.wp_resolveForm fair_alone rfl (howes _) fun r s' L' hends => ?_
      cases r <;> exact hends.visited (fun _ _ hid hchoice => ⟨hid, rfl, hchoice⟩) rfl rfl
  | replayEvent authorized eventId =>
      simp only [handle, bind_eq, pure_eq, wp_bind]
      refine Admin.wp_replayEvent fair_alone rfl (howes _) fun r s' L' hends => ?_
      have hvisited : Visited app L s'.replies (.replayEvent authorized eventId)
          (r.map Response.replayed) L' := hends.visited rfl
      cases r <;> exact hvisited
  | simulateFailure authorized stage eventId =>
      simp only [handle, bind_eq, pure_eq, wp_bind]
      refine Admin.wp_simulateFailure fair_alone rfl (fun _ => howes _) (fun x s' L' hbefore => ?_)
        fun dlq s' L₁ event ws hbefore hid hdead happ => ?_
      · rw [before_alone] at hbefore
        subst hbefore
        exact .quiet ⟨x, rfl⟩
      · rw [before_alone] at hbefore
        subst hbefore hid
        exact .simulated hdead happ
  | listLeads filters =>
      simp only [handle, bind_eq, pure_eq, wp_bind]
      refine Leads.wp_listLeads fair_alone rfl (howes _) fun views s' L₁ ws hbefore hescalates happ => ?_
      rw [before_alone] at hbefore
      subst hbefore
      exact .escalated trivial hescalates happ
  | getLead withEvent leadId =>
      simp only [handle, bind_eq, pure_eq, wp_bind]
      refine Leads.wp_getLead fair_alone rfl (howes _) (fun r s' L' hbefore => ?_)
        fun detail s' L₁ ws hbefore hescalates happ => ?_
      · rw [before_alone] at hbefore
        subst hbefore
        cases r <;> exact .quiet trivial
      · rw [before_alone] at hbefore
        subst hbefore
        exact .escalated trivial hescalates happ
  | reconciliation window =>
      simp only [handle, bind_eq, pure_eq, wp_bind]
      refine Dashboard.wp_reconciliation fair_alone rfl fun report s' L' hbefore => ?_
      rw [before_alone] at hbefore
      subst hbefore
      exact .quiet trivial

/-! ### Before the pipeline, and the pipeline -/

/-- What a request does before it runs the pipeline, or instead. -/
inductive Prepared (app : App) (L : Ledger Db Write) : Request → Ledger Db Write → Prop
  | nothing {request} : Prepared app L request L
  | accepted {body payload model event status L'}
      (hbody : body.map Body.json = some (.obj payload))
      (hvalid : Schemas.validate app payload = .ok model)
      (haccepted : Accepted app L model payload event status L') :
      Prepared app L (.postEvent body) L'
  | linked {body payload model event status L₁ identityId ws}
      (hbody : body.map Body.json = some (.obj payload))
      (hvalid : Schemas.validate app payload = .ok model)
      (haccepted : Accepted app L model payload event status L₁)
      (hlinks : Resolve.Links app still L₁ event identityId ws) (happ : Applicable ws L₁.db) :
      Prepared app L (.postEvent body) (L₁.commit ws)
  | parked {body payload model event status L₁ ws}
      (hbody : body.map Body.json = some (.obj payload))
      (hvalid : Schemas.validate app payload = .ok model)
      (haccepted : Accepted app L model payload event status L₁)
      (hparks : Resolve.Parks app still L₁ event ws) (happ : Applicable ws L₁.db) :
      Prepared app L (.postEvent body) (L₁.commit ws)
  | rejected {body ws} (hrejects : Ingest.Rejects app ws) (happ : Applicable ws L.db) :
      Prepared app L (.postEvent body) (L.commit ws)
  | resolved {request decision review identityId ws} (hpost : ¬ request.Posts)
      (hresolves : Resolve.Resolves still L decision review identityId ws)
      (happ : Applicable ws L.db) : Prepared app L request (L.commit ws)
  | simulated {request event ws} (hpost : ¬ request.Posts)
      (hdead : Interpret.DeadLetters still L event ws) (happ : Applicable ws L.db) :
      Prepared app L request (L.commit ws)
  | escalated {request ws} (hpost : ¬ request.Posts) (hescalates : Escalation.Escalates still L ws)
      (happ : Applicable ws L.db) : Prepared app L request (L.commit ws)

/-- The pipeline of a linked event, and the replay's last word. -/
inductive Pipelined (app : App) (L : Ledger Db Write) (heard : List Reply) : Ledger Db Write → Prop
  | idle : Pipelined app L heard L
  | ran {event identityId r L'} (hevent : event ∈ L.db .events)
      (hlinked : Resolve.Linked event.id identityId L.db)
      (hpiped : Piped app L event identityId heard r L') : Pipelined app L heard L'
  | revived {event identityId outcome L₁ ws} (hevent : event ∈ L.db .events)
      (hlinked : Resolve.Linked event.id identityId L.db)
      (hpiped : Piped app L event identityId heard (.ok (some outcome)) L₁)
      (hrevives : Interpret.Revives still L₁ event.id identityId ws) (happ : Applicable ws L₁.db) :
      Pipelined app L heard (L₁.commit ws)

theorem Accepted.event_mem {model : EventIn} {payload : Json.Fields} {event : Event}
    {status : Ingest.IngestStatus} (h : Accepted app L model payload event status L') :
    event ∈ L'.db .events := by
  cases h with
  | created _ _ hevent => exact hevent
  | edited _ _ hevent => exact hevent

theorem Visited.phases {request : Request} {r : Except Error Response}
    (h : Visited app L heard request r L') :
    ∃ L₁, Prepared app L request L₁ ∧ Pipelined app L₁ heard L' := by
  have hnotShared : ¬ still.shared := id
  cases h with
  | posted hbody hvalid hposted =>
      cases hposted with
      | duplicate => exact ⟨L, .nothing, .idle⟩
      | unacceptable => exact ⟨L, .nothing, .idle⟩
      | parked haccepted hparks happ => exact ⟨_, .parked hbody hvalid haccepted hparks happ, .idle⟩
      | piped haccepted hidentified hpiped =>
          cases hidentified with
          | found hlinked =>
              exact ⟨_, .accepted hbody hvalid haccepted, .ran haccepted.event_mem hlinked hpiped⟩
          | linked hlinks happ =>
              refine ⟨_, .linked hbody hvalid haccepted hlinks happ, .ran ?_ ?_ hpiped⟩
              · rw [commit_of_untouched (hlinks.tables.ne (by decide))]
                exact haccepted.event_mem
              · exact (hlinks.linked lawful_still).resolve_left hnotShared
  | rejected hrefusal hrefuses happ => exact ⟨_, .rejected hrefuses.rejects happ, .idle⟩
  | malformed => exact ⟨L, .nothing, .idle⟩
  | unrecorded => exact ⟨L, .nothing, .idle⟩
  | quiet => exact ⟨L, .nothing, .idle⟩
  | reviewed hdecides hresolves happ =>
      exact ⟨_, .resolved hdecides.not_posts hresolves happ, .idle⟩
  | resumed hdecides hresolves happ hevent heventId hpiped =>
      refine ⟨_, .resolved hdecides.not_posts hresolves happ,
        .ran hevent ?_ hpiped⟩
      rw [heventId]
      exact (hresolves.linked lawful_still).resolve_left hnotShared
  | replayed hevent hlinked _ _ _ _ hpiped => exact ⟨L, .nothing, .ran hevent hlinked hpiped⟩
  | revived hevent hlinked hpiped hrevives happ =>
      exact ⟨L, .nothing, .revived hevent hlinked hpiped hrevives happ⟩
  | simulated hdead happ => exact ⟨_, .simulated (fun ⟨_, h⟩ => by cases h) hdead happ, .idle⟩
  | escalated hreads hescalates happ =>
      exact ⟨_, .escalated (Request.not_posts_of_reads hreads) hescalates happ, .idle⟩

/-! ### The history goes on -/

theorem Accepted.history {model : EventIn} {payload : Json.Fields} {event : Event}
    {status : Ingest.IngestStatus} (h : Accepted app L model payload event status L')
    (hhistory : History app still L) : History app still L' := by
  cases h with
  | created hcreates happ => exact hhistory.commit (.creates hcreates) happ
  | edited hedits happ => exact hhistory.commit (.edits hedits) happ

theorem Identified.history {event : Event} {identityId : Uuid}
    (h : Identified app L event identityId L') (hhistory : History app still L) :
    History app still L' := by
  cases h with
  | found => exact hhistory
  | linked hlinks happ => exact hhistory.commit (.links hlinks) happ

theorem Piped.history {event : Event} {identityId : Uuid} {heard : List Reply}
    {r : Except Error (Option Pipeline.Outcome)} (h : Piped app L event identityId heard r L')
    (hhistory : History app still L) : History app still L' := by
  cases h with
  | acted hfields hinterprets happ₁ hcurrent heventId hscores happ₂ hacts happ₃ =>
      exact ((hhistory.commit (.interprets hinterprets) happ₁).commit (.scores hscores) happ₂).commit
        (.acts hacts.acts) happ₃
  | dead herror hdead happ => exact hhistory.commit (.deadLetters hdead) happ
  | alreadyDead => exact hhistory
  | noText => exact hhistory
  | unstorable => exact hhistory
  | badMessage => exact hhistory
  | noScore hfields hinterprets happ => exact hhistory.commit (.interprets hinterprets) happ

theorem Prepared.history {request : Request} (h : Prepared app L request L')
    (hhistory : History app still L) : History app still L' := by
  cases h with
  | nothing => exact hhistory
  | accepted hbody hvalid haccepted => exact haccepted.history hhistory
  | linked hbody hvalid haccepted hlinks happ =>
      exact (haccepted.history hhistory).commit (.links hlinks) happ
  | parked hbody hvalid haccepted hparks happ =>
      exact (haccepted.history hhistory).commit (.parks hparks) happ
  | rejected hrejects happ => exact hhistory.commit (.rejects hrejects) happ
  | resolved hpost hresolves happ => exact hhistory.commit (.resolves hresolves) happ
  | simulated hpost hdead happ => exact hhistory.commit (.deadLetters hdead) happ
  | escalated hpost hescalates happ => exact hhistory.commit (.escalates hescalates) happ

/-- What every visit keeps, under a condition on each, holds after all of them. -/
theorem served_keeps {visits : List (Visit Request Db Write Error Reply Response)}
    (h : Served (service app) emptyLedger visits L)
    (P : Ledger Db Write → Prop) (hstart : P emptyLedger)
    (hstep : ∀ visit ∈ visits, History app still visit.before → P visit.before →
      Visited app visit.before visit.session.replies visit.input visit.result visit.after →
      P visit.after) : P L ∧ ∀ visit ∈ visits, P visit.before ∧ P visit.after := by
  induction h with
  | nil => exact ⟨hstart, by simp⟩
  | @snoc visits L i r s L' hserved hrun ih =>
      obtain ⟨hlast, hall⟩ := ih fun visit hvisit => hstep visit (List.mem_append_left _ hvisit)
      have hafter : P L' := hstep ⟨i, L, r, s, L'⟩ (List.mem_append_right _ (List.mem_singleton_self _))
        (served_history hserved).1 hlast (visited_of_runs hrun)
      refine ⟨hafter, fun visit hvisit => ?_⟩
      rcases List.mem_append.mp hvisit with hvisit | hvisit
      · exact hall visit hvisit
      · rw [List.mem_singleton.mp hvisit]
        exact ⟨hlast, hafter⟩

theorem served_visited {visits : List (Visit Request Db Write Error Reply Response)}
    (h : Served (service app) emptyLedger visits L) {visit : Visit Request Db Write Error Reply Response}
    (hvisit : visit ∈ visits) :
    Visited app visit.before visit.session.replies visit.input visit.result visit.after := by
  induction h with
  | nil => cases hvisit
  | @snoc visits L i r s L' hserved hrun ih =>
      rcases List.mem_append.mp hvisit with hvisit | hvisit
      · exact ih hvisit
      · rw [List.mem_singleton.mp hvisit]
        exact visited_of_runs hrun

end DemandSignal
