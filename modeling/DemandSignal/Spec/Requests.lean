import DemandSignal.Spec.Pipeline

/-!
# What requests do

Every commit of every request is one of the transactions of the service.
-/

namespace DemandSignal

open Txn Program

variable {rules : Rules Db Write Question Reply} {sight : Sight} {s : Session Write Reply}
  {L : Ledger Db Write} {app : App}

theorem Owes.imp {T T' : Ledger Db Write → List Write → Prop} (h : Owes rules s T)
    (hT : ∀ L ws, T' L ws → T L ws) : Owes rules s T' :=
  fun s' L hown hready hT' => h s' L hown hready (hT L _ hT')

/-! ### Events -/

namespace Events

/-- The commits a session owes while it processes an event. -/
structure Pays (rules : Rules Db Write Question Reply) (s : Session Write Reply) (app : App)
    (sight : Sight) (event : Event) : Prop where
  links : ∀ identityId, Owes rules s fun L ws => Resolve.Links app sight L event identityId ws
  parks : Owes rules s fun L ws => Resolve.Parks app sight L event ws
  interprets : ∀ fields interpretation, Owes rules s fun L ws =>
    Interpret.Interprets sight L event fields interpretation ws
  dead : Owes rules s fun L ws => Interpret.DeadLetters sight L event ws
  scores : ∀ identityId interpretation score, Owes rules s fun L ws =>
    Scoring.Scores app sight L event identityId interpretation score ws
  acts : ∀ identityId score, Owes rules s fun L ws =>
    Act.Acts app sight L event identityId score ws

theorem Pays.of_owes {event : Event} (h : Owes rules s (Transaction app sight)) :
    Pays rules s app sight event where
  links _ := h.imp fun _ _ => .links
  parks := h.imp fun _ _ => .parks
  interprets _ _ := h.imp fun _ _ => .interprets
  dead := h.imp fun _ _ => .deadLetters
  scores _ _ _ := h.imp fun _ _ => .scores
  acts _ _ := h.imp fun _ _ => .acts

theorem Pays.mono {event : Event} {s' : Session Write Reply} (h : Pays rules s app sight event)
    (hown : s.own ⊆ s'.own) : Pays rules s' app sight event where
  links identityId := (h.links identityId).mono hown
  parks := h.parks.mono hown
  interprets fields interpretation := (h.interprets fields interpretation).mono hown
  dead := h.dead.mono hown
  scores identityId interpretation score := (h.scores identityId interpretation score).mono hown
  acts identityId score := (h.acts identityId score).mono hown

/-- How an event comes by its identity: it has a link, or it gets one. -/
inductive Resolved (app : App) (rules : Rules Db Write Question Reply) (sight : Sight)
    (own : List Uuid) (L : Ledger Db Write) (event : Event) (identityId : Uuid)
    (L' : Ledger Db Write) : Prop
  | found (hbefore : Before rules own L L') (hlinked : Resolve.Linked event.id identityId L'.db)
  | linked {L₁ ws} (hbefore : Before rules own L L₁)
      (hlinks : Resolve.Links app sight L₁ event identityId ws) (happ : Applicable ws L₁.db)
      (hafter : Before rules own (L₁.commit ws) L')

/-- What a `POST` answers once the pipeline has run. -/
def answerOf (eventId : Uuid) (status : Ingest.IngestStatus) (identityId : Uuid) :
    Except Error (Option Pipeline.Outcome) → Except Error Answer
  | .ok none => .ok (202, deadLetterResponse eventId status)
  | .ok (some outcome) => .ok (200, interpretResponse eventId status identityId outcome)
  | .error x => .error x

/-- The tail of `process`, from the resolved identity on. -/
theorem wp_downstream (fair : Fair rules sight) (hs : s.pending = []) {event : Event}
    {status : Ingest.IngestStatus} {identityId : Uuid} (hevent : Sees sight L event)
    (hlinked : Resolve.SeesLinked sight L event.id identityId)
    (hpays : Pays rules s app sight event) {post : Post Db Write Error Reply Answer}
    (hpost : ∀ r s' L', Pipeline.Ends app rules sight s L event identityId r s' L' →
      post (answerOf event.id status identityId r) s' L') :
    wp rules ((Pipeline.runDownstream app event identityId).bind fun outcome =>
      match outcome with
      | none => .ret (202, deadLetterResponse event.id status)
      | some outcome => .ret (200, interpretResponse event.id status identityId outcome))
      post s L := by
  rw [wp_bind]
  refine Pipeline.wp_runDownstream fair hs hevent hlinked hpays.interprets hpays.dead
    (hpays.scores identityId) (hpays.acts identityId) fun r s' L' hends => ?_
  have hpost := hpost r s' L' hends
  cases r with
  | error x => exact hpost
  | ok outcome => cases outcome <;> exact hpost

theorem wp_process (fair : Fair rules sight) (hs : s.pending = []) {event : Event}
    {status : Ingest.IngestStatus} (hevent : Sees sight L event)
    (hpays : Pays rules s app sight event) {post : Post Db Write Error Reply Answer}
    (hparked : ∀ s' L₁ L' ws reviewId, Rests s [] s' → Before rules s.own L L₁ →
      Resolve.Parks app sight L₁ event ws → Applicable ws L₁.db →
      Before rules s.own (L₁.commit ws) L' →
      post (.ok (200, { eventId := event.id, isEdit := status = .edit, status := some "manual_review"
                        reviewId := some reviewId })) s' L')
    (hpiped : ∀ s₁ L₁ identityId, Rests s [] s₁ →
      Resolved app rules sight s.own L event identityId L₁ → ∀ r s' L',
      Pipeline.Ends app rules sight s₁ L₁ event identityId r s' L' →
      post (answerOf event.id status identityId r) s' L')
    (hraced : ∀ x s' L', Raced rules → post (.error x) s' L') :
    wp rules (process app event status) post s L := by
  unfold process
  simp only [bind_eq, pure_eq, wp_bind]
  refine Resolve.wp_resolveIdentity fair hs hevent hpays.links hpays.parks
    (fun s₁ L₁ identityId hrests hbefore hlinked => ?_)
    (fun s₁ L₁ L' ws identityId expired hrests hbefore hT happ hafter hexpired => ?_)
    (fun s' L₁ L' ws reviewId hrests hbefore hT happ hafter =>
      hparked s' L₁ L' ws reviewId hrests hbefore hT happ hafter) hraced
  · exact wp_downstream fair hrests.pending (hbefore.sight fair hevent) (.inr (fair.now _ _ hlinked))
      (hpays.mono hrests.own) (hpiped s₁ L₁ identityId hrests (.found hbefore hlinked))
  · rw [Post.andThen_ok]
    cases expired with
    | true => exact hraced _ s₁ L' (hexpired rfl)
    | false =>
        have hlinked := (hT.linked fair.toLawful).imp_right (hafter.sight fair)
        have hevent : Sees sight (L₁.commit ws) event :=
          Pipeline.sight_commit fair (hT.tables.ne (by decide))
            (fun rows => event ∈ rows) (hbefore.sight fair hevent)
        exact wp_downstream fair hrests.pending (hafter.sight fair hevent) hlinked
          (hpays.mono hrests.own) (hpiped s₁ L' identityId hrests (.linked hbefore hT happ hafter))

/-- What ingest made of an accepted payload: a new event, or a new version of an event. -/
inductive Ingested (app : App) (rules : Rules Db Write Question Reply) (sight : Sight)
    (s : Session Write Reply) (L : Ledger Db Write) (model : EventIn) (payload : Json.Fields)
    (event : Event) : Ingest.IngestStatus → Session Write Reply → Ledger Db Write → Prop
  | created {s' L₁ L' ws} (hrests : Rests s [] s') (hbefore : Before rules s.own L L₁)
      (hcreates : Ingest.Creates app model payload event.id ws) (happ : Applicable ws L₁.db)
      (hafter : Before rules s.own (L₁.commit ws) L') (hevent : event ∈ L'.db .events)
      (hown : event.id ∈ s'.own) (hnew : event.id ∉ s.own) :
      Ingested app rules sight s L model payload event .created s' L'
  | edited {s' L₁ L' existing ws} (hrests : Rests s [] s') (hbefore : Before rules s.own L L₁)
      (hedits : Ingest.Edits app sight L₁ model payload existing ws) (happ : Applicable ws L₁.db)
      (hafter : Before rules s.own (L₁.commit ws) L') (hevent : event ∈ L'.db .events)
      (hid : event.id = existing.id) :
      Ingested app rules sight s L model payload event .edit s' L'

theorem Ingested.event_mem {model : EventIn} {payload : Json.Fields} {event : Event}
    {status : Ingest.IngestStatus} {s' : Session Write Reply} {L' : Ledger Db Write}
    (h : Ingested app rules sight s L model payload event status s' L') :
    event ∈ L'.db .events := by
  cases h with
  | created _ _ _ _ _ hevent => exact hevent
  | edited _ _ _ _ _ hevent => exact hevent

theorem Ingested.rests {model : EventIn} {payload : Json.Fields} {event : Event}
    {status : Ingest.IngestStatus} {s' : Session Write Reply} {L' : Ledger Db Write}
    (h : Ingested app rules sight s L model payload event status s' L') : Rests s [] s' := by
  cases h with
  | created hrests => exact hrests
  | edited hrests => exact hrests

/-- A `POST` of a payload that the schema accepts. -/
theorem wp_createEvent (fair : Fair rules sight) (hs : s.pending = []) {model : EventIn}
    {payload : Json.Fields} (hvalid : Schemas.validate app payload = .ok model)
    (hcreates : ∀ id, Owes rules s fun _ ws => Ingest.Creates app model payload id ws)
    (hedits : ∀ existing, Owes rules s fun L ws => Ingest.Edits app sight L model payload existing ws)
    (hpays : ∀ s₁ L₁ event status, Ingested app rules sight s L model payload event status s₁ L₁ →
      Pays rules s₁ app sight event)
    {post : Post Db Write Error Reply Answer}
    (hduplicate : ∀ s' L' event, Rests s [] s' → Before rules s.own L L' → event ∈ L'.db .events →
      Ingest.Holds app model event → event.payloadHash = Ingest.computePayloadHash app payload →
      post (.ok (200, { eventId := event.id, duplicate := true })) s' L')
    (hdata : Ingest.acceptable model payload = false → ∀ s' L', Rests s [] s' →
      Before rules s.own L L' → Ingest.Differs app model payload L'.db →
      post (.error .dataError) s' L')
    (hparked : ∀ s₁ L₁ event status, Ingested app rules sight s L model payload event status s₁ L₁ →
      ∀ s' L₂ L' ws reviewId, Rests s₁ [] s' → Before rules s₁.own L₁ L₂ →
      Resolve.Parks app sight L₂ event ws → Applicable ws L₂.db →
      Before rules s₁.own (L₂.commit ws) L' →
      post (.ok (200, { eventId := event.id, isEdit := status = .edit, status := some "manual_review"
                        reviewId := some reviewId })) s' L')
    (hpiped : ∀ s₁ L₁ event status, Ingested app rules sight s L model payload event status s₁ L₁ →
      ∀ s₂ L₂ identityId, Rests s₁ [] s₂ → Resolved app rules sight s₁.own L₁ event identityId L₂ →
      ∀ r s' L', Pipeline.Ends app rules sight s₂ L₂ event identityId r s' L' →
      post (answerOf event.id status identityId r) s' L')
    (hraced : ∀ r s' L', Raced rules → post r s' L') :
    wp rules (createEvent app (some (.obj payload))) post s L := by
  have hprocess : ∀ s₁ L₁ event status,
      Ingested app rules sight s L model payload event status s₁ L₁ →
      wp rules (process app event status) post s₁ L₁ := by
    intro s₁ L₁ event status hingested
    exact wp_process fair hingested.rests.pending
      (fair.now (fun db => event ∈ db .events) L₁ hingested.event_mem)
      (hpays s₁ L₁ event status hingested) (hparked s₁ L₁ event status hingested)
      (hpiped s₁ L₁ event status hingested) fun x s' L' => hraced _ s' L'
  unfold createEvent
  simp only [hvalid, bind_eq, pure_eq, wp_bind]
  refine Ingest.wp_createEvent fair hs hvalid hcreates hedits
    (fun s' L' event hrests hbefore hevent hholds hhash => ?_)
    (fun s' L' event hrace _ _ _ _ _ => ?_)
    (fun s₁ L₁ L' id ws event hrests hbefore hT happ hafter hfind hown hnew _ => ?_)
    (fun s₁ L₁ L' existing ws event hrests hbefore hT happ hafter hfind _ => ?_)
    hdata
    fun x s' L' => hraced _ s' L'
  · exact hduplicate s' L' event hrests hbefore hevent hholds hhash
  · exact hraced _ s' L' hrace
  · obtain rfl : event.id = id := by simpa using List.find?_some hfind
    exact hprocess s₁ L' event .created
      (.created hrests hbefore hT happ hafter (List.mem_of_find?_eq_some hfind) hown hnew)
  · have hid : event.id = existing.id := by simpa using List.find?_some hfind
    exact hprocess s₁ L' event .edit
      (.edited hrests hbefore hT happ hafter (List.mem_of_find?_eq_some hfind) hid)

/-- What a body that is not accepted is recorded with: the payload and the reason. -/
def refusal (app : App) : Option Json → Option (Json.Fields × String)
  | none => none
  | some (.obj payload) =>
      match Schemas.validate app payload with
      | .error errors => some (payload, invalidReason app errors)
      | .ok _ => none
  | some _ => some ([], "expected_json_object")

/-- A `POST` of any other body. -/
theorem wp_createEvent_invalid (fair : Fair rules sight) (hs : s.pending = []) {body : Option Json}
    (hinvalid : ∀ payload model, body = some (.obj payload) →
      Schemas.validate app payload ≠ .ok model)
    (hrejects : Owes rules s fun _ ws => Ingest.Rejects app ws) {post : Post Db Write Error Reply Answer}
    (hmalformed : body = none → ∀ x, post (.error x) s L)
    (hdata : ∀ payload reason, refusal app body = some (payload, reason) →
      Ingest.recordable app payload reason = false → ∀ x L', Before rules s.own L L' →
      post (.error x) s L')
    (hrejected : ∀ payload reason, refusal app body = some (payload, reason) →
      ∀ eventId s' L₁ L' ws, Before rules s.own L L₁ → Ingest.recordable app payload reason = true →
      Ingest.Refuses app payload reason ws → Applicable ws L₁.db → Before rules s.own (L₁.commit ws) L' →
      post (.ok (200, { eventId, isValid := false, invalidReason := some reason })) s' L') :
    wp rules (createEvent app body) post s L := by
  have hpersist : ∀ payload reason, refusal app body = some (payload, reason) →
      wp rules ((Ingest.persistInvalidEvent app payload reason).bind fun event =>
        .ret (200, { eventId := event.id, isValid := false, invalidReason := some reason })) post s
        L := by
    intro payload reason hrefusal
    rw [wp_bind]
    exact Ingest.wp_persistInvalidEvent fair hs hrejects
      (fun s' L₁ L' ws event _ hbefore hrecordable hT happ hafter =>
        hrejected payload reason hrefusal _ s' L₁ L' ws hbefore hrecordable hT happ hafter)
      fun hrecordable L' hbefore => hdata payload reason hrefusal hrecordable _ L' hbefore
  unfold createEvent
  simp only [bind_eq, pure_eq]
  split
  · exact hmalformed rfl _
  · split
    · next herrors => exact hpersist _ _ (by rw [refusal, herrors])
    · exact absurd ‹_› (hinvalid _ _ rfl)
  · next json hnotObject =>
    refine hpersist _ _ ?_
    unfold refusal
    split
    · next heq => cases heq
    · next payload heq => exact absurd (Option.some.inj heq) (hnotObject payload)
    · rfl

end Events

/-! ### Reviews -/

namespace ManualReview

/-- How a decision on a review can end. -/
inductive Ends (app : App) (rules : Rules Db Write Question Reply) (sight : Sight)
    (s : Session Write Reply) (L : Ledger Db Write) (reviewId : Option Uuid) (decision : String)
    (choice : Option (Option Uuid)) : Session Write Reply → Ledger Db Write → Prop
  | refused {s' L'} (hbefore : Before rules s.own L L') (hquiet : s'.replies = s.replies) :
      Ends app rules sight s L reviewId decision choice s' L'
  | resolved {L₁ ws review identityId s' L'} (hbefore : Before rules s.own L L₁)
      (hid : reviewId = some review.id)
      (hchoice : decision = "merge_into" → choice = some (some identityId))
      (hresolves : Resolve.Resolves sight L₁ decision review identityId ws)
      (happ : Applicable ws L₁.db) (hafter : Before rules s.own (L₁.commit ws) L')
      (hgone : ∀ event ∈ L'.db .events, event.id ≠ review.eventId)
      (hquiet : s'.replies = s.replies) : Ends app rules sight s L reviewId decision choice s' L'
  | piped {L₁ ws review identityId L₂ event s₂ r s' L'} (hbefore : Before rules s.own L L₁)
      (hid : reviewId = some review.id)
      (hchoice : decision = "merge_into" → choice = some (some identityId))
      (hresolves : Resolve.Resolves sight L₁ decision review identityId ws)
      (happ : Applicable ws L₁.db) (hafter : Before rules s.own (L₁.commit ws) L₂)
      (hevent : event ∈ L₂.db .events) (heventId : event.id = review.eventId)
      (hrests : Rests s [] s₂) (hends : Pipeline.Ends app rules sight s₂ L₂ event identityId r s' L') :
      Ends app rules sight s L reviewId decision choice s' L'
  | raced {s' L'} (hraced : Raced rules) : Ends app rules sight s L reviewId decision choice s' L'

theorem Ends.before {s₁ s' : Session Write Reply} {L L' L'' : Ledger Db Write}
    {reviewId : Option Uuid} {decision : String} {choice : Option (Option Uuid)}
    (hbefore : Before rules s.own L L') (hrests : Rests s [] s₁)
    (h : Ends app rules sight s₁ L' reviewId decision choice s' L'') :
    Ends app rules sight s L reviewId decision choice s' L'' := by
  have hreplies : s₁.replies = s.replies := by rw [hrests.replies, List.append_nil]
  cases h with
  | refused hbefore' hquiet =>
      exact .refused (hbefore.trans (hbefore'.mono hrests.own)) (hquiet.trans hreplies)
  | resolved hbefore' hid hchoice hresolves happ hafter hgone hquiet =>
      exact .resolved (hbefore.trans (hbefore'.mono hrests.own)) hid hchoice hresolves happ
        (hafter.mono hrests.own) hgone (hquiet.trans hreplies)
  | piped hbefore' hid hchoice hresolves happ hafter hevent heventId hrests' hends =>
      exact .piped (hbefore.trans (hbefore'.mono hrests.own)) hid hchoice hresolves happ
        (hafter.mono hrests.own) hevent heventId (hrests.trans hrests') hends
  | raced hraced => exact .raced hraced

/-- A decision, and the pipeline behind it. -/
theorem wp_decide (fair : Fair rules sight) (hs : s.pending = []) {reviewId : Uuid}
    {decision : String} {choice : Option (Option Uuid)} {identityId : Option Uuid} {β : Type}
    {refuse : Resolve.ReviewError → Prog β} {absent : Resolve.ResolvedReview → Prog β}
    {answer : Resolve.ResolvedReview → Option Pipeline.Outcome → Prog β}
    (hchoice : decision = "merge_into" → choice = identityId.map some)
    (howes : Owes rules s (Transaction app sight)) {post : Post Db Write Error Reply β}
    (hrefuse : ∀ error s' L', Ends app rules sight s L (some reviewId) decision choice s' L' →
      wp rules (refuse error) post s' L')
    (habsent : ∀ result s' L', Ends app rules sight s L (some reviewId) decision choice s' L' →
      wp rules (absent result) post s' L')
    (hanswer : ∀ result outcome s' L', Ends app rules sight s L (some reviewId) decision choice s' L' →
      wp rules (answer result outcome) post s' L')
    (herror : ∀ x s' L', Ends app rules sight s L (some reviewId) decision choice s' L' →
      post (.error x) s' L') :
    wp rules ((Resolve.resolveReview reviewId decision identityId).bind fun r => match r with
      | .error error => refuse error
      | .ok result => (find .events fun event => event.id = result.eventId).bind fun r => match r with
        | none => absent result
        | some event =>
            (Pipeline.runDownstream app event result.identityId).bind (answer result)) post s L := by
  rw [wp_bind]
  refine Resolve.wp_resolveReview fair hs (fun _ _ => howes.imp fun _ _ => .resolves)
    (fun s' L' error hquiet hbefore => hrefuse error s' L' (.refused hbefore hquiet))
    (fun s₁ L₁ ws review target hrests hbefore hT happ hid htarget => ?_)
    fun x s' L' hraced => herror x s' L' (.raced hraced)
  have hmerge : decision = "merge_into" → choice = some (some target) := fun h => by
    rw [hchoice h, htarget h, Option.map_some]
  simp only [Post.andThen_ok, wp_bind]
  refine wp_find fair (.of_idle hrests.pending _) (by simp [hrests.pending])
    (fun s₂ L₂ now₂ event h₂ _ hfind => ?_) fun s₂ L₂ now₂ h₂ hnone => ?_
  · have hevent : event ∈ L₂.db .events := List.mem_of_find?_eq_some hfind
    have heventId : event.id = review.eventId := by simpa using List.find?_some hfind
    have hlinked : Resolve.SeesLinked sight L₂ event.id target := by
      rw [heventId]
      exact (hT.linked fair.toLawful).imp_right (h₂.before.sight fair)
    have hrests₂ : Rests s [] s₂ := hrests.trans (h₂.rests hrests.pending)
    have howes₂ := howes.mono hrests₂.own
    simp only [Post.andThen_ok, wp_bind]
    refine Pipeline.wp_runDownstream fair hrests₂.pending
      (fair.now (fun db => event ∈ db .events) L₂ hevent) hlinked
      (fun _ _ => howes₂.imp fun _ _ => .interprets) (howes₂.imp fun _ _ => .deadLetters)
      (fun _ _ => howes₂.imp fun _ _ => .scores) (fun _ => howes₂.imp fun _ _ => .acts)
      fun r s' L' hpiped => ?_
    have hends : Ends app rules sight s L (some reviewId) decision choice s' L' :=
      .piped hbefore (congrArg some hid.symm) hmerge hT happ (h₂.before.mono hrests.own) hevent heventId hrests₂ hpiped
    cases r with
    | ok outcome => exact hanswer _ outcome s' L' hends
    | error x => exact herror x s' L' hends
  · refine habsent _ s₂ L₂ (.resolved hbefore (congrArg some hid.symm) hmerge hT happ (h₂.before.mono hrests.own) ?_ ?_)
    · simpa using hnone
    · rw [h₂.replies, hrests.replies, List.append_nil]

theorem wp_boundId {text : Option Uuid} {post : Post Db Write Error Reply Uuid}
    (hok : ∀ id, text = some id → post (.ok id) s L) (herror : post (.error .dataError) s L) :
    wp rules (boundId text) post s L := by
  cases text with
  | some id => exact hok id rfl
  | none => exact herror

theorem wp_mergeTarget {decision : String} {choice : Option (Option Uuid)}
    {post : Post Db Write Error Reply (Option Uuid)}
    (hok : ∀ target, (decision = "merge_into" → choice = target.map some) → post (.ok target) s L)
    (herror : post (.error .dataError) s L) : wp rules (mergeTarget decision choice) post s L := by
  unfold mergeTarget
  split
  · exact hok none fun _ => rfl
  · split
    · simp only [Functor.map, wp_bind]
      refine wp_boundId (fun id hid => hok (some id) fun _ => ?_) herror
      rw [hid, Option.map_some]
    · next hdecision => exact hok none fun h => absurd h hdecision

theorem wp_resolveManualReview (fair : Fair rules sight) (hs : s.pending = [])
    {reviewId : Option Uuid} {decision : String} {choice : Option (Option Uuid)}
    (howes : Owes rules s (Transaction app sight)) {post : Post Db Write Error Reply (Nat × Resolved)}
    (hrefused : ∀ r s' L', Before rules s.own L L' → s'.replies = s.replies → post r s' L')
    (h : decision = "merge_into" ∨ decision = "create_new" →
      ∀ r s' L', Ends app rules sight s L reviewId decision choice s' L' → post r s' L') :
    wp rules (resolveManualReview app reviewId decision choice) post s L := by
  unfold resolveManualReview Resolve.findReview
  simp only [bind_eq, pure_eq]
  by_cases hdecision : decision = "merge_into" ∨ decision = "create_new"
  · have h := h hdecision
    rw [if_pos hdecision, wp_bind]
    refine wp_boundId (fun id hid => ?_) (hrefused _ s L (.refl L) rfl)
    subst hid
    simp only [Post.andThen_ok, wp_bind]
    refine wp_find fair (.of_idle hs L) (by simp [hs]) (fun s₁ L₁ now₁ entry h₁ _ _ => ?_)
      fun s₁ L₁ now₁ h₁ _ => hrefused _ s₁ L₁ h₁.before h₁.replies
    simp only [Post.andThen_ok]
    by_cases hstatus : entry.status ≠ .pending
    · rw [if_pos hstatus]
      exact hrefused _ s₁ L₁ h₁.before h₁.replies
    · rw [if_neg hstatus]
      simp only [wp_bind]
      refine wp_mergeTarget (fun target hchoice => ?_) (hrefused _ s₁ L₁ h₁.before h₁.replies)
      rw [Post.andThen_ok]
      have hrests := h₁.rests hs
      have hends : ∀ s' L', Ends app rules sight s₁ L₁ (some id) decision choice s' L' →
          Ends app rules sight s L (some id) decision choice s' L' :=
        fun s' L' hends => hends.before h₁.before hrests
      refine wp_decide fair hrests.pending hchoice (howes.mono hrests.own)
        (fun error s' L' hL' => h _ s' L' (hends s' L' hL'))
        (fun result s' L' hL' => h _ s' L' (hends s' L' hL'))
        (fun result outcome s' L' hL' => ?_) fun x s' L' hL' => h _ s' L' (hends s' L' hL')
      cases outcome <;> exact h _ s' L' (hends s' L' hL')
  · rw [if_neg hdecision]
    exact hrefused _ s L (.refl L) rfl

theorem wp_resolveForm (fair : Fair rules sight) (hs : s.pending = []) {reviewId : Option Uuid}
    {decision : String} {choice : Option (Option Uuid)}
    (howes : Owes rules s (Transaction app sight)) {post : Post Db Write Error Reply (Nat × Bool)}
    (h : ∀ r s' L', Ends app rules sight s L reviewId decision choice s' L' → post r s' L') :
    wp rules (resolveForm app reviewId decision choice) post s L := by
  have hrefused : ∀ r L' s', Before rules s.own L L' → s'.replies = s.replies → post r s' L' :=
    fun r L' s' hbefore hquiet => h r s' L' (.refused hbefore hquiet)
  unfold resolveForm Resolve.findReview
  simp only [bind_eq, pure_eq, wp_bind]
  refine wp_boundId (fun id hid => ?_) (hrefused _ L s (.refl L) rfl)
  subst hid
  simp only [Post.andThen_ok, wp_bind]
  refine wp_find fair (.of_idle hs L) (by simp [hs]) (fun s₁ L₁ now₁ entry h₁ _ _ => ?_)
    fun s₁ L₁ now₁ h₁ _ => hrefused _ L₁ s₁ h₁.before h₁.replies
  simp only [Post.andThen_ok, wp_bind]
  refine wp_mergeTarget (fun target hchoice => ?_) (hrefused _ L₁ s₁ h₁.before h₁.replies)
  rw [Post.andThen_ok]
  have hrests := h₁.rests hs
  have hends : ∀ s' L', Ends app rules sight s₁ L₁ (some id) decision choice s' L' →
      Ends app rules sight s L (some id) decision choice s' L' :=
    fun s' L' hends => hends.before h₁.before hrests
  refine wp_decide fair hrests.pending hchoice (howes.mono hrests.own)
    (fun error s' L' hL' => ?_) (fun result s' L' hL' => h _ s' L' (hends s' L' hL'))
    (fun result outcome s' L' hL' => h _ s' L' (hends s' L' hL')) fun x s' L' hL' => h _ s' L' (hends s' L' hL')
  cases error <;> exact h _ s' L' (hends s' L' hL')

end ManualReview

/-! ### Administration -/

namespace Admin

theorem wp_parseEventId {text : Option Uuid} {post : Post Db Write Error Reply Uuid}
    (hok : ∀ id, text = some id → post (.ok id) s L) (herror : ∀ x, post (.error x) s L) :
    wp rules (parseEventId text) post s L := by
  cases text with
  | some id => exact hok id rfl
  | none => exact herror _

/-- How a replay can end. The dead letter is there while the pipeline runs. -/
inductive Ends (app : App) (rules : Rules Db Write Question Reply) (sight : Sight)
    (s : Session Write Reply) (L : Ledger Db Write) (eventId : Option Uuid) :
    Except Error Replayed → Session Write Reply → Ledger Db Write → Prop
  | refused {x s' L'} (hbefore : Before rules s.own L L') (hquiet : s'.replies = s.replies) :
      Ends app rules sight s L eventId (.error x) s' L'
  | piped {x L₁ event dlq identityId s₁ r s' L'} (hbefore : Before rules s.own L L₁)
      (hevent : Sees sight L₁ event) (hid : eventId = some event.id)
      (hlinked : Resolve.SeesLinked sight L₁ event.id identityId)
      (hdlq : sight (fun db => dlq ∈ db .deadLetterQueue) L₁) (heventId : dlq.eventId = event.id)
      (hopen : dlq.resolved = false) (hrests : Rests s [] s₁)
      (hfailed : ∀ outcome, r ≠ .ok (some outcome))
      (hends : Pipeline.Ends app rules sight s₁ L₁ event identityId r s' L') :
      Ends app rules sight s L eventId (.error x) s' L'
  | revived {L₁ event identityId s₁ outcome s₂ L₂ s' L₃ ws} (hbefore : Before rules s.own L L₁)
      (hevent : Sees sight L₁ event) (hid : eventId = some event.id)
      (hlinked : Resolve.SeesLinked sight L₁ event.id identityId) (hrests : Rests s [] s₁)
      (hends : Pipeline.Ends app rules sight s₁ L₁ event identityId (.ok (some outcome)) s₂ L₂)
      (hafter : Before rules s.own L₂ L₃)
      (hrevives : Interpret.Revives sight L₃ event.id identityId ws) (happ : Applicable ws L₃.db)
      (hquiet : s'.replies = s₂.replies) :
      Ends app rules sight s L eventId (.ok ⟨event.id, outcome.acted⟩) s' (L₃.commit ws)
  | raced {r s' L'} (hraced : Raced rules) : Ends app rules sight s L eventId r s' L'

/-- A pipeline that has acted has left the dead letters alone. -/
theorem sight_of_acted (fair : Fair rules sight) {event : Event} {identityId : Uuid}
    {outcome : Pipeline.Outcome} {s' : Session Write Reply} {L' : Ledger Db Write}
    (hends : Pipeline.Ends app rules sight s L event identityId (.ok (some outcome)) s' L')
    {P : List DeadLetterQueue → Prop} (h : sight (fun db => P (db .deadLetterQueue)) L) :
    sight (fun db => P (db .deadLetterQueue)) L' := by
  cases hends with
  | acted hrests hbefore₁ hfields hinterprets happ₁ hbefore₂ hcurrent heventId hscores happ₂
      hbefore₃ hacts happ₃ =>
      refine Pipeline.sight_commit (t := .deadLetterQueue) fair (hacts.acts.tables.ne (by decide)) P
        (hbefore₃.sight fair ?_)
      refine Pipeline.sight_commit (t := .deadLetterQueue) fair (hscores.tables.ne (by decide)) P
        (hbefore₂.sight fair ?_)
      exact Pipeline.sight_commit (t := .deadLetterQueue) fair (hinterprets.tables.ne (by decide)) P
        (hbefore₁.sight fair h)

theorem wp_replayEvent (fair : Fair rules sight) (hs : s.pending = []) {authorized : Bool}
    {eventId : Option Uuid} (howes : Owes rules s (Transaction app sight))
    {post : Post Db Write Error Reply Replayed}
    (h : ∀ r s' L', Ends app rules sight s L eventId r s' L' → post r s' L') :
    wp rules (replayEvent app authorized eventId) post s L := by
  have hrefused : ∀ x s' L', Before rules s.own L L' → s'.replies = s.replies →
      post (.error x) s' L' := fun x s' L' hbefore hquiet => h _ s' L' (.refused hbefore hquiet)
  unfold replayEvent findUnresolved
  cases authorized with
  | false => exact hrefused _ s L (.refl L) rfl
  | true =>
    rw [if_pos rfl]
    simp only [bind_eq, pure_eq, wp_bind]
    refine wp_parseEventId (fun id hid => ?_) fun x => hrefused _ s L (.refl L) rfl
    simp only [Post.andThen_ok, wp_bind]
    refine wp_find fair (.of_idle hs L) (by simp [hs]) (fun s₁ L₁ now₁ event h₁ _ hfind => ?_)
      fun s₁ L₁ now₁ h₁ _ => hrefused _ s₁ L₁ h₁.before h₁.replies
    obtain rfl : event.id = id := by simpa using List.find?_some hfind
    have hevent := fair.now (fun db => event ∈ db .events) L₁ (List.mem_of_find?_eq_some hfind)
    have hrests₁ := h₁.rests hs
    simp only [Post.andThen_ok, wp_bind]
    refine wp_find fair h₁.ready (by simp [hrests₁.pending])
      (fun s₂ L₂ now₂ dlq h₂ _ hfind => ?_)
      fun s₂ L₂ now₂ h₂ _ => hrefused _ s₂ L₂ (h₁.before.trans (h₂.before.mono h₁.own))
        (h₂.replies.trans h₁.replies)
    have hopen := List.find?_some hfind
    simp only [Bool.and_eq_true, decide_eq_true_eq, Bool.not_eq_true'] at hopen
    have hdlq := fair.now (fun db => dlq ∈ db .deadLetterQueue) L₂ (List.mem_of_find?_eq_some hfind)
    have hevent := h₂.before.sight fair hevent
    have hrests₂ : Rests s [] s₂ := hrests₁.trans (h₂.rests hrests₁.pending)
    have hbefore₂ : Before rules s.own L L₂ := h₁.before.trans (h₂.before.mono h₁.own)
    simp only [Post.andThen_ok, wp_bind]
    refine wp_findAll fair h₂.ready (by simp [hrests₂.pending]) fun s₃ L₃ now₃ h₃ => ?_
    have hevent := h₃.before.sight fair hevent
    have hdlq := h₃.before.sight fair hdlq
    have hrests₃ : Rests s [] s₃ := hrests₂.trans (h₃.rests hrests₂.pending)
    have hbefore₃ : Before rules s.own L L₃ := hbefore₂.trans (h₃.before.mono hrests₂.own)
    have hquiet₃ : s₃.replies = s.replies := by rw [hrests₃.replies, List.append_nil]
    have howes₃ := howes.mono hrests₃.own
    simp only [Post.andThen_ok]
    cases hlinks : (L₃.db .identityLinks).filter fun link => link.eventId = event.id with
    | nil => exact hrefused _ s₃ L₃ hbefore₃ hquiet₃
    | cons link rest =>
      cases rest with
      | cons _ _ => exact hrefused _ s₃ L₃ hbefore₃ hquiet₃
      | nil =>
        have hlink : link ∈ (L₃.db .identityLinks).filter fun link => link.eventId = event.id := by
          rw [hlinks]
          exact List.mem_singleton_self _
        rw [List.mem_filter, decide_eq_true_eq] at hlink
        have hlinked : Resolve.Linked event.id link.identityId L₃.db := ⟨link, hlink.1, hlink.2, rfl⟩
        simp only [wp_bind]
        refine Pipeline.wp_runDownstream fair hrests₃.pending hevent (.inr (fair.now _ _ hlinked))
          (fun _ _ => howes₃.imp fun _ _ => .interprets) (howes₃.imp fun _ _ => .deadLetters)
          (fun _ _ => howes₃.imp fun _ _ => .scores) (fun _ => howes₃.imp fun _ _ => .acts)
          fun r s' L' hends => ?_
        have hlinked := fair.now _ L₃ hlinked
        have hfail : ∀ x, (∀ outcome, r ≠ .ok (some outcome)) →
            Ends app rules sight s L eventId (.error x) s' L' := fun x hfailed =>
          .piped hbefore₃ hevent hid (.inr hlinked) hdlq hopen.1 hopen.2 hrests₃ hfailed hends
        cases r with
        | error x => exact h _ s' L' (hfail _ fun _ => by simp)
        | ok outcome =>
          cases outcome with
          | none => exact h _ s' L' (hfail _ fun _ => by simp)
          | some outcome =>
            have hrests₄ := hends.rests
            have hdlq := sight_of_acted fair hends (P := fun rows => dlq ∈ rows) hdlq
            simp only [Post.andThen_ok, wp_bind]
            refine wp_save fair (.of_idle hrests₄.1 _) (fun _ => ?_)
              (fun _ => Write.tame_resolve rfl) fun s₅ L₅ now₅ h₅ => ?_
            · intro key hkey
              rcases List.mem_cons.mp hkey with rfl | hkey
              · exact List.mem_cons_self ..
              · exact absurd hkey (by simp [Row.indexed, Row.stamp])
            have hdlq := h₅.before.sight fair hdlq
            simp only [Post.andThen_ok, wp_bind]
            refine wp_writeReceipt fair h₅.ready fun s₆ L₆ rid now₆ h₆ _ => ?_
            have hdlq := h₆.before.sight fair hdlq
            obtain ⟨rfl, h₆⟩ := h₅.trans h₆
            simp only [Post.andThen_ok, wp_bind]
            have hown₆ : s.own ⊆ s₆.own := fun _ hu => h₆.own (hrests₄.2 (hrests₃.own hu))
            refine wp_commitNow fair h₆.ready (howes.imp fun _ _ => .revives) hown₆
              (by rw [h₆.pending, hrests₄.1, List.nil_append])
              (fun L₇ h₇ => .intro (h₇.sight fair hdlq) hopen.1 hopen.2) fun L₇ h₇ hT happ => ?_
            have hafter : Before rules s.own L' L₇ :=
              (h₆.before.mono fun _ hu => hrests₄.2 (hrests₃.own hu)).trans (h₇.mono hown₆)
            refine h _ _ _ (.revived hbefore₃ hevent hid (.inr hlinked) hrests₃ hends hafter hT happ ?_)
            exact h₆.replies

/-- A simulated failure does nothing, or leaves a dead letter. -/
theorem wp_simulateFailure (fair : Fair rules sight) (hs : s.pending = []) {authorized : Bool}
    {stage : String} {eventId : Option Uuid}
    (howes : ∀ event, Owes rules s fun L ws => Interpret.DeadLetters sight L event ws)
    {post : Post Db Write Error Reply DeadLetterQueue}
    (hrefused : ∀ x s' L', Before rules s.own L L' → post (.error x) s' L')
    (hdead : ∀ dlq s' L₁ event ws, Before rules s.own L L₁ → eventId = some event.id →
      Interpret.DeadLetters sight L₁ event ws → Applicable ws L₁.db →
      post (.ok dlq) s' (L₁.commit ws)) :
    wp rules (simulateFailure app authorized stage eventId) post s L := by
  unfold simulateFailure findUnresolved
  cases authorized with
  | false => exact hrefused _ s L (.refl L)
  | true =>
    rw [if_pos rfl]
    by_cases hstage : stage = "interpret"
    swap
    · rw [if_neg hstage]
      exact hrefused _ s L (.refl L)
    rw [if_pos hstage]
    simp only [bind_eq, pure_eq, wp_bind]
    refine wp_parseEventId (fun id hid => ?_) fun x => hrefused _ s L (.refl L)
    simp only [Post.andThen_ok, wp_bind]
    refine wp_find fair (.of_idle hs L) (by simp [hs]) (fun s₁ L₁ now₁ event h₁ _ hfind => ?_)
      fun s₁ L₁ now₁ h₁ _ => hrefused _ s₁ L₁ h₁.before
    obtain rfl : event.id = id := by simpa using List.find?_some hfind
    have hevent := fair.now (fun db => event ∈ db .events) L₁ (List.mem_of_find?_eq_some hfind)
    simp only [Post.andThen_ok, wp_bind]
    refine wp_find fair h₁.ready (by simp [h₁.pending, hs]) (fun s₂ L₂ now₂ dlq h₂ _ _ => ?_)
      fun s₂ L₂ now₂ h₂ _ => ?_
    · exact hrefused _ s₂ L₂ (h₁.before.trans (h₂.before.mono h₁.own))
    have hevent := h₂.before.sight fair hevent
    obtain ⟨rfl, h₂⟩ := h₁.trans h₂
    simp only [Post.andThen_ok, wp_bind]
    refine wp_tryInsert fair h₂.ready (fun _ _ => rfl) (by simp [h₂.pending, hs])
      (fun _ _ _ _ _ => trivial) (fun s₃ L₃ dlqId now₃ h₃ _ _ => ?_) fun s₃ L₃ dlqId now₃ h₃ _ _ => ?_
    · have hevent := h₃.before.sight fair hevent
      obtain ⟨rfl, h₃⟩ := h₂.trans h₃
      simp only [Post.andThen_ok, wp_bind]
      refine wp_writeReceipt fair h₃.ready fun s₄ L₄ rid now₄ h₄ _ => ?_
      have hevent := h₄.before.sight fair hevent
      obtain ⟨rfl, h₄⟩ := h₃.trans h₄
      simp only [Post.andThen_ok, wp_bind]
      refine wp_commitNow fair h₄.ready (howes event) h₄.own
        (by rw [h₄.pending, hs]; rfl) (fun L₅ h₅ => .intro (h₅.sight fair hevent) rfl rfl rfl)
        fun L₅ h₅ hT happ => ?_
      exact hdead _ _ L₅ event _ (h₄.before.trans (h₅.mono h₄.own)) hid hT happ
    · simp only [Post.andThen_ok, wp_bind]
      refine wp_rollbackNow fun L₄ h₄ => ?_
      exact hrefused _ _ L₄ ((h₂.before.trans (h₃.before.mono h₂.own)).trans
        (h₄.mono fun _ hu => h₃.own (h₂.own hu)))

end Admin

/-! ### Leads -/

namespace Leads

/-- A session that has read leads: all it has to commit are escalations. -/
structure Browses (rules : Rules Db Write Question Reply) (sight : Sight) (s : Session Write Reply)
    (L : Ledger Db Write) (s' : Session Write Reply) (L' : Ledger Db Write) : Prop where
  before : Before rules s.own L L'
  ready : Ready s' L'
  escalates : Escalation.Escalates sight L' s'.pending
  own : s.own ⊆ s'.own

theorem Browses.of_idle (hs : s.pending = []) : Browses rules sight s L s L :=
  ⟨.refl L, .of_idle hs L, by rw [hs]; exact .nil, fun _ hu => hu⟩

/-- Interference and reads leave a reader with what it has to commit. -/
theorem Browses.proceeds (fair : Fair rules sight) {s₀ : Session Write Reply}
    {L₀ L' : Ledger Db Write} {s' : Session Write Reply} {now : Time}
    (h : Browses rules sight s₀ L₀ s L) (h' : Proceeds rules s L now [] s' L') :
    Browses rules sight s₀ L₀ s' L' := by
  refine ⟨h.before.trans (h'.before.mono h.own), h'.ready, ?_, fun _ hu => h'.own (h.own hu)⟩
  rw [h'.pending, List.append_nil]
  exact h.escalates.mono fun P => h'.before.sight fair

/-- The route a reader holds is open only if it has not flagged it. -/
def Fresh (sight : Sight) (s : Session Write Reply) (L : Ledger Db Write) (route : Option Route) :
    Prop :=
  ∀ r ∈ route, r.escalated = false → sight (fun db => r ∈ db .routes) L ∧
    ∀ w ∈ s.pending, w.table = .routes → w.rowId ≠ r.id

theorem Fresh.proceeds (fair : Fair rules sight) {route : Option Route} {s' : Session Write Reply}
    {L' : Ledger Db Write} {now : Time} (h : Fresh sight s L route)
    (h' : Proceeds rules s L now [] s' L') : Fresh sight s' L' route := by
  intro r hr hopen
  obtain ⟨hseen, hnew⟩ := h r hr hopen
  rw [h'.pending, List.append_nil]
  exact ⟨h'.before.sight fair hseen, hnew⟩

theorem wp_read (fair : Fair rules sight) {s₀ : Session Write Reply} {L₀ : Ledger Db Write}
    (hs : Browses rules sight s₀ L₀ s L) {route : Option Route} (hroute : Fresh sight s L route)
    {β : Type} {q : Db → β} {post : Post Db Write Error Reply β}
    (h : ∀ b s' L', Browses rules sight s₀ L₀ s' L' → Fresh sight s' L' route →
      post (.ok b) s' L') : wp rules (.select q) post s L :=
  wp_select fair hs.ready fun s' L' _ hproceeds _ =>
    h _ s' L' (hs.proceeds fair hproceeds) (hroute.proceeds fair hproceeds)

theorem mem_of_foldl_latest {α : Type} {key : α → Time} {rows : List α} {row : α} :
    ∀ {best : Option α}, rows.foldl (fun best row => match best with
        | none => some row
        | some top => if key top < key row then some row else best) best = some row →
      row ∈ rows ∨ best = some row := by
  induction rows with
  | nil => exact .inr
  | cons head rest ih =>
      intro best h
      rcases ih h with h | h
      · exact .inl (List.mem_cons_of_mem _ h)
      · cases best with
        | none =>
            cases h
            exact .inl (List.mem_cons_self ..)
        | some top =>
            simp only at h
            split at h
            · cases h
              exact .inl (List.mem_cons_self ..)
            · exact .inr h

theorem mem_of_latest {α : Type} {key : α → Time} {rows : List α} {row : α}
    (h : latest key rows = some row) : row ∈ rows := by
  simpa using mem_of_foldl_latest h

theorem wp_latestRoute (fair : Fair rules sight) {s₀ : Session Write Reply} {L₀ : Ledger Db Write}
    (hs : Browses rules sight s₀ L₀ s L) {leadId : Uuid}
    {post : Post Db Write Error Reply (Option Route)}
    (h : ∀ route s' L', Browses rules sight s₀ L₀ s' L' → Fresh sight s' L' route →
      post (.ok route) s' L') : wp rules (latestRoute leadId) post s L := by
  refine wp_select fair hs.ready fun s' L' now hproceeds _ => ?_
  have hs' := hs.proceeds fair hproceeds
  refine h _ s' L' hs' fun r hr hopen => ?_
  have hpending : s'.pending = s.pending := by rw [hproceeds.pending, List.append_nil]
  have hmem := List.mem_of_mem_filter (mem_of_latest hr)
  obtain ⟨hroute, hnew⟩ := Escalation.Escalates.open_of_view
    (hs.escalates.mono fun P => hproceeds.before.sight fair) hmem hopen
  rw [hpending]
  exact ⟨fair.now (fun db => r ∈ db .routes) L' hroute, hnew⟩

theorem wp_evaluateEscalation (fair : Fair rules sight) {s₀ : Session Write Reply}
    {L₀ : Ledger Db Write} (hs : Browses rules sight s₀ L₀ s L) {route : Option Route}
    (hroute : Fresh sight s L route) {identityId : Uuid} {post : Post Db Write Error Reply Bool}
    (h : ∀ b s' L', Browses rules sight s₀ L₀ s' L' → post (.ok b) s' L') :
    wp rules (Escalation.evaluateEscalation route identityId) post s L := by
  unfold Escalation.evaluateEscalation
  cases route with
  | none => exact h _ s L hs
  | some route =>
    cases hescalated : route.escalated with
    | true =>
      simp only [hescalated]
      exact h _ s L hs
    | false =>
      obtain ⟨hseen, hnew⟩ := hroute route rfl hescalated
      simp only [hescalated, bind_eq, pure_eq, Bool.false_eq_true, if_false, wp_bind]
      refine wp_utcNow fair hs.ready fun L₁ now hbefore hready _ => ?_
      have hs₁ : Browses rules sight s₀ L₀ s L₁ :=
        ⟨hs.before.trans (hbefore.mono hs.own), hready,
          hs.escalates.mono fun P => hbefore.sight fair, hs.own⟩
      have hseen := hbefore.sight fair hseen
      rw [Post.andThen_ok]
      by_cases hbreached : Escalation.isSlaBreached route.slaDeadline now = true
      · rw [if_pos hbreached, wp_bind]
        refine wp_save_of_ne fair hready (by decide) (fun _ => rfl) fun s₂ L₂ now₂ h₂ => ?_
        have hseen := h₂.before.sight fair hseen
        simp only [Post.andThen_ok, wp_bind]
        refine wp_writeReceipt fair h₂.ready fun s₃ L₃ rid now₃ h₃ _ => ?_
        have hseen := h₃.before.sight fair hseen
        obtain ⟨rfl, h₃⟩ := h₂.trans h₃
        refine h _ s₃ L₃ ⟨hs₁.before.trans (h₃.before.mono hs₁.own), h₃.ready, ?_,
          fun _ hu => h₃.own (hs₁.own hu)⟩
        have hflag : ({ route with escalated := true } : Route) ≠ route := by
          intro heq
          have hflagged := congrArg Route.escalated heq
          rw [hescalated] at hflagged
          cases hflagged
        rw [h₃.pending, saved_of_ne (t := .routes) hflag]
        exact .snoc (hs₁.escalates.mono fun P => h₃.before.sight fair) hseen hescalated hnew
      · rw [if_neg hbreached]
        exact h _ s L₁ hs₁

theorem wp_viewLead (fair : Fair rules sight) {s₀ : Session Write Reply} {L₀ : Ledger Db Write}
    (hs : Browses rules sight s₀ L₀ s L) {filters : Filters} {lead : Lead}
    {post : Post Db Write Error Reply (Option LeadView)}
    (h : ∀ view s' L', Browses rules sight s₀ L₀ s' L' → post (.ok view) s' L') :
    wp rules (viewLead filters lead) post s L := by
  unfold viewLead
  simp only [bind_eq, pure_eq, wp_bind]
  refine wp_latestRoute fair hs fun route s₁ L₁ h₁ hroute => ?_
  simp only [Post.andThen_ok, wp_bind]
  refine wp_read fair h₁ hroute fun score s₂ L₂ h₂ hroute => ?_
  simp only [Post.andThen_ok, wp_bind]
  have hrest : ∀ keep s₃ L₃, Browses rules sight s₀ L₀ s₃ L₃ → Fresh sight s₃ L₃ route →
      wp rules (if keep = true then if decisionMatches score filters.decision = true then
          (Escalation.evaluateEscalation route lead.identityId).bind fun escalated =>
            .ret (some ⟨lead, route, score, escalated⟩)
        else .ret none else .ret none) post s₃ L₃ := by
    intro keep s₃ L₃ h₃ hroute
    split
    · split
      · rw [wp_bind]
        exact wp_evaluateEscalation fair h₃ hroute fun b s' L' h' => h _ s' L' h'
      · exact h _ s₃ L₃ h₃
    · exact h _ s₃ L₃ h₃
  unfold sourceMatches
  split
  · exact hrest _ s₂ L₂ h₂ hroute
  · simp only [bind_eq, wp_bind]
    refine wp_read fair h₂ hroute fun event s₃ L₃ h₃ hroute => ?_
    cases event <;> exact hrest _ s₃ L₃ h₃ hroute

theorem wp_viewLeads (fair : Fair rules sight) {s₀ : Session Write Reply} {L₀ : Ledger Db Write}
    {filters : Filters} {leads : List Lead} :
    ∀ {s : Session Write Reply} {L : Ledger Db Write}
      {post : Post Db Write Error Reply (List LeadView)}, Browses rules sight s₀ L₀ s L →
      (∀ views s' L', Browses rules sight s₀ L₀ s' L' → post (.ok views) s' L') →
      wp rules (viewLeads filters leads) post s L := by
  induction leads with
  | nil => exact fun hs h => h _ _ _ hs
  | cons lead leads ih =>
      intro s L post hs h
      unfold viewLeads
      simp only [bind_eq, pure_eq, wp_bind]
      refine wp_viewLead fair hs fun view s₁ L₁ h₁ => ?_
      simp only [Post.andThen_ok, wp_bind]
      exact ih h₁ fun views s' L' h' => h _ s' L' h'

/-- The commit of what a reader has escalated. -/
theorem wp_commit (fair : Fair rules sight) {s₀ : Session Write Reply} {L₀ : Ledger Db Write}
    (hs : Browses rules sight s₀ L₀ s L) (howes : Owes rules s₀ (Escalation.Escalates sight))
    {post : Post Db Write Error Reply Unit}
    (h : ∀ s' L' ws, Before rules s₀.own L₀ L' → Escalation.Escalates sight L' ws →
      Applicable ws L'.db → post (.ok ()) s' (L'.commit ws)) :
    wp rules .commitNow post s L :=
  wp_commitNow fair hs.ready howes hs.own rfl
    (fun _ hbefore => hs.escalates.mono fun _ => hbefore.sight fair) fun L' hbefore hT happ =>
      h _ L' _ (hs.before.trans (hbefore.mono hs.own)) hT happ

theorem wp_listLeads (fair : Fair rules sight) (hs : s.pending = []) {filters : Filters}
    (howes : Owes rules s (Escalation.Escalates sight))
    {post : Post Db Write Error Reply (List LeadView)}
    (h : ∀ views s' L' ws, Before rules s.own L L' → Escalation.Escalates sight L' ws →
      Applicable ws L'.db → post (.ok views) s' (L'.commit ws)) :
    wp rules (listLeads filters) post s L := by
  have hnone : ∀ s L, Fresh sight s L none := fun _ _ => by simp [Fresh]
  unfold listLeads
  simp only [bind_eq, pure_eq, wp_bind]
  refine wp_read fair (.of_idle hs) (hnone s L) fun leads s₁ L₁ h₁ _ => ?_
  simp only [Post.andThen_ok, wp_bind]
  refine wp_viewLeads fair h₁ fun views s₂ L₂ h₂ => ?_
  simp only [Post.andThen_ok, wp_bind]
  exact wp_commit fair h₂ howes fun s' L' ws hbefore hT happ => h _ s' L' ws hbefore hT happ

theorem wp_getLead (fair : Fair rules sight) (hs : s.pending = []) {withEvent : Bool}
    {leadId : Option Uuid} (howes : Owes rules s (Escalation.Escalates sight))
    {post : Post Db Write Error Reply (Option LeadDetail)}
    (hquiet : ∀ r s' L', Before rules s.own L L' → post r s' L')
    (h : ∀ detail s' L' ws, Before rules s.own L L' → Escalation.Escalates sight L' ws →
      Applicable ws L'.db → post (.ok detail) s' (L'.commit ws)) :
    wp rules (getLead withEvent leadId) post s L := by
  have hnone : ∀ s L, Fresh sight s L none := fun _ _ => by simp [Fresh]
  unfold getLead Attribute.findTouch
  simp only [bind_eq, pure_eq, wp_bind]
  refine ManualReview.wp_boundId (fun id _ => ?_) (hquiet _ s L (.refl L))
  simp only [Post.andThen_ok, wp_bind]
  refine wp_read fair (.of_idle hs) (hnone s L) fun lead s₁ L₁ h₁ _ => ?_
  cases lead with
  | none => exact hquiet _ s₁ L₁ h₁.before
  | some lead =>
    simp only [Post.andThen_ok, wp_bind]
    refine wp_latestRoute fair h₁ fun route s₂ L₂ h₂ hroute => ?_
    simp only [Post.andThen_ok, wp_bind]
    refine wp_read fair h₂ hroute fun score s₃ L₃ h₃ hroute => ?_
    simp only [Post.andThen_ok, wp_bind]
    refine wp_read fair h₃ hroute fun touch s₄ L₄ h₄ hroute => ?_
    have hrest : ∀ event : Option Event, ∀ s₅ L₅, Browses rules sight s L s₅ L₅ →
        Fresh sight s₅ L₅ route →
        wp rules ((Escalation.evaluateEscalation route lead.identityId).bind fun escalated =>
          commitNow.bind fun _ =>
            .ret (some { lead, route, score, escalated, touch, event })) post s₅ L₅ := by
      intro event s₅ L₅ h₅ hroute
      rw [wp_bind]
      refine wp_evaluateEscalation fair h₅ hroute fun escalated s₆ L₆ h₆ => ?_
      simp only [Post.andThen_ok, wp_bind]
      exact wp_commit fair h₆ howes fun s' L' ws hbefore hT happ => h _ s' L' ws hbefore hT happ
    simp only [Post.andThen_ok]
    cases withEvent with
    | false => exact hrest _ s₄ L₄ h₄ hroute
    | true =>
        rw [if_pos rfl, wp_bind]
        exact wp_read fair h₄ hroute fun event s₅ L₅ h₅ hroute => hrest event s₅ L₅ h₅ hroute

end Leads

namespace Dashboard

theorem wp_reconcilePairs (fair : Fair rules sight) {window : Window} {pairs : List Pair} :
    ∀ {s : Session Write Reply} {L : Ledger Db Write}
      {post : Post Db Write Error Reply (List ReportRow)}, Ready s L →
      (∀ rows s' L', Before rules s.own L L' → post (.ok rows) s' L') →
      wp rules (reconcilePairs window pairs) post s L := by
  induction pairs with
  | nil => exact fun _ h => h _ _ _ (.refl _)
  | cons pair pairs ih =>
      intro s L post hs h
      unfold reconcilePairs reconcilePair
      simp only [bind_eq, pure_eq, wp_bind]
      refine wp_select fair hs fun s₁ L₁ now₁ h₁ _ => ?_
      simp only [Post.andThen_ok, wp_bind]
      refine wp_select fair h₁.ready fun s₂ L₂ now₂ h₂ _ => ?_
      simp only [Post.andThen_ok, wp_ret, wp_bind]
      refine ih h₂.ready fun rows s₃ L₃ h₃ => ?_
      exact h _ s₃ L₃ ((h₁.before.trans (h₂.before.mono h₁.own)).trans
        (h₃.mono fun _ hu => h₂.own (h₁.own hu)))

theorem wp_reconciliation (fair : Fair rules sight) (hs : s.pending = []) {window : Window}
    {post : Post Db Write Error Reply Report}
    (h : ∀ report s' L', Before rules s.own L L' → post (.ok report) s' L') :
    wp rules (reconciliation window) post s L := by
  unfold reconciliation
  simp only [bind_eq, pure_eq, wp_bind]
  exact wp_reconcilePairs fair (.of_idle hs L) fun rows s' L' hbefore => h _ s' L' hbefore

end Dashboard

/-! ### Every request -/

-- The report is known by its specification from here on: unification would evaluate it.
attribute [local irreducible] Dashboard.reconciliation

/-- **Every commit of a request is a transaction of the service.** -/
theorem wp_handle (fair : Fair rules sight) (hs : s.pending = []) {request : Request}
    (howes : Owes rules s (Transaction app sight)) :
    wp rules (handle app request) (fun _ _ _ => True) s L := by
  cases request with
  | postEvent body =>
      simp only [handle, bind_eq, pure_eq, wp_bind]
      by_cases hvalid : ∃ payload model, body.map Body.json = some (.obj payload) ∧
          Schemas.validate app payload = .ok model
      · obtain ⟨payload, model, hbody, hvalid⟩ := hvalid
        rw [hbody]
        refine Events.wp_createEvent fair hs hvalid (fun _ => howes.imp fun _ _ => .creates)
          (fun _ => howes.imp fun _ _ => .edits)
          (fun s₁ L₁ event status hingested => .of_owes (howes.mono hingested.rests.own)) ?_ ?_ ?_ ?_ ?_
        · exact fun _ _ _ _ _ _ _ _ => trivial
        · exact fun _ _ _ _ _ _ => trivial
        · exact fun _ _ _ _ _ _ _ _ _ _ _ _ _ _ _ => trivial
        · intro s₁ L₁ event status _ s₂ L₂ identityId _ _ r s' L' _
          cases r with
          | error x => trivial
          | ok outcome => cases outcome <;> trivial
        · intro r s' L' _
          cases r <;> trivial
      · refine Events.wp_createEvent_invalid fair hs ?_ (howes.imp fun _ _ => .rejects) ?_ ?_ ?_
        · exact fun payload model hbody hmodel => hvalid ⟨payload, model, hbody, hmodel⟩
        · exact fun _ _ => trivial
        · exact fun _ _ _ _ _ _ _ => trivial
        · exact fun _ _ _ _ _ _ _ _ _ _ _ _ _ => trivial
  | resolveManualReview reviewId decision identityId =>
      simp only [handle, bind_eq, pure_eq, wp_bind]
      refine ManualReview.wp_resolveManualReview fair hs howes (fun r _ _ _ _ => ?_)
        fun _ r _ _ _ => ?_
      all_goals cases r <;> trivial
  | resolveForm reviewId decision identityId =>
      simp only [handle, bind_eq, pure_eq, wp_bind]
      refine ManualReview.wp_resolveForm fair hs howes fun r _ _ _ => ?_
      cases r <;> trivial
  | replayEvent authorized eventId =>
      simp only [handle, bind_eq, pure_eq, wp_bind]
      refine Admin.wp_replayEvent fair hs howes fun r _ _ _ => ?_
      cases r <;> trivial
  | simulateFailure authorized stage eventId =>
      simp only [handle, bind_eq, pure_eq, wp_bind]
      exact Admin.wp_simulateFailure fair hs (fun _ => howes.imp fun _ _ => .deadLetters)
        (fun _ _ _ _ => trivial) fun _ _ _ _ _ _ _ _ _ => trivial
  | listLeads filters =>
      simp only [handle, bind_eq, pure_eq, wp_bind]
      exact Leads.wp_listLeads fair hs (howes.imp fun _ _ => .escalates)
        fun _ _ _ _ _ _ _ => trivial
  | getLead withEvent leadId =>
      simp only [handle, bind_eq, pure_eq, wp_bind]
      refine Leads.wp_getLead fair hs (howes.imp fun _ _ => .escalates) (fun r _ _ _ => ?_)
        fun _ _ _ _ _ _ _ => trivial
      cases r <;> trivial
  | reconciliation window =>
      simp only [handle, bind_eq, pure_eq, wp_bind]
      exact Dashboard.wp_reconciliation fair hs fun _ _ _ _ => trivial

end DemandSignal
