import DemandSignal.Json.RoundTrip
import DemandSignal.Keyed.Versions
import DemandSignal.Spec.Bodies
import DemandSignal.Spec.Reconciliation

/-!
# Stored versions

The accepted events are a map from pairs of a source and an external id to payloads: each request does
to the events what its submission does to the map.
-/

namespace DemandSignal

open Txn Keyed

variable {app : App} {L L' : Ledger Db Write} {heard : List Reply} {payload : Json.Fields}
  {model : EventIn} {event : Event}

/-- The source and the external id. -/
abbrev Pair := String × String

/-- Payloads that differ in the order of keys only. -/
def SamePayload (a b : Json.Fields) : Prop := Json.SameUpToOrder (.obj a) (.obj b)

def Event.pair (event : Event) : Pair := (event.source, event.externalEventId)

def EventIn.pair (model : EventIn) : Pair := (model.source, model.externalEventId)

/-- What the column values of an accepted event are made of. -/
structure Event.Sealed (app : App) (event : Event) : Prop where
  source : event.source ∈ ["web_form", "social_mention", "email_engagement"]
  externalEventId : event.externalEventId ≠ ""
  dedupeKey : event.dedupeKey =
    Ingest.computeDedupeKey app (.str event.source) (.str event.externalEventId)
  payloadHash : event.payloadHash = Ingest.computePayloadHash app event.rawPayload
  wf : (Json.obj event.rawPayload).Wf

/-! ### Digests -/

/-- No source holds the separator, so the text of a pair tells its parts. -/
theorem concat_pair_injective {source source' id id' : String}
    (hsource : source ∈ ["web_form", "social_mention", "email_engagement"])
    (hsource' : source' ∈ ["web_form", "social_mention", "email_engagement"])
    (h : Python.concat [source, "|", id] = Python.concat [source', "|", id']) :
    source = source' ∧ id = id' := by
  have hlist : source.toList ++ '|' :: id.toList = source'.toList ++ '|' :: id'.toList := by
    have := congrArg String.toList h
    simpa [Python.concat] using this
  simp only [List.mem_cons, List.not_mem_nil, or_false] at hsource hsource'
  obtain rfl | rfl | rfl := hsource <;> obtain rfl | rfl | rfl := hsource' <;>
    simp [String.toList_inj] at hlist <;> simp [hlist]

theorem computeDedupeKey_injective (hsha : Function.Injective app.sha256)
    {source source' id id' key : String}
    (hsource : source ∈ ["web_form", "social_mention", "email_engagement"])
    (hsource' : source' ∈ ["web_form", "social_mention", "email_engagement"])
    (h : Ingest.computeDedupeKey app (.str source) (.str id) = some key)
    (h' : Ingest.computeDedupeKey app (.str source') (.str id') = some key) :
    source = source' ∧ id = id' := by
  unfold Ingest.computeDedupeKey at h h'
  split at h
  · split at h'
    · exact concat_pair_injective hsource hsource'
        (hsha ((Option.some.inj h).trans (Option.some.inj h').symm))
    · cases h'
  · cases h

/-- Hashes agree on payloads that differ in the order of keys only. -/
theorem computePayloadHash_eq_iff (hsha : Function.Injective app.sha256) {a b : Json.Fields}
    (ha : (Json.obj a).Wf) (hb : (Json.obj b).Wf) :
    Ingest.computePayloadHash app a = Ingest.computePayloadHash app b ↔ SamePayload a b := by
  rw [SamePayload, ← Json.dumps_sortKeys_eq_iff ha hb]
  unfold Ingest.computePayloadHash Ingest.canonicalJson
  rw [hsha.eq_iff, String.ofList_inj]

theorem Event.Sealed.holds_iff (hsha : Function.Injective app.sha256) (h : event.Sealed app)
    (hvalid : Schemas.validate app payload = .ok model) :
    Ingest.Holds app model event ↔ event.isValid = true ∧ event.pair = model.pair := by
  obtain ⟨-, hsource, -, -⟩ := Schemas.validate_ok hvalid
  obtain ⟨key, hkey⟩ := Ingest.computeDedupeKey_isSome hvalid
  constructor
  · intro hholds
    have hkey' := h.dedupeKey.symm.trans (hholds.dedupeKey.trans hkey)
    obtain ⟨hsame, hid⟩ := computeDedupeKey_injective hsha h.source hsource hkey' hkey
    exact ⟨hholds.isValid, Prod.ext hsame hid⟩
  · rintro ⟨hevent, hpair⟩
    obtain ⟨hsame, hid⟩ := Prod.mk.inj hpair
    exact ⟨hevent, by rw [h.dedupeKey, hsame, hid]⟩

/-- The index of accepted events holds the key of the pair. -/
theorem Event.Sealed.indexed (h : event.Sealed app) (hvalid : event.isValid = true) :
    ∃ key, Ingest.computeDedupeKey app (.str event.source) (.str event.externalEventId) = some key ∧
      Key.eventDedupeKey key ∈ Row.indexed (t := .events) event := by
  have hne : event.source ≠ "" := by
    intro heq
    have hsource := h.source
    rw [heq] at hsource
    simp at hsource
  have hkey : ∃ key, Ingest.computeDedupeKey app (.str event.source) (.str event.externalEventId) =
      some key := by
    simp [Ingest.computeDedupeKey, Json.truthy, hne, h.externalEventId]
  obtain ⟨key, hkey⟩ := hkey
  refine ⟨key, hkey, ?_⟩
  simp [Row.indexed, hvalid, h.dedupeKey.trans hkey]

/-- Two accepted events of a pair are one. -/
theorem Event.Sealed.eq_of_pair {other : Event} {db : Db} (hsealed : event.Sealed app)
    (hotherSealed : other.Sealed app) (hdistinct : db.Distinct) (hevent : event ∈ db .events)
    (hvalid : event.isValid = true) (hother : other ∈ db .events) (hotherValid : other.isValid = true)
    (hpair : other.pair = event.pair) : other = event := by
  obtain ⟨key, hkey, hindexed⟩ := hsealed.indexed hvalid
  obtain ⟨key', hkey', hindexed'⟩ := hotherSealed.indexed hotherValid
  obtain ⟨hsource, hid⟩ := Prod.mk.inj hpair
  rw [hsource, hid, hkey] at hkey'
  cases hkey'
  exact hdistinct.eq_of_indexed (t := .events) hother hevent hindexed' hindexed

/-! ### The rows of the map -/

/-- The accepted events are the versions that the map holds. -/
structure Mirrors (app : App) (versions : Versions Pair Json.Fields) (db : Db) : Prop where
  sealed : ∀ event ∈ db .events, Event.isValid event = true → Event.Sealed app event
  lookup : ∀ pair payload, payload ∈ versions.lookup pair ↔
    ∃ event ∈ db .events, Event.isValid event = true ∧ Event.pair event = pair ∧
      Event.rawPayload event = payload

namespace Mirrors

variable {versions : Versions Pair Json.Fields}

theorem lookup_of_holds {db : Db} (h : Mirrors app versions db)
    (hsha : Function.Injective app.sha256) (hvalid : Schemas.validate app payload = .ok model)
    (hevent : event ∈ db .events) (hholds : Ingest.Holds app model event) :
    versions.lookup model.pair = some event.rawPayload := by
  obtain ⟨hisValid, hpair⟩ := ((h.sealed event hevent hholds.isValid).holds_iff hsha hvalid).mp hholds
  exact (h.lookup model.pair event.rawPayload).mpr ⟨event, hevent, hisValid, hpair, rfl⟩

theorem lookup_of_free {db : Db} (h : Mirrors app versions db)
    (hsha : Function.Injective app.sha256) (hvalid : Schemas.validate app payload = .ok model)
    (hfree : ∀ event ∈ db .events, ¬ Ingest.Holds app model event) :
    versions.lookup model.pair = none := by
  refine Option.eq_none_iff_forall_not_mem.mpr fun stored hstored => ?_
  obtain ⟨event, hevent, hisValid, hpair, -⟩ := (h.lookup model.pair stored).mp hstored
  exact hfree event hevent (((h.sealed event hevent hisValid).holds_iff hsha hvalid).mpr ⟨hisValid, hpair⟩)

/-- The hash of an event tells whether a payload is its version. -/
theorem same_iff {db : Db} (h : Mirrors app versions db) (hsha : Function.Injective app.sha256)
    (hwf : (Json.obj payload).Wf) (hevent : event ∈ db .events) (hisValid : event.isValid = true) :
    event.payloadHash = Ingest.computePayloadHash app payload ↔ SamePayload event.rawPayload payload := by
  have hsealed := h.sealed event hevent hisValid
  rw [hsealed.payloadHash]
  exact computePayloadHash_eq_iff hsha hsealed.wf hwf

theorem judge_duplicate {db : Db} (h : Mirrors app versions db) (hsha : Function.Injective app.sha256)
    (hvalid : Schemas.validate app payload = .ok model) (hwf : (Json.obj payload).Wf)
    (hevent : event ∈ db .events) (hholds : Ingest.Holds app model event)
    (hhash : event.payloadHash = Ingest.computePayloadHash app payload) :
    judge SamePayload versions model.pair payload = .duplicate :=
  judge_of_same (h.lookup_of_holds hsha hvalid hevent hholds)
    ((h.same_iff hsha hwf hevent hholds.isValid).mp hhash)

/-- The verdict on an accepted payload is its status. -/
theorem judge_accepted {status : Ingest.IngestStatus} (h : Mirrors app versions L.db)
    (hsha : Function.Injective app.sha256) (hvalid : Schemas.validate app payload = .ok model)
    (hwf : (Json.obj payload).Wf) (hdistinct : L.db.Distinct)
    (haccepted : Accepted app L model payload event status L') :
    status = .created ∧ judge SamePayload versions model.pair payload = .created ∨
      status = .edit ∧ judge SamePayload versions model.pair payload = .edit := by
  cases haccepted.row hdistinct with
  | created _ hnew => exact .inl ⟨rfl, judge_of_none (h.lookup_of_free hsha hvalid hnew)⟩
  | edited hexisting hedits =>
      refine .inr ⟨rfl, judge_of_not_same (h.lookup_of_holds hsha hvalid hexisting hedits.toHolds)
        fun hsame => hedits.payloadHash ?_⟩
      exact (h.same_iff hsha hwf hexisting hedits.isValid).mpr hsame

/-- The row of an accepted payload. -/
theorem sealed_accepted {status : Ingest.IngestStatus} (h : Mirrors app versions L.db)
    (hvalid : Schemas.validate app payload = .ok model) (hwf : (Json.obj payload).Wf)
    (hdistinct : L.db.Distinct) (haccepted : Accepted app L model payload event status L') :
    event.Sealed app := by
  obtain ⟨-, hsource, -, hid⟩ := Schemas.validate_ok hvalid
  cases haccepted.row hdistinct with
  | created => exact ⟨hsource, hid, rfl, rfl, hwf⟩
  | edited hexisting hedits =>
      have hsealed := h.sealed _ hexisting hedits.isValid
      exact ⟨hsealed.source, hsealed.externalEventId, hsealed.dedupeKey, rfl, hwf⟩

/-- The row that an accepted payload replaces is the one of its pair. -/
theorem pair_of_id {status : Ingest.IngestStatus} (h : Mirrors app versions L.db)
    (hsha : Function.Injective app.sha256) (hvalid : Schemas.validate app payload = .ok model)
    (hdistinct : L.db.Distinct) (haccepted : Accepted app L model payload event status L')
    {other : Event} (hother : other ∈ L.db .events) (hid : other.id = event.id) :
    other.pair = model.pair := by
  cases haccepted.row hdistinct with
  | created _ _ hfresh => exact absurd ⟨other, hother, hid⟩ hfresh
  | @edited existing hexisting hedits =>
      obtain rfl := hdistinct.eq_of_id (t := .events) hother hexisting hid
      exact (((h.sealed other hother hedits.isValid).holds_iff hsha hvalid).mp hedits.toHolds).2

/-- An accepted payload takes the place of the version of its pair. -/
theorem accepted {status : Ingest.IngestStatus} (h : Mirrors app versions L.db)
    (hsha : Function.Injective app.sha256) (hvalid : Schemas.validate app payload = .ok model)
    (hwf : (Json.obj payload).Wf) (hhistory : History app still L)
    (haccepted : Accepted app L model payload event status L') :
    Mirrors app (versions.insert model.pair payload) L'.db := by
  have hdistinct := hhistory.distinct
  obtain ⟨hcarries, hsets⟩ := haccepted.sets hdistinct
  have hsealed := h.sealed_accepted hvalid hwf hdistinct haccepted
  have hpair : event.pair = model.pair := ((hsealed.holds_iff hsha hvalid).mp hcarries.toHolds).2
  have hsealed' : ∀ other ∈ L'.db .events, Event.isValid other = true → Event.Sealed app other := by
    intro other hother hotherValid
    obtain rfl | ⟨hold, -⟩ := (hsets other).mp hother
    · exact hsealed
    · exact h.sealed other hold hotherValid
  refine ⟨hsealed', fun pair stored => ?_⟩
  by_cases hsame : pair = model.pair
  · subst hsame
    rw [AList.lookup_insert, Option.mem_some_iff]
    constructor
    · rintro rfl
      exact ⟨event, haccepted.event_mem, hcarries.isValid, hpair, hcarries.rawPayload⟩
    · rintro ⟨other, hother, hotherValid, hotherPair, rfl⟩
      obtain rfl | ⟨hold, hne⟩ := (hsets other).mp hother
      · exact hcarries.rawPayload.symm
      · have heq := hsealed.eq_of_pair (hsealed' other hother hotherValid)
          (haccepted.history hhistory).distinct haccepted.event_mem hcarries.isValid hother
          hotherValid (hotherPair.trans hpair.symm)
        exact absurd (congrArg Event.id heq) hne
  · rw [AList.lookup_insert_ne hsame, h.lookup]
    constructor
    · rintro ⟨other, hother, hotherValid, rfl, rfl⟩
      refine ⟨other, (hsets other).mpr (.inr ⟨hother, fun hid => hsame ?_⟩), hotherValid, rfl, rfl⟩
      exact h.pair_of_id hsha hvalid hdistinct haccepted hother hid
    · rintro ⟨other, hother, hotherValid, rfl, rfl⟩
      obtain rfl | ⟨hold, -⟩ := (hsets other).mp hother
      · exact absurd hpair hsame
      · exact ⟨other, hold, hotherValid, rfl, rfl⟩

end Mirrors

/-! ### Receipts of the two actions -/

def receipted (action : ActionType) (db : Db) : Nat :=
  (db .receipts).countP fun receipt => Receipt.actionType receipt = action

theorem receipted_commit (action : ActionType) (L : Ledger Db Write) (ws : List Write) :
    receipted action (L.commit ws).db = receipted action L.db +
      (inserted .receipts ws).countP fun receipt => Receipt.actionType receipt = action := by
  have hreceipts : (L.commit ws).db .receipts = L.db .receipts ++ inserted .receipts ws :=
    Db.receipts_foldl ws L.db
  rw [receipted, hreceipts, List.countP_append, receipted]

/-- Neither the events nor the receipts of their creation and of their edits change. -/
structure Beside (L L' : Ledger Db Write) : Prop where
  events : L'.db .events = L.db .events
  created : receipted .eventCreated L'.db = receipted .eventCreated L.db
  edited : receipted .eventEdited L'.db = receipted .eventEdited L.db

theorem Beside.refl (L : Ledger Db Write) : Beside L L := ⟨rfl, rfl, rfl⟩

theorem Beside.trans {L₁ : Ledger Db Write} (h : Beside L L₁) (h' : Beside L₁ L') : Beside L L' :=
  ⟨h'.events.trans h.events, h'.created.trans h.created, h'.edited.trans h.edited⟩

theorem receipted_of_records {ws : List Write} {actions : List ActionType} (h : Records ws actions)
    {action : ActionType} (haction : action ∉ actions) :
    receipted action (L.commit ws).db = receipted action L.db := by
  rw [receipted_commit, List.countP_eq_zero.mpr, Nat.add_zero]
  exact fun receipt hreceipt => by simpa using h.ne hreceipt haction

theorem beside_of_names {ws : List Write} {ts : List Table} {actions : List ActionType}
    (htables : Names ws ts) (hrecords : Records ws actions) (hevents : .events ∉ ts)
    (hcreated : .eventCreated ∉ actions) (hedited : .eventEdited ∉ actions) :
    Beside L (L.commit ws) :=
  ⟨commit_of_untouched (htables.ne hevents), receipted_of_records hrecords hcreated,
    receipted_of_records hrecords hedited⟩

theorem Identified.beside {identityId : Uuid} (h : Identified app L event identityId L') :
    Beside L L' := by
  cases h with
  | found => exact .refl L
  | linked h => exact beside_of_names h.tables h.records (by decide) (by decide) (by decide)

theorem Piped.beside {identityId : Uuid} {r : Except Error (Option Pipeline.Outcome)}
    (h : Piped app L event identityId heard r L') : Beside L L' := by
  cases h with
  | acted _ h₁ _ _ _ h₂ _ h₃ =>
      exact ((beside_of_names h₁.tables h₁.records (by decide) (by decide) (by decide)).trans
        (beside_of_names h₂.tables h₂.records (by decide) (by decide) (by decide))).trans
        (beside_of_names h₃.acts.tables h₃.acts.records (by decide) (by decide) (by decide))
  | dead _ h => exact beside_of_names h.tables h.records (by decide) (by decide) (by decide)
  | alreadyDead => exact .refl L
  | noText => exact .refl L
  | unstorable => exact .refl L
  | badMessage => exact .refl L
  | noScore _ h => exact beside_of_names h.tables h.records (by decide) (by decide) (by decide)

theorem Accepted.receipted {status : Ingest.IngestStatus}
    (h : Accepted app L model payload event status L') :
    receipted .eventCreated L'.db =
        receipted .eventCreated L.db + (if status = .created then 1 else 0) ∧
      receipted .eventEdited L'.db = receipted .eventEdited L.db + (if status = .edit then 1 else 0) := by
  cases h with
  | created hcreates =>
      rw [receipted_commit, receipted_commit]
      obtain ⟨-, -⟩ := hcreates
      simp [inserted_cons_of_ne, receipt]
  | edited hedits =>
      rw [receipted_commit, receipted_commit]
      obtain ⟨-, -, -, -, -⟩ := hedits
      simp [receipt]

/-! ### A request -/

/-- What a request submits to the map: nothing, unless it is a `POST` that the schema accepts. -/
def Request.submission (app : App) : Request → Option (Pair × Json.Fields)
  | .postEvent (some ⟨.obj payload, _⟩) =>
      match Schemas.validate app payload with
      | .ok model => some (model.pair, payload)
      | .error _ => none
  | _ => none

/-- The database takes the strings that a request submits. -/
def Request.Storable (app : App) : Request → Prop
  | .postEvent (some ⟨.obj payload, _⟩) =>
      match Schemas.validate app payload with
      | .ok model => Ingest.acceptable model payload = true
      | .error _ => True
  | _ => True

def Request.storable (app : App) : Request → Bool
  | .postEvent (some ⟨.obj payload, _⟩) =>
      match Schemas.validate app payload with
      | .ok model => Ingest.acceptable model payload
      | .error _ => true
  | _ => true

theorem Request.storable_iff {request : Request} :
    request.storable app = true ↔ request.Storable app := by
  unfold storable Storable
  split
  · split
    · exact Iff.rfl
    · exact iff_of_true rfl trivial
  · exact iff_of_true rfl trivial

instance (app : App) (request : Request) : Decidable (request.Storable app) :=
  decidable_of_iff _ Request.storable_iff

/-- The verdict that a response gives. -/
def EventIngestResponse.verdict (response : EventIngestResponse) : Option Keyed.Verdict :=
  if response.isValid then
    if response.duplicate then some .duplicate else if response.isEdit then some .edit
    else some .created
  else none

noncomputable def verdictOn (app : App) (versions : Versions Pair Json.Fields) (request : Request) :
    Option Keyed.Verdict :=
  (request.submission app).map fun submission =>
    judge SamePayload versions submission.1 submission.2

/-- A request does to the database what its submission does to the map. -/
structure Follows (app : App) (versions : Versions Pair Json.Fields) (request : Request)
    (L : Ledger Db Write) (r : Except Error Response) (L' : Ledger Db Write) : Prop where
  mirrors : Mirrors app ((request.submission app).elim versions (Keyed.submit SamePayload versions)) L'.db
  created : receipted .eventCreated L'.db = receipted .eventCreated L.db +
    if verdictOn app versions request = some .created then 1 else 0
  edited : receipted .eventEdited L'.db = receipted .eventEdited L.db +
    if verdictOn app versions request = some .edit then 1 else 0
  answer : ∀ code response, request.Posts → r = .ok (.ingest (code, response)) →
    response.verdict = verdictOn app versions request
  duplicate : verdictOn app versions request = some .duplicate → L' = L
  invalid : verdictOn app versions request = none →
    (L'.db .events).filter Event.isValid = (L.db .events).filter Event.isValid

theorem Mirrors.of_events {versions : Versions Pair Json.Fields} {db db' : Db}
    (h : Mirrors app versions db)
    (hevents : ∀ event, Event.isValid event = true → (event ∈ db' .events ↔ event ∈ db .events)) :
    Mirrors app versions db' := by
  refine ⟨fun event hevent hvalid => h.sealed event ((hevents event hvalid).mp hevent) hvalid,
    fun pair payload => (h.lookup pair payload).trans ?_⟩
  constructor
  · rintro ⟨event, hevent, hvalid, hrest⟩
    exact ⟨event, (hevents event hvalid).mpr hevent, hvalid, hrest⟩
  · rintro ⟨event, hevent, hvalid, hrest⟩
    exact ⟨event, (hevents event hvalid).mp hevent, hvalid, hrest⟩

section Requests

variable {versions : Versions Pair Json.Fields} {request : Request} {r : Except Error Response}

/-- A request that submits nothing and leaves the events alone. -/
theorem Follows.of_beside (hmirrors : Mirrors app versions L.db)
    (hsubmission : request.submission app = none) (hbeside : Beside L L')
    (hanswer : ∀ code response, request.Posts → r = .ok (.ingest (code, response)) →
      response.verdict = none) : Follows app versions request L r L' := by
  have hverdict : verdictOn app versions request = none := by rw [verdictOn, hsubmission]; rfl
  refine ⟨?_, ?_, ?_, ?_, ?_, ?_⟩
  · rw [hsubmission]
    exact hmirrors.of_events fun event _ => by rw [hbeside.events]
  · rw [hverdict, if_neg (by simp), hbeside.created, Nat.add_zero]
  · rw [hverdict, if_neg (by simp), hbeside.edited, Nat.add_zero]
  · rw [hverdict]
    exact hanswer
  · intro hduplicate
    rw [hverdict] at hduplicate
    cases hduplicate
  · exact fun _ => by rw [hbeside.events]

theorem submission_of_not_posts (h : ¬ request.Posts) : request.submission app = none := by
  cases request with
  | postEvent body => exact absurd ⟨body, rfl⟩ h
  | _ => rfl

/-- A body that is refused submits nothing. -/
theorem submission_of_refusal {body : Option Body} {reason : String}
    (h : Events.refusal app (body.map Body.json) = some (payload, reason)) :
    (Request.postEvent body).submission app = none := by
  unfold Request.submission
  split
  · next payload' wf heq =>
    cases heq
    simp only [Option.map_some, Events.refusal] at h
    split at h
    · next herrors => rw [herrors]
    · cases h
  · rfl

theorem submission_of_valid {body : Option Body} (hbody : body.map Body.json = some (.obj payload))
    (hvalid : Schemas.validate app payload = .ok model) :
    (Request.postEvent body).submission app = some (model.pair, payload) := by
  obtain ⟨⟨json, wf⟩, rfl, rfl⟩ := Option.map_eq_some_iff.mp hbody
  simp only [Request.submission, hvalid]

/-- The answer to an accepted payload that was not a duplicate. -/
theorem verdict_of_answer {status : Ingest.IngestStatus} {identityId : Uuid} {code : Nat}
    {response : EventIngestResponse} {result : Except Error (Option Pipeline.Outcome)}
    (h : Events.answerOf event.id status identityId result = .ok (code, response)) :
    response.verdict = if status = .edit then some .edit else some .created := by
  unfold Events.answerOf at h
  split at h
  · cases h
    simp [EventIngestResponse.verdict, Events.deadLetterResponse]
  · cases h
    simp [EventIngestResponse.verdict, Events.interpretResponse]
  · cases h

/-- An accepted payload, and what comes after it. -/
theorem Follows.of_accepted {body : Option Body} {status : Ingest.IngestStatus} {L₁ : Ledger Db Write}
    (hmirrors : Mirrors app versions L.db) (hsha : Function.Injective app.sha256)
    (hbody : body.map Body.json = some (.obj payload))
    (hvalid : Schemas.validate app payload = .ok model) (hhistory : History app still L)
    (haccepted : Accepted app L model payload event status L₁) (hbeside : Beside L₁ L')
    (hanswer : ∀ code response, r = .ok (.ingest (code, response)) →
      response.verdict = if status = .edit then some .edit else some .created) :
    Follows app versions (.postEvent body) L r L' := by
  have hwf : (Json.obj payload).Wf := by
    obtain ⟨⟨json, wf⟩, -, rfl⟩ := Option.map_eq_some_iff.mp hbody
    exact wf
  have hsubmission := submission_of_valid hbody hvalid
  have hjudge := hmirrors.judge_accepted hsha hvalid hwf hhistory.distinct haccepted
  have hverdict : verdictOn app versions (.postEvent body) =
      if status = .edit then some .edit else some .created := by
    rw [verdictOn, hsubmission, Option.map_some]
    obtain ⟨rfl, hjudge⟩ | ⟨rfl, hjudge⟩ := hjudge <;> rw [hjudge] <;> rfl
  have hne : judge SamePayload versions model.pair payload ≠ .duplicate := by
    obtain ⟨-, hjudge⟩ | ⟨-, hjudge⟩ := hjudge <;> rw [hjudge] <;> simp
  obtain ⟨hcreated, hedited⟩ := haccepted.receipted
  refine ⟨?_, ?_, ?_, ?_, ?_, ?_⟩
  · rw [hsubmission, Option.elim_some, submit_of_ne hne]
    exact (hmirrors.accepted hsha hvalid hwf hhistory haccepted).of_events
      fun event _ => by rw [hbeside.events]
  · rw [hbeside.created, hcreated, hverdict]
    obtain ⟨rfl, -⟩ | ⟨rfl, -⟩ := hjudge <;> simp
  · rw [hbeside.edited, hedited, hverdict]
    obtain ⟨rfl, -⟩ | ⟨rfl, -⟩ := hjudge <;> simp
  · rw [hverdict]
    exact fun code response _ => hanswer code response
  · rw [hverdict]
    intro hduplicate
    split at hduplicate <;> cases hduplicate
  · rw [hverdict]
    intro hnone
    split at hnone <;> cases hnone

theorem Follows.of_duplicate {body : Option Body} (hmirrors : Mirrors app versions L.db)
    (hsubmission : (Request.postEvent body).submission app = some (model.pair, payload))
    (hjudge : judge SamePayload versions model.pair payload = .duplicate)
    (hanswer : ∀ code response, r = .ok (.ingest (code, response)) →
      response.verdict = some .duplicate) :
    Follows app versions (.postEvent body) L r L := by
  have hverdict : verdictOn app versions (.postEvent body) = some .duplicate := by
    rw [verdictOn, hsubmission, Option.map_some, hjudge]
  refine ⟨?_, ?_, ?_, ?_, fun _ => rfl, fun _ => rfl⟩
  · rw [hsubmission, Option.elim_some, submit_of_duplicate hjudge]
    exact hmirrors
  · rw [hverdict, if_neg (by simp), Nat.add_zero]
  · rw [hverdict, if_neg (by simp), Nat.add_zero]
  · rw [hverdict]
    exact fun code response _ => hanswer code response

theorem Posted.follows {body : Option Body} {result : Except Error Events.Answer}
    (h : Posted app L heard model payload result L') (hmirrors : Mirrors app versions L.db)
    (hsha : Function.Injective app.sha256) (hbody : body.map Body.json = some (.obj payload))
    (hvalid : Schemas.validate app payload = .ok model) (hhistory : History app still L)
    (hstorable : Ingest.acceptable model payload = true) :
    Follows app versions (.postEvent body) L (result.map Response.ingest) L' := by
  have hwf : (Json.obj payload).Wf := by
    obtain ⟨⟨json, wf⟩, -, rfl⟩ := Option.map_eq_some_iff.mp hbody
    exact wf
  cases h with
  | duplicate hevent hholds hhash =>
      refine .of_duplicate hmirrors (submission_of_valid hbody hvalid)
        (hmirrors.judge_duplicate hsha hvalid hwf hevent hholds hhash) fun code response h => ?_
      cases h
      rfl
  | unacceptable hdata =>
      rw [hstorable] at hdata
      cases hdata
  | parked haccepted hparks =>
      refine .of_accepted hmirrors hsha hbody hvalid hhistory haccepted
        (beside_of_names hparks.tables hparks.records (by decide) (by decide) (by decide))
        fun code response h => ?_
      cases h
      simp [EventIngestResponse.verdict]
  | piped haccepted hidentified hpiped =>
      refine .of_accepted hmirrors hsha hbody hvalid hhistory haccepted
        (hidentified.beside.trans hpiped.beside) fun code response h => ?_
      cases hanswer : Events.answerOf _ _ _ _ with
      | error x =>
          rw [hanswer] at h
          cases h
      | ok answer =>
          rw [hanswer] at h
          cases h
          exact verdict_of_answer hanswer

/-- The record of a rejected payload is no accepted event. -/
theorem Follows.of_rejected {body : Option Body} {reason : String} {ws : List Write} {eventId : Uuid}
    (hmirrors : Mirrors app versions L.db)
    (hrefusal : Events.refusal app (body.map Body.json) = some (payload, reason))
    (hrefuses : Ingest.Refuses app payload reason ws) :
    Follows app versions (.postEvent body) L
      (.ok (.ingest (200, { eventId, isValid := false, invalidReason := some reason })))
      (L.commit ws) := by
  obtain ⟨receivedAt, row, id, now, -, hrow, hevents, -⟩ := hrefuses.rows (L := L)
  have hinvalid : (row id now).isValid = false := (Ingest.rejectedEvent_spec hrow id now).2.1
  have hsubmission := submission_of_refusal hrefusal
  have hverdict : verdictOn app versions (.postEvent body) = none := by
    rw [verdictOn, hsubmission, Option.map_none]
  refine ⟨?_, ?_, ?_, ?_, ?_, ?_⟩
  · rw [hsubmission]
    refine hmirrors.of_events fun event hvalid => ?_
    rw [hevents, List.mem_append, List.mem_singleton]
    refine ⟨fun hevent => hevent.resolve_right ?_, .inl⟩
    rintro rfl
    rw [hinvalid] at hvalid
    cases hvalid
  · rw [hverdict, if_neg (by simp), receipted_of_records hrefuses.rejects.records (by decide),
      Nat.add_zero]
  · rw [hverdict, if_neg (by simp), receipted_of_records hrefuses.rejects.records (by decide),
      Nat.add_zero]
  · rintro code response - ⟨⟩
    rw [hverdict]
    rfl
  · rw [hverdict]
    exact fun hduplicate => by cases hduplicate
  · intro _
    rw [hevents, List.filter_append, List.filter_cons_of_neg (by simp [hinvalid]), List.filter_nil,
      List.append_nil]

/-- **Every request follows the map.** -/
theorem Visited.follows (h : Visited app L heard request r L') (hmirrors : Mirrors app versions L.db)
    (hsha : Function.Injective app.sha256) (hhistory : History app still L)
    (hstorable : request.Storable app) : Follows app versions request L r L' := by
  have haside : ∀ {L' : Ledger Db Write}, ¬ request.Posts → Beside L L' →
      Follows app versions request L r L' := fun hposts hbeside =>
    .of_beside hmirrors (submission_of_not_posts hposts) hbeside fun _ _ h => absurd h hposts
  cases h with
  | @posted body payload model r' _ hbody hvalid hposted =>
      refine hposted.follows hmirrors hsha hbody hvalid hhistory ?_
      obtain ⟨⟨json, wf⟩, rfl, rfl⟩ := Option.map_eq_some_iff.mp hbody
      simpa only [Request.Storable, hvalid] using hstorable
  | rejected hrefusal hrefuses => exact .of_rejected hmirrors hrefusal hrefuses
  | malformed => exact .of_beside hmirrors rfl (.refl L) fun _ _ _ h => by cases h
  | unrecorded hrefusal =>
      exact .of_beside hmirrors (submission_of_refusal hrefusal) (.refl L) fun _ _ _ h => by cases h
  | quiet hquiet =>
      refine haside ?_ (.refl L)
      rintro ⟨body, rfl⟩
      exact hquiet
  | reviewed hdecides h =>
      exact haside hdecides.not_posts
        (beside_of_names h.tables h.records (by decide) (by decide) (by decide))
  | resumed hdecides h _ _ _ hpiped =>
      exact haside hdecides.not_posts
        ((beside_of_names h.tables h.records (by decide) (by decide) (by decide)).trans hpiped.beside)
  | replayed _ _ _ _ _ _ hpiped =>
      refine haside ?_ hpiped.beside
      rintro ⟨body, h⟩
      cases h
  | revived _ _ hpiped h =>
      refine haside ?_ (hpiped.beside.trans
        (beside_of_names h.tables h.records (by decide) (by decide) (by decide)))
      rintro ⟨body, h⟩
      cases h
  | simulated h =>
      refine haside ?_ (beside_of_names h.tables h.records (by decide) (by decide) (by decide))
      rintro ⟨body, h⟩
      cases h
  | escalated hreads h =>
      exact haside (Request.not_posts_of_reads hreads)
        (beside_of_names h.tables h.records (by decide) (by decide) (by decide))

end Requests

end DemandSignal
