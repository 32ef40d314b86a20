import DemandSignal.Simulation
import DemandSignal.Spec.Links

/-!
# Concurrent submissions of a pair

Calls of `create_event` that interleave. The loser of the race for the insert of a pair answers with the
row of the winner, so it drops a payload of its own that is another one.
-/

namespace DemandSignal

open Txn

variable {app : App} {L L' : Ledger Db Write}

/-- A call of `create_event`, with the payload of a request and what the schema has made of it. -/
structure Call (app : App) where
  model : EventIn
  payload : Json.Fields
  valid : Schemas.validate app payload = .ok model

def Call.payloadHash (call : Call app) : String := Ingest.computePayloadHash app call.payload

/-- Calls of `create_event`. -/
def ingestion (app : App) :
    Service (Call app) Db Write Error Question Reply (Event × Ingest.IngestStatus) where
  program call := Ingest.createEvent app call.model call.payload

/-- The runs in which a call that has lost the insert finds its own payload when it reads again. -/
def agreeing (app : App) :
    Service (Call app) Db Write Error Question Reply (Event × Ingest.IngestStatus) where
  program := (ingestion app).program
  Permits call s L verdict := match verdict with
    | .read => s.rollbacks = 0 ∨ ∀ event ∈ L.db .events, Ingest.Holds app call.model event →
        Event.payloadHash event = call.payloadHash
    | _ => True

/-- A receipt of the action for the event that the session has written. -/
def HasReceipt (own : List Uuid) (L : Ledger Db Write) (action : ActionType) (eventId : Uuid) : Prop :=
  ∃ receipt ∈ L.db .receipts, Receipt.id receipt ∈ own ∧ Receipt.actionType receipt = action ∧
    Receipt.eventId receipt = some eventId

/-- What is returned is true of the payload of the call. -/
def Kept (call : Call app) (own : List Uuid) (L : Ledger Db Write) (event : Event) :
    Ingest.IngestStatus → Prop
  | .duplicate => (∃ L₀, Extends L₀ L ∧ event ∈ L₀.db .events) ∧ event.payloadHash = call.payloadHash
  | .created => HasReceipt own L .eventCreated event.id
  | .edit => HasReceipt own L .eventEdited event.id

theorem Extends.receipt_mem (h : Extends L L') {receipt : Receipt} (hreceipt : receipt ∈ L.db .receipts) :
    receipt ∈ L'.db .receipts := by
  induction h with
  | refl => exact hreceipt
  | tail _ hlast ih =>
      obtain ⟨ws, rfl⟩ := hlast
      change receipt ∈ ws.foldl Db.apply _ .receipts
      rw [Db.receipts_foldl]
      exact List.mem_append_left _ ih

theorem HasReceipt.extends {own : List Uuid} {action : ActionType} {eventId : Uuid}
    (h : HasReceipt own L action eventId) (hextends : Extends L L') :
    HasReceipt own L' action eventId := by
  obtain ⟨receipt, hreceipt, hrest⟩ := h
  exact ⟨receipt, hextends.receipt_mem hreceipt, hrest⟩

/-- What a call returns stays true. -/
theorem Kept.extends {call : Call app} {own : List Uuid} {event : Event} {status : Ingest.IngestStatus}
    (h : Kept call own L event status) (hextends : Extends L L') : Kept call own L' event status := by
  cases status with
  | duplicate =>
      obtain ⟨⟨L₀, hextends₀, hevent⟩, hhash⟩ := h
      exact ⟨⟨L₀, hextends₀.trans hextends, hevent⟩, hhash⟩
  | created => exact HasReceipt.extends h hextends
  | edit => exact HasReceipt.extends h hextends

theorem hasReceipt_of_insert {ws : List Write} {own : List Uuid} {receipt : Receipt} {eventId : Uuid}
    (hreceipt : .insert .receipts receipt ∈ ws) (hown : insertIds ws ⊆ own)
    (hevent : receipt.eventId = some eventId) (hextends : Extends (L.commit ws) L') :
    HasReceipt own L' receipt.actionType eventId := by
  refine ⟨receipt, hextends.receipt_mem (receipt_mem_commit hreceipt), ?_, rfl, hevent⟩
  exact hown (mem_insertIds.mpr ⟨.receipts, receipt, hreceipt, rfl⟩)

/-- One call, among others. -/
theorem wp_ingestion (call : Call app) (L : Ledger Db Write) :
    wp (among (agreeing app) (Pays app once) Explains call) ((agreeing app).program call)
      (fun r s' L' => ∀ event status, r = .ok (event, status) → Kept call s'.own L' event status) {}
      L := by
  have fair : Fair (among (agreeing app) (Pays app once) Explains call) once :=
    fair_among (fun _ _ hs => hs.1) (fun _ _ _ _ => .intro) call
  have howes : Owes (among (agreeing app) (Pays app once) Explains call) {} (Transaction app once) :=
    owes_pays rfl {}
  refine Ingest.wp_createEvent fair rfl call.valid (fun _ => howes.imp fun _ _ => .creates)
    (fun _ => howes.imp fun _ _ => .edits) ?_ ?_ ?_ ?_ ?_ ?_
  · rintro s' L' event - hbefore hevent - hhash _ _ ⟨⟩
    exact ⟨⟨L', .refl, hevent⟩, hhash⟩
  · rintro s' L' event - - - hevent hholds ⟨s₁, hrollbacks, hpermit⟩ _ _ ⟨⟩
    refine ⟨⟨L', .refl, hevent⟩, ?_⟩
    refine (hpermit : s₁.rollbacks = 0 ∨ _).resolve_left ?_ event hevent hholds
    rw [hrollbacks]
    exact Nat.succ_ne_zero _
  · rintro s' L₁ L' id ws event - - hcreates - hafter hfind - - hown _ _ ⟨⟩
    obtain rfl : event.id = id := by simpa using List.find?_some hfind
    obtain ⟨-, -⟩ := hcreates
    exact hasReceipt_of_insert (List.mem_cons_of_mem _ (List.mem_cons_self ..)) hown rfl
      (hafter.toExtends fair)
  · rintro s' L₁ L' existing ws event - - hedits - hafter hfind hown _ _ ⟨⟩
    have hid : event.id = existing.id := by simpa using List.find?_some hfind
    obtain ⟨-, -, -, -, -⟩ := hedits
    exact hasReceipt_of_insert (List.mem_append_right _ (List.mem_cons_self ..)) hown
      (congrArg some hid.symm) (hafter.toExtends fair)
  · rintro _ s' L' - - - _ _ ⟨⟩
  · rintro x s' L' - _ _ ⟨⟩

/-- **No call answers `duplicate` for a payload that is not stored, and the others have their receipts**,
in every interleaving in which a call that has lost the insert finds its own payload. -/
theorem edits_kept {before : Config Request Db Write Error Question Reply Response}
    (hbefore : Reachable (service app) emptyLedger before)
    {config : Config (Call app) Db Write Error Question Reply (Event × Ingest.IngestStatus)}
    (h : Reachable (agreeing app) before.ledger config) :
    ∀ thread ∈ config.threads, ∀ event status, thread.status = .ended (.ok (event, status)) →
      Kept thread.input thread.session.own config.ledger event status := by
  have hsound : config.Sound (agreeing app) (History app once) (Pays app once) Explains
      fun call r s' L' => ∀ event status, r = .ok (event, status) →
        Kept call s'.own L' event status := h.sound
    (fun _ _ hL hs => hL.pays hs) (fun call L _ => wp_ingestion call L)
    (fun call r s L L' hkept hamid event status hr =>
      (hkept event status hr).extends (amid_extends hamid))
    (reachable_history hbefore)
  intro thread hthread event status hstatus
  have hthreadSound := hsound.threads thread hthread
  unfold Thread.Sound at hthreadSound
  rw [hstatus] at hthreadSound
  obtain ⟨s, hsession, hkept⟩ := hthreadSound
  rw [hsession]
  exact hkept event status rfl

/-- The call with a payload that the schema accepts. -/
def Call.ofPayload (payload : Json.Fields)
    (h : (Schemas.validate shipped payload).toOption.isSome = true) : Call shipped where
  model := (Schemas.validate shipped payload).toOption.get h
  payload
  valid := by
    have hget := Option.some_get h
    generalize (Schemas.validate shipped payload).toOption.get h = model at hget
    cases hvalid : Schemas.validate shipped payload with
    | error errors =>
        rw [hvalid] at hget
        cases hget
    | ok valid =>
        rw [hvalid] at hget
        cases hget
        rfl

def formPayload (message : String) : Json.Fields :=
  texts [("source", "web_form"), ("external_event_id", "1"), ("received_at", firstDay),
    ("email", "ada@example.com"), ("message", message)]

def shortCall : Call shipped := .ofPayload (formPayload "hi") (by decide +kernel)

def longCall : Call shipped := .ofPayload (formPayload "what does it cost") (by decide +kernel)

/-- The second call has looked for the pair before the first inserts it. -/
def racing (first second : Call shipped) : List (Action (Call shipped)) :=
  [.spawn first, .spawn second, .step 1] ++ List.replicate 8 (.step 0) ++ List.replicate 5 (.step 1)

/-- The thread has lost no insert, or every event is its payload. -/
def agrees (thread : Thread (Call shipped) Db Write Error Question Reply (Event × Ingest.IngestStatus))
    (L : Ledger Db Write) : Bool :=
  thread.session.rollbacks = 0 || (L.db .events).all fun event =>
    Event.payloadHash event = thread.input.payloadHash

theorem permits_of_agrees
    {thread : Thread (Call shipped) Db Write Error Question Reply (Event × Ingest.IngestStatus)}
    {L : Ledger Db Write} (h : agrees thread L = true) (verdict : Txn.Verdict Write) :
    (agreeing shipped).Permits thread.input thread.session L verdict := by
  cases verdict with
  | read =>
      simp only [agrees, Bool.or_eq_true, decide_eq_true_eq, List.all_eq_true] at h
      exact h.imp_right fun hall event hevent _ => hall event hevent
  | wrote => trivial
  | refused => trivial

/-- Two calls with one payload. -/
theorem edits_kept_identical :
    ∃ config, Config.playAllowed agrees (agreeing shipped) unreachable 0 ⟨emptyLedger, []⟩
        (racing shortCall shortCall) = some config ∧
      ∀ thread ∈ config.threads, ∀ event status, thread.status = .ended (.ok (event, status)) →
        Kept thread.input thread.session.own config.ledger event status := by
  have hplayed : (Config.playAllowed agrees (agreeing shipped) unreachable 0 ⟨emptyLedger, []⟩
      (racing shortCall shortCall)).isSome = true := by decide +kernel
  obtain ⟨config, hconfig⟩ := Option.isSome_iff_exists.mp hplayed
  refine ⟨config, hconfig, @edits_kept shipped ⟨emptyLedger, []⟩ .refl _ ?_⟩
  exact Config.playAllowed_reachable (fun _ _ verdict h => permits_of_agrees h verdict)
    (fun _ => trivial) .refl hconfig

/-- The call was answered with a duplicate of another payload. -/
def swallows
    (thread : Thread (Call shipped) Db Write Error Question Reply (Event × Ingest.IngestStatus)) :
    Bool :=
  match thread.status with
  | .ended (.ok (event, .duplicate)) => event.payloadHash ≠ thread.input.payloadHash
  | _ => false

/-- The later of two different payloads is swallowed. -/
theorem edit_swallowed :
    ¬ ∀ config, Reachable (ingestion shipped) emptyLedger config →
      ∀ thread ∈ config.threads, ∀ event status, thread.status = .ended (.ok (event, status)) →
        Kept thread.input thread.session.own config.ledger event status := by
  intro hall
  have hplayed : (Config.play (ingestion shipped) unreachable 0 ⟨emptyLedger, []⟩
      (racing shortCall longCall)).any (fun config => config.threads.any swallows) = true := by
    decide +kernel
  obtain ⟨config, hconfig, hthreads⟩ := (Option.any_eq_true _ _).mp hplayed
  obtain ⟨thread, hthread, hswallowed⟩ := List.any_eq_true.mp hthreads
  unfold swallows at hswallowed
  split at hswallowed
  · next event hstatus =>
    have hreach := Config.play_reachable (fun _ _ _ _ => trivial) (fun _ => trivial) .refl hconfig
    exact of_decide_eq_true hswallowed (hall config hreach thread hthread event .duplicate hstatus).2
  · cases hswallowed

end DemandSignal
