import DemandSignal.Spec.History

/-!
# Entities and receipts

Every transaction that creates an entity writes its receipt, so along any history the entity rows of a
pair and the receipts of its action are the same up to their order.
-/

namespace DemandSignal

open Txn

namespace Dashboard

/-- What an entity row counts for: its id and, if asked for, the instant its pair goes by. -/
def Pair.entry (pair : Pair) (timed : Bool) (row : Row pair.table) : Option (Uuid × Option Time) :=
  if pair.filter row then some (row.id, if timed then some (pair.timestamp row) else none) else none

def Pair.credit (pair : Pair) (timed : Bool) (receipt : Receipt) : Option (Uuid × Option Time) :=
  if receipt.actionType = pair.actionType then
    some (receipt.entityId, if timed then some receipt.createdAt else none)
  else none

def Pair.Balanced (pair : Pair) (timed : Bool) (rows : List (Row pair.table))
    (receipts : List Receipt) : Prop :=
  (rows.filterMap (pair.entry timed)).Perm (receipts.filterMap (pair.credit timed))

/-- The pairs that count creations. -/
def creations : List Pair :=
  [eventsCreated, eventsRejected, identities, leads, routes, attributionTouches, deadLetterQueue]

theorem mem_creations {pair : Pair} (h : pair ∈ creations) :
    pair = eventsCreated ∨ pair = eventsRejected ∨ pair = identities ∨ pair = leads ∨
      pair = routes ∨ pair = attributionTouches ∨ pair = deadLetterQueue := by
  simpa [creations] using h

end Dashboard

open Dashboard

variable {app : App} {sight : Sight} {L : Ledger Db Write} {ws : List Write}

attribute [local simp] inserted_cons_of_ne Upsert.inserted_inserts_of_ne Pair.Balanced Pair.entry
  Pair.credit eventsCreated eventsRejected identities leads routes attributionTouches
  deadLetterQueue receipt

/-- The transactions that create nothing a pair counts. -/
theorem balanced_of_neutral {pair : Pair} (timed : Bool)
    (hrows : ∀ row ∈ inserted pair.table ws, pair.filter row = false)
    (hreceipts : ∀ receipt ∈ inserted .receipts ws, Receipt.actionType receipt ≠ pair.actionType) :
    pair.Balanced timed (inserted pair.table ws) (inserted .receipts ws) := by
  have hentries : (inserted pair.table ws).filterMap (pair.entry timed) = [] :=
    List.filterMap_eq_nil_iff.mpr fun row hrow => by simp [hrows row hrow]
  have hcredits : (inserted .receipts ws).filterMap (pair.credit timed) = [] :=
    List.filterMap_eq_nil_iff.mpr fun receipt hreceipt => by
      rw [Pair.credit, if_neg (hreceipts receipt hreceipt)]
  rw [Pair.Balanced, hentries, hcredits]

theorem Ingest.Creates.balanced {model : EventIn} {payload : Json.Fields} {id : Uuid}
    (h : Ingest.Creates app model payload id ws) {pair : Pair} (hpair : pair ∈ creations)
    (timed : Bool) : pair.Balanced timed (inserted pair.table ws) (inserted .receipts ws) := by
  obtain ⟨-, -⟩ := h
  obtain rfl | rfl | rfl | rfl | rfl | rfl | rfl := mem_creations hpair <;>
    simp [Ingest.created, Row.id]

theorem Ingest.Edits.balanced {model : EventIn} {payload : Json.Fields} {existing : Event}
    (h : Ingest.Edits app sight L model payload existing ws) {pair : Pair}
    (hpair : pair ∈ creations) (timed : Bool) :
    pair.Balanced timed (inserted pair.table ws) (inserted .receipts ws) := by
  obtain ⟨-, -, -, -, -⟩ := h
  obtain rfl | rfl | rfl | rfl | rfl | rfl | rfl := mem_creations hpair <;> simp

theorem Ingest.Rejects.balanced (h : Ingest.Rejects app ws) {pair : Pair}
    (hpair : pair ∈ creations) (timed : Bool) :
    pair.Balanced timed (inserted pair.table ws) (inserted .receipts ws) := by
  obtain @⟨_, _, _, row, id, _, now, hrow⟩ := h
  obtain ⟨hid, hvalid, -, hnow⟩ := Ingest.rejectedEvent_spec hrow id now
  obtain rfl | rfl | rfl | rfl | rfl | rfl | rfl := mem_creations hpair <;>
    simp [Row.id, hid, hvalid, hnow]

theorem Resolve.Links.balanced {event : Event} {identityId : Uuid}
    (h : Resolve.Links app sight L event identityId ws) {pair : Pair} (hpair : pair ∈ creations)
    (timed : Bool) : pair.Balanced timed (inserted pair.table ws) (inserted .receipts ws) := by
  cases h with
  | found =>
      obtain rfl | rfl | rfl | rfl | rfl | rfl | rfl := mem_creations hpair <;> simp
  | minted _ _ _ hmints =>
      obtain ⟨hid, hnow⟩ := Resolve.Rule.mints_spec hmints
      obtain rfl | rfl | rfl | rfl | rfl | rfl | rfl := mem_creations hpair <;>
        simp [Row.id, hid, hnow]

theorem Resolve.Parks.balanced {event : Event} (h : Resolve.Parks app sight L event ws) {pair : Pair}
    (hpair : pair ∈ creations) (timed : Bool) :
    pair.Balanced timed (inserted pair.table ws) (inserted .receipts ws) := by
  obtain @⟨_, _, entry, _, _, -, -, -, -⟩ := h
  cases entry <;>
    obtain rfl | rfl | rfl | rfl | rfl | rfl | rfl := mem_creations hpair <;>
    simp [Resolve.queuedReceipt]

theorem Resolve.Resolves.balanced {decision : String} {review : ManualReviewQueue}
    {identityId : Uuid} (h : Resolve.Resolves sight L decision review identityId ws) {pair : Pair}
    (hpair : pair ∈ creations) (timed : Bool) :
    pair.Balanced timed (inserted pair.table ws) (inserted .receipts ws) := by
  cases h with
  | merged =>
      obtain rfl | rfl | rfl | rfl | rfl | rfl | rfl := mem_creations hpair <;> simp
  | created _ _ hid hnow =>
      obtain rfl | rfl | rfl | rfl | rfl | rfl | rfl := mem_creations hpair <;> simp [hid, hnow]

theorem Interpret.Interprets.balanced {event : Event} {fields : Interpret.Classified}
    {interpretation : Interpretation}
    (h : Interpret.Interprets sight L event fields interpretation ws) {pair : Pair}
    (hpair : pair ∈ creations) (timed : Bool) :
    pair.Balanced timed (inserted pair.table ws) (inserted .receipts ws) := by
  obtain ⟨-, -, -⟩ := h
  obtain rfl | rfl | rfl | rfl | rfl | rfl | rfl := mem_creations hpair <;> simp

theorem Interpret.DeadLetters.balanced {event : Event} (h : Interpret.DeadLetters sight L event ws)
    {pair : Pair} (hpair : pair ∈ creations) (timed : Bool) :
    pair.Balanced timed (inserted pair.table ws) (inserted .receipts ws) := by
  obtain ⟨-, -, -, hnow⟩ := h
  obtain rfl | rfl | rfl | rfl | rfl | rfl | rfl := mem_creations hpair <;> simp [Row.id, hnow]

theorem Interpret.Revives.balanced {eventId identityId : Uuid}
    (h : Interpret.Revives sight L eventId identityId ws) {pair : Pair} (hpair : pair ∈ creations)
    (timed : Bool) : pair.Balanced timed (inserted pair.table ws) (inserted .receipts ws) := by
  obtain ⟨-, -, -⟩ := h
  obtain rfl | rfl | rfl | rfl | rfl | rfl | rfl := mem_creations hpair <;> simp

theorem Scoring.Scores.balanced {event : Event} {identityId : Uuid}
    {interpretation : Interpretation} {score : Score}
    (h : Scoring.Scores app sight L event identityId interpretation score ws) {pair : Pair}
    (hpair : pair ∈ creations) (timed : Bool) :
    pair.Balanced timed (inserted pair.table ws) (inserted .receipts ws) := by
  obtain @⟨_, _, _, _, upsert, -, -, -, -, -, -, -⟩ := h
  cases upsert <;>
    obtain rfl | rfl | rfl | rfl | rfl | rfl | rfl := mem_creations hpair <;>
    simp [Scoring.upsertWrites]

/-! ### Leads and touches -/

/-- An identity has a lead exactly when it has a touch. -/
def Db.Matched (db : Db) : Prop :=
  ∀ identityId, identityId ∈ (db .leads).map Lead.identityId ↔
    identityId ∈ (db .attributionTouches).map AttributionTouch.identityId

/-- A lead and a touch are created together, so the receipt of a touch may go by the lead. -/
theorem Act.Grounds.op_eq (lawful : sight.Lawful) {event : Event} {identityId : Uuid}
    {score : Option Score} {lead : Upsert .leads} {route : Upsert .routes}
    {touch : Upsert .attributionTouches} {now assignedAt updatedAt : Time}
    (h : Grounds app sight L event identityId score lead route touch now assignedAt updatedAt)
    (hmatched : L.db.Matched) (happ : Applicable ws L.db) (hlead : lead.inserts ⊆ ws)
    (htouch : touch.inserts ⊆ ws) : lead.op = touch.op := by
  have hleads := Upsert.By.updated_iff lawful h.led (fun _ _ _ => rfl) (fun _ => rfl)
    (.leadIdentity identityId) (fun row hrow => by simpa [Row.indexed] using hrow.symm) happ
    hlead
  have htouches := Upsert.By.updated_iff lawful h.touched (fun _ _ _ => rfl) (fun _ => rfl)
    (.touchIdentity identityId) (fun row hrow => by simpa [Row.indexed] using hrow.symm) happ
    htouch
  have hiff : lead.op = .updated ↔ touch.op = .updated := by
    rw [hleads, htouches]
    simpa using hmatched identityId
  cases lead <;> cases touch <;> simp_all [Upsert.op]

theorem Act.Acts.balanced (lawful : sight.Lawful) {event : Event} {identityId : Uuid}
    {score : Option Score} (h : Act.Acts app sight L event identityId score ws)
    (hmatched : L.db.Matched) (happ : Applicable ws L.db) {pair : Pair} (hpair : pair ∈ creations)
    (timed : Bool) (htimed : timed = true → pair ≠ routes) :
    pair.Balanced timed (inserted pair.table ws) (inserted .receipts ws) := by
  obtain @⟨lead, route, touch, leadRid, routeRid, touchRid, now, assignedAt, updatedAt, h⟩ := h
  have hop := h.op_eq lawful hmatched happ Act.inserts_subset.1 Act.inserts_subset.2.2
  by_cases hroutes : pair = routes
  · subst hroutes
    obtain rfl : timed = false := by simpa using htimed
    cases route <;> cases lead <;> simp [Act.writes, Row.id]
  · have hlead : ∀ row, lead = .created row → Lead.createdAt row = now := by
      rintro row rfl
      rw [h.led.2]
    have htouch : ∀ row, touch = .created row → AttributionTouch.createdAt row = now := by
      rintro row rfl
      rw [h.touched.2]
      rfl
    cases lead <;> cases touch <;> cases hop <;> cases route <;>
      obtain rfl | rfl | rfl | rfl | rfl | rfl | rfl := mem_creations hpair <;>
      first
        | exact absurd rfl hroutes
        | simp [Act.writes, Row.id, hlead _ rfl, htouch _ rfl]
        | simp [Act.writes, Row.id]

/-! ### The receipts of a transaction -/

theorem Escalation.Escalates.inserted_routes (h : Escalation.Escalates sight L ws) :
    inserted .routes ws = [] := by
  induction h with
  | nil => rfl
  | snoc _ _ _ _ ih => simp [ih]

/-- The receipt names an entity of the kind its action is about. -/
def Receipt.Typed (receipt : Receipt) : Prop :=
  ∀ pair ∈ pairs, receipt.actionType = pair.actionType → receipt.entityType = pair.entityType

theorem Transaction.typed (h : Transaction app sight L ws) :
    ∀ receipt ∈ inserted .receipts ws, Receipt.Typed receipt := by
  cases h with
  | creates h => cases h; simp [Receipt.Typed, pairs, eventsEdited]
  | edits h => cases h; simp [Receipt.Typed, pairs, eventsEdited]
  | rejects h => cases h; simp [Receipt.Typed, pairs, eventsEdited]
  | links h => cases h <;> simp [Receipt.Typed, pairs, eventsEdited]
  | parks h =>
      obtain @⟨_, _, entry, _, _, -, -, -, -⟩ := h
      cases entry <;> simp [Receipt.Typed, pairs, eventsEdited, Resolve.queuedReceipt]
  | resolves h => cases h <;> simp [Receipt.Typed, pairs, eventsEdited]
  | interprets h => cases h; simp [Receipt.Typed, pairs, eventsEdited]
  | scores h =>
      obtain @⟨_, _, _, _, upsert, -, -, -, -, -, -, -⟩ := h
      cases upsert <;> simp [Receipt.Typed, pairs, eventsEdited, Scoring.upsertWrites]
  | acts h =>
      obtain @⟨lead, route, touch, _, _, _, _, _, _, -⟩ := h
      cases lead <;> cases route <;> simp [Receipt.Typed, pairs, eventsEdited, Act.writes]
  | deadLetters h => cases h; simp [Receipt.Typed, pairs, eventsEdited]
  | revives h => cases h; simp [Receipt.Typed, pairs, eventsEdited]
  | escalates h =>
      intro receipt hreceipt
      have haction := h.records receipt hreceipt
      rw [List.mem_singleton] at haction
      simp [Receipt.Typed, pairs, eventsEdited, haction]

theorem Transaction.balanced (lawful : sight.Lawful) (h : Transaction app sight L ws)
    (hmatched : L.db.Matched) (happ : Applicable ws L.db) {pair : Pair} (hpair : pair ∈ creations)
    (timed : Bool) (htimed : timed = true → pair ≠ routes) :
    pair.Balanced timed (inserted pair.table ws) (inserted .receipts ws) := by
  cases h with
  | creates h => exact h.balanced hpair timed
  | edits h => exact h.balanced hpair timed
  | rejects h => exact h.balanced hpair timed
  | links h => exact h.balanced hpair timed
  | parks h => exact h.balanced hpair timed
  | resolves h => exact h.balanced hpair timed
  | interprets h => exact h.balanced hpair timed
  | scores h => exact h.balanced hpair timed
  | acts h => exact h.balanced lawful hmatched happ hpair timed htimed
  | deadLetters h => exact h.balanced hpair timed
  | revives h => exact h.balanced hpair timed
  | escalates h =>
      refine balanced_of_neutral timed ?_ fun receipt hreceipt => ?_
      · by_cases hroutes : pair = routes
        · subst hroutes
          intro row hrow
          rw [show inserted Dashboard.routes.table ws = [] from h.inserted_routes] at hrow
          cases hrow
        · rw [inserted_of_untouched (h.tables.ne ?_)]
          · simp
          · obtain rfl | rfl | rfl | rfl | rfl | rfl | rfl := mem_creations hpair <;>
              first | exact absurd rfl hroutes | simp
      · refine h.records.ne hreceipt ?_
        obtain rfl | rfl | rfl | rfl | rfl | rfl | rfl := mem_creations hpair <;> simp

/-- Leads, routes and touches are inserted by `act` only. -/
theorem Transaction.acts_of_inserts (h : Transaction app sight L ws)
    (hws : inserted .leads ws ≠ [] ∨ inserted .attributionTouches ws ≠ [] ∨
      inserted .routes ws ≠ []) :
    ∃ event identityId score, Act.Acts app sight L event identityId score ws := by
  have hnone : ∀ {ts : List Table}, Names ws ts → .leads ∉ ts → .attributionTouches ∉ ts →
      .routes ∉ ts → False := by
    intro ts hnames hleads htouches hroutes
    rw [inserted_of_untouched (hnames.ne hleads), inserted_of_untouched (hnames.ne htouches),
      inserted_of_untouched (hnames.ne hroutes)] at hws
    simp at hws
  cases h with
  | creates h => exact (hnone h.tables (by decide) (by decide) (by decide)).elim
  | edits h => exact (hnone h.tables (by decide) (by decide) (by decide)).elim
  | rejects h => exact (hnone h.tables (by decide) (by decide) (by decide)).elim
  | links h => exact (hnone h.tables (by decide) (by decide) (by decide)).elim
  | parks h => exact (hnone h.tables (by decide) (by decide) (by decide)).elim
  | resolves h => exact (hnone h.tables (by decide) (by decide) (by decide)).elim
  | interprets h => exact (hnone h.tables (by decide) (by decide) (by decide)).elim
  | scores h => exact (hnone h.tables (by decide) (by decide) (by decide)).elim
  | acts h => exact ⟨_, _, _, h⟩
  | deadLetters h => exact (hnone h.tables (by decide) (by decide) (by decide)).elim
  | revives h => exact (hnone h.tables (by decide) (by decide) (by decide)).elim
  | escalates h =>
      rw [h.inserted_routes, inserted_of_untouched (h.tables.ne (by decide)),
        inserted_of_untouched (h.tables.ne (by decide))] at hws
      simp at hws

/-! ### Along a history -/

theorem Db.Matched.acts (lawful : sight.Lawful) {event : Event} {identityId : Uuid}
    {score : Option Score} (hmatched : L.db.Matched)
    (h : Act.Acts app sight L event identityId score ws) (happ : Applicable ws L.db) :
    (L.commit ws).db.Matched := by
  obtain @⟨lead, route, touch, leadRid, routeRid, touchRid, now, assignedAt, updatedAt, h⟩ := h
  have hop := h.op_eq lawful hmatched happ Act.inserts_subset.1 Act.inserts_subset.2.2
  have hled := h.led
  have htouched := h.touched
  intro v
  change v ∈ (List.foldl Db.apply L.db _ .leads).map Lead.identityId ↔
    v ∈ (List.foldl Db.apply L.db _ .attributionTouches).map AttributionTouch.identityId
  rw [Db.map_foldl_apply (t := .leads) (fun _ _ _ => rfl),
    Db.map_foldl_apply (t := .attributionTouches) (fun _ _ _ => rfl), List.mem_append,
    List.mem_append, hmatched v]
  cases lead <;> cases touch <;> cases hop
  · rename_i leadRow touchRow
    have hlead : Lead.identityId leadRow = identityId := by rw [hled.2]
    have htouch : AttributionTouch.identityId touchRow = identityId := by
      rw [htouched.2]
      rfl
    simp [Act.writes, hlead, htouch]
  · simp [Act.writes]

theorem History.matched (lawful : sight.Lawful) (h : History app sight L) : L.db.Matched := by
  induction h with
  | empty => exact fun _ => Iff.rfl
  | @commit L ws _ htransaction happ ih =>
      by_cases hinserts : inserted .leads ws ≠ [] ∨ inserted .attributionTouches ws ≠ [] ∨
          inserted .routes ws ≠ []
      · obtain ⟨event, identityId, score, hacts⟩ := htransaction.acts_of_inserts hinserts
        exact ih.acts lawful hacts happ
      · simp only [not_or, not_not] at hinserts
        intro v
        change v ∈ (List.foldl Db.apply L.db ws .leads).map Lead.identityId ↔
          v ∈ (List.foldl Db.apply L.db ws .attributionTouches).map AttributionTouch.identityId
        rw [Db.map_foldl_apply (t := .leads) (fun _ _ _ => rfl),
          Db.map_foldl_apply (t := .attributionTouches) (fun _ _ _ => rfl), hinserts.1, hinserts.2.1]
        simpa using ih v

theorem Db.receipts_foldl (ws : List Write) (db : Db) :
    ws.foldl Db.apply db .receipts = db .receipts ++ inserted .receipts ws := by
  have hstatic : Row.Static (t := .receipts) id := fun _ _ _ => rfl
  have hmap := Db.map_foldl_apply hstatic ws db
  simpa using hmap

theorem History.typed (h : History app sight L) : ∀ receipt ∈ L.db .receipts, Receipt.Typed receipt := by
  induction h with
  | empty => exact fun _ hreceipt => absurd hreceipt List.not_mem_nil
  | commit _ htransaction _ ih =>
      intro receipt hreceipt
      rw [Ledger.commit, show Store.apply = Db.apply from rfl, Db.receipts_foldl] at hreceipt
      rcases List.mem_append.mp hreceipt with hreceipt | hreceipt
      exacts [ih receipt hreceipt, htransaction.typed receipt hreceipt]

/-- What a pair counts never changes. -/
theorem Dashboard.Pair.static {pair : Pair} (hpair : pair ∈ creations) (timed : Bool) :
    Row.Static (pair.entry timed) := by
  obtain rfl | rfl | rfl | rfl | rfl | rfl | rfl := mem_creations hpair <;> exact fun _ _ _ => rfl

/-- **Rows and receipts are in bijection along every history.** -/
theorem History.balanced (lawful : sight.Lawful) (h : History app sight L) {pair : Pair}
    (hpair : pair ∈ creations) (timed : Bool) (htimed : timed = true → pair ≠ Dashboard.routes) :
    pair.Balanced timed (L.db pair.table) (L.db .receipts) := by
  induction h with
  | empty =>
      obtain rfl | rfl | rfl | rfl | rfl | rfl | rfl := mem_creations hpair <;> exact .nil
  | @commit L ws h htransaction happ ih =>
      have hadded := htransaction.balanced lawful (h.matched lawful) happ hpair timed htimed
      have hentries := congrArg (List.filterMap id)
        (Db.map_foldl_apply (Pair.static hpair timed) ws L.db)
      simp only [List.filterMap_append, List.filterMap_map, Function.id_comp] at hentries
      rw [Pair.Balanced, Ledger.commit, show Store.apply = Db.apply from rfl, Db.receipts_foldl,
        List.filterMap_append, hentries]
      exact ih.append hadded

/-! ### Routes -/

/-- The routes beside their receipts: id, start of the transaction and assignment. -/
structure Db.Routed (db : Db) (joined : List (Uuid × Time × Time)) : Prop where
  routes : ((db .routes).map fun route => (Route.id route, Route.assignedAt route)).Perm
    (joined.map fun entry => (entry.1, entry.2.2))
  receipts : ((db .receipts).filterMap (Dashboard.routes.credit true)).Perm
    (joined.map fun entry => (entry.1, some entry.2.1))
  ordered : ∀ entry ∈ joined, entry.2.1 ≤ entry.2.2

theorem Db.Routed.step {joined : List (Uuid × Time × Time)} (h : L.db.Routed joined)
    {added : List (Uuid × Time × Time)}
    (hroutes : (inserted .routes ws).map (fun route => (Route.id route, Route.assignedAt route)) =
      added.map fun entry => (entry.1, entry.2.2))
    (hreceipts : (inserted .receipts ws).filterMap (Dashboard.routes.credit true) =
      added.map fun entry => (entry.1, some entry.2.1))
    (hordered : ∀ entry ∈ added, entry.2.1 ≤ entry.2.2) :
    (L.commit ws).db.Routed (joined ++ added) := by
  have hstatic : Row.Static (t := .routes)
      fun route : Route => (route.id, route.assignedAt) := fun _ _ _ => rfl
  refine ⟨?_, ?_, fun entry hentry => ?_⟩
  · change ((ws.foldl Db.apply L.db .routes).map _).Perm _
    rw [Db.map_foldl_apply hstatic, hroutes, List.map_append]
    exact h.routes.append_right _
  · change ((ws.foldl Db.apply L.db .receipts).filterMap _).Perm _
    rw [Db.receipts_foldl, List.filterMap_append, hreceipts, List.map_append]
    exact h.receipts.append_right _
  · rcases List.mem_append.mp hentry with hentry | hentry
    exacts [h.ordered entry hentry, hordered entry hentry]

/-- Every route is assigned after its transaction has begun. -/
theorem History.routed (lawful : sight.Lawful) (h : History app sight L) :
    ∃ joined, L.db.Routed joined := by
  induction h with
  | empty => exact ⟨[], .nil, .nil, by simp⟩
  | @commit L ws h htransaction happ ih =>
      obtain ⟨joined, hrouted⟩ := ih
      have hbalanced := htransaction.balanced lawful (h.matched lawful) happ
        (show Dashboard.routes ∈ creations by simp [creations]) false (by simp)
      by_cases hnone : inserted .routes ws = []
      · refine ⟨joined ++ [], hrouted.step (by simp [hnone]) ?_ (by simp)⟩
        have hcredits : (inserted .receipts ws).filterMap (Dashboard.routes.credit false) = [] := by
          rw [Pair.Balanced, show inserted Dashboard.routes.table ws = [] from hnone] at hbalanced
          exact hbalanced.nil_eq.symm
        rw [List.filterMap_eq_nil_iff] at hcredits
        rw [List.map_nil, List.filterMap_eq_nil_iff]
        intro receipt hreceipt
        have hcredit := hcredits receipt hreceipt
        by_cases haction : receipt.actionType = Dashboard.routes.actionType
        · rw [Pair.credit, if_pos haction] at hcredit
          cases hcredit
        · rw [Pair.credit, if_neg haction]
      · obtain ⟨event, identityId, score, hacts⟩ := htransaction.acts_of_inserts (.inr (.inr hnone))
        obtain @⟨lead, route, touch, _, _, _, now, assignedAt, _, hgrounds⟩ := hacts
        have hroute := hgrounds.routed
        have hassigned := hgrounds.assigned
        cases route with
        | updated => exact absurd (by simp [Act.writes]) hnone
        | created row =>
            have hassignedAt : Route.assignedAt row = assignedAt := by rw [hroute.2]
            refine ⟨joined ++ [(Route.id row, now, assignedAt)], hrouted.step ?_ ?_ (by simpa using hassigned)⟩
            · simp [Act.writes, hassignedAt]
            · cases lead <;> simp [Act.writes]

/-! ### Edits -/

/-- The receipt of an edit comes from an edit. -/
theorem Transaction.edits_of_receipt (h : Transaction app sight L ws) {receipt : Receipt}
    (hreceipt : receipt ∈ inserted .receipts ws) (hedited : receipt.actionType = .eventEdited) :
    ∃ model payload existing, Ingest.Edits app sight L model payload existing ws ∧
      receipt.eventId = some existing.id := by
  cases h with
  | edits h =>
      refine ⟨_, _, _, h, ?_⟩
      cases h
      simp at hreceipt
      rw [hreceipt]
  | creates h => exact absurd hedited (h.records.ne hreceipt (by decide))
  | rejects h => exact absurd hedited (h.records.ne hreceipt (by decide))
  | links h => exact absurd hedited (h.records.ne hreceipt (by decide))
  | parks h => exact absurd hedited (h.records.ne hreceipt (by decide))
  | resolves h => exact absurd hedited (h.records.ne hreceipt (by decide))
  | interprets h => exact absurd hedited (h.records.ne hreceipt (by decide))
  | scores h => exact absurd hedited (h.records.ne hreceipt (by decide))
  | acts h => exact absurd hedited (h.records.ne hreceipt (by decide))
  | deadLetters h => exact absurd hedited (h.records.ne hreceipt (by decide))
  | revives h => exact absurd hedited (h.records.ne hreceipt (by decide))
  | escalates h => exact absurd hedited (h.records.ne hreceipt (by decide))

theorem Ingest.Edits.receipt_mem {model : EventIn} {payload : Json.Fields} {existing : Event}
    (h : Ingest.Edits app sight L model payload existing ws) :
    ∃ receipt ∈ inserted .receipts ws,
      Receipt.actionType receipt = .eventEdited ∧ Receipt.eventId receipt = some existing.id := by
  cases h
  simp

/-- An edited event stays one. -/
theorem History.isEdit_since (h : History app sight L) {L₀ : Ledger Db Write}
    (hextends : Extends L₀ L) {event : Event} (hevent : event ∈ L₀.db .events)
    (hedit : event.isEdit = true) :
    ∀ current ∈ L.db .events, Event.id current = event.id → Event.isEdit current = true := by
  refine (h.since hextends (fun L => (∃ current ∈ L.db .events, Event.id current = event.id) ∧
    ∀ current ∈ L.db .events, Event.id current = event.id → Event.isEdit current = true)
    (fun h₀ => ⟨⟨event, hevent, rfl⟩, fun current hcurrent hid => ?_⟩) ?_).2
  · rwa [h₀.distinct.eq_of_id (t := .events) hcurrent hevent hid]
  · rintro L ws - htransaction happ ⟨⟨row, hrow, hid⟩, hall⟩
    have happend : ∀ new : Event, .insert .events new ∈ ws →
        (L.commit ws).db .events = L.db .events ++ [new] →
        (∃ current ∈ (L.commit ws).db .events, Event.id current = event.id) ∧
          ∀ current ∈ (L.commit ws).db .events, Event.id current = event.id →
            Event.isEdit current = true := by
      intro new hnew hrows
      rw [hrows]
      refine ⟨⟨row, List.mem_append_left _ hrow, hid⟩, fun current hcurrent hcurrentId => ?_⟩
      rcases List.mem_append.mp hcurrent with hcurrent | hcurrent
      · exact hall current hcurrent hcurrentId
      · rw [List.mem_singleton.mp hcurrent] at hcurrentId
        exact absurd (hcurrentId.trans hid.symm) (happ.id_ne (t := .events) hrow hnew)
    obtain ⟨model, payload, id, hcreates⟩ | hrejects | ⟨model, payload, existing, hedits⟩ | hsame :=
      htransaction.events
    · obtain ⟨new, hnew, hrows, -⟩ := hcreates.rows (L := L)
      exact happend new hnew hrows
    · obtain ⟨new, hnew, hrows, -⟩ := hrejects.rows (L := L)
      exact happend new hnew hrows
    · rw [hedits.rows]
      refine ⟨⟨_, Db.mem_updated.mpr ⟨row, hrow, rfl⟩, ?_⟩, fun current hcurrent hcurrentId => ?_⟩
      · split <;> exact hid
      · obtain ⟨old, hold, rfl⟩ := Db.mem_updated.mp hcurrent
        split at hcurrentId
        · simp only [Row.merge] at hcurrentId
          simp [*, Row.merge, Row.column, Ingest.edited]
        · simp [*]
    · rw [hsame]
      exact ⟨⟨row, hrow, hid⟩, hall⟩

/-- The events marked as edited are those with a receipt of an edit. -/
def Db.EditsReceipted (db : Db) : Prop :=
  ∀ id, (∃ event ∈ db .events, Event.id event = id ∧ Event.isEdit event = true) ↔
    ∃ receipt ∈ db .receipts, Receipt.actionType receipt = .eventEdited ∧
      Receipt.eventId receipt = some id

theorem Db.EditsReceipted.step (h : L.db.EditsReceipted)
    (hevents : ∀ id, (∃ event ∈ (L.commit ws).db .events, Event.id event = id ∧
      Event.isEdit event = true) ↔ ∃ event ∈ L.db .events, Event.id event = id ∧
        Event.isEdit event = true)
    (hreceipts : ∀ receipt ∈ inserted .receipts ws, Receipt.actionType receipt ≠ .eventEdited) :
    (L.commit ws).db.EditsReceipted := by
  intro id
  rw [hevents, h id]
  change _ ↔ ∃ receipt ∈ ws.foldl Db.apply L.db .receipts, _
  rw [Db.receipts_foldl]
  constructor
  · rintro ⟨receipt, hreceipt, hedited⟩
    exact ⟨receipt, List.mem_append_left _ hreceipt, hedited⟩
  · rintro ⟨receipt, hreceipt, hedited⟩
    rcases List.mem_append.mp hreceipt with hreceipt | hreceipt
    · exact ⟨receipt, hreceipt, hedited⟩
    · exact absurd hedited.1 (hreceipts receipt hreceipt)

theorem Db.EditsReceipted.edits (lawful : sight.Lawful) (hhistory : History app sight L)
    (h : L.db.EditsReceipted) {model : EventIn} {payload : Json.Fields} {existing : Event}
    (hedits : Ingest.Edits app sight L model payload existing ws) (happ : Applicable ws L.db) :
    (L.commit ws).db.EditsReceipted := by
  obtain ⟨receipt, hreceipt, haction, heventId⟩ := hedits.receipt_mem
  have hrows := hedits.rows
  obtain ⟨L₀, hextends, hmem⟩ := lawful.since _ L hedits.seen
  obtain ⟨current, hcurrent, hkept⟩ := hextends.exists_kept hmem
  have hid : Event.id current = existing.id := hkept.static (Row.static_id .events)
  -- an `UPDATE` leaves the column alone only where it was set already
  have hmerged : ∀ row ∈ L.db .events, Event.id row = existing.id → Event.isEdit (Row.merge
      (t := .events) existing (Ingest.edited app existing model payload) row) = true := by
    intro row hrow hrowId
    by_cases hedit : existing.isEdit = true
    · simpa [Row.merge, Row.column, Ingest.edited, hedit] using
        hhistory.isEdit_since hextends hmem hedit row hrow hrowId
    · simp [Row.merge, Row.column, Ingest.edited, hedit]
  intro id
  change (∃ event ∈ (L.commit ws).db .events, _) ↔ ∃ receipt ∈ ws.foldl Db.apply L.db .receipts, _
  rw [hrows, Db.receipts_foldl]
  by_cases hexistingId : id = existing.id
  · subst hexistingId
    refine iff_of_true ⟨_, Db.mem_updated.mpr ⟨current, hcurrent, rfl⟩, ?_⟩
      ⟨receipt, List.mem_append_right _ hreceipt, haction, heventId⟩
    rw [if_pos (by exact hid)]
    exact ⟨hid, hmerged current hcurrent hid⟩
  · have hevents : (∃ event ∈ Db.updated (t := .events) existing
        (Ingest.edited app existing model payload) (L.db .events), Event.id event = id ∧
          Event.isEdit event = true) ↔
        ∃ event ∈ L.db .events, Event.id event = id ∧ Event.isEdit event = true := by
      constructor
      · rintro ⟨event, hevent, heventId, hedit⟩
        obtain ⟨old, hold, rfl⟩ := Db.mem_updated.mp hevent
        by_cases hsame : Row.id (t := .events) old = Row.id (t := .events) existing
        · rw [if_pos hsame] at heventId
          exact absurd (heventId.symm.trans hsame) hexistingId
        · rw [if_neg hsame] at heventId hedit
          exact ⟨old, hold, heventId, hedit⟩
      · rintro ⟨old, hold, holdId, hedit⟩
        refine ⟨old, Db.mem_updated.mpr ⟨old, hold, ?_⟩, holdId, hedit⟩
        exact (if_neg fun hsame => hexistingId (holdId.symm.trans hsame)).symm
    rw [hevents, h id]
    constructor
    · rintro ⟨receipt, hreceipt, hedited⟩
      exact ⟨receipt, List.mem_append_left _ hreceipt, hedited⟩
    · rintro ⟨receipt', hreceipt', haction', heventId'⟩
      rcases List.mem_append.mp hreceipt' with hreceipt' | hreceipt'
      · exact ⟨receipt', hreceipt', haction', heventId'⟩
      · obtain ⟨-, -, -, -, -⟩ := hedits
        simp only [inserted_append, inserted_saved, List.nil_append, inserted_cons_insert,
          inserted_nil, List.mem_singleton] at hreceipt'
        rw [hreceipt'] at heventId'
        exact absurd (Option.some.inj heventId').symm hexistingId

theorem History.editsReceipted (lawful : sight.Lawful) (h : History app sight L) :
    L.db.EditsReceipted := by
  induction h with
  | empty => exact fun id => iff_of_false (by rintro ⟨_, h, _⟩; cases h) (by rintro ⟨_, h, _⟩; cases h)
  | @commit L ws h htransaction happ ih =>
      have hreceipts : (¬ ∃ model payload existing,
          Ingest.Edits app sight L model payload existing ws) →
          ∀ receipt ∈ inserted .receipts ws, Receipt.actionType receipt ≠ .eventEdited := by
        intro hnone receipt hreceipt hedited
        obtain ⟨model, payload, existing, hedits, -⟩ :=
          htransaction.edits_of_receipt hreceipt hedited
        exact hnone ⟨model, payload, existing, hedits⟩
      by_cases hedits : ∃ model payload existing, Ingest.Edits app sight L model payload existing ws
      · obtain ⟨model, payload, existing, hedits⟩ := hedits
        exact ih.edits lawful h hedits happ
      · refine ih.step (fun id => ?_) (hreceipts hedits)
        have happend : ∀ new : Event, new.isEdit = false →
            (L.commit ws).db .events = L.db .events ++ [new] →
            ((∃ event ∈ (L.commit ws).db .events, Event.id event = id ∧ Event.isEdit event = true) ↔
              ∃ event ∈ L.db .events, Event.id event = id ∧ Event.isEdit event = true) := by
          intro new hnew hrows
          rw [hrows]
          simp [hnew, or_and_right, exists_or]
        obtain ⟨model, payload, eventId, hcreates⟩ | hrejects | hedits' | hsame := htransaction.events
        · obtain ⟨new, -, hrows, now, rfl⟩ := hcreates.rows (L := L)
          exact happend _ rfl hrows
        · obtain ⟨new, -, hrows, -, hnew⟩ := hrejects.rows (L := L)
          exact happend new hnew hrows
        · exact absurd hedits' hedits
        · rw [hsame]

end DemandSignal
