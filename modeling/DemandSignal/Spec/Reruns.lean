import DemandSignal.Spec.Frames
import DemandSignal.Spec.Reconciliation
import DemandSignal.Txn.Interpreter
import DemandSignal.Txn.Outcomes

/-!
# Running the pipeline again

A pipeline run leaves an event's rows settled: its interpretation and its score are what the classification
gives, its identity's lead, route and touch have taken it in. A run that finds them settled moves the
deadline and the time of the touch and writes its receipts, and nothing else.
-/

namespace DemandSignal

open Txn Program

variable {app : App} {L L' : Ledger Db Write} {ws : List Write} {event : Event} {identityId : Uuid}

/-! ### What a rerun may change -/

/-- A row without the deadline of a route and the time of a touch. -/
def Row.undated : {t : Table} → Row t → Row t
  | .routes, (route : Route) => { route with slaDeadline := 0 }
  | .attributionTouches, (touch : AttributionTouch) => { touch with updatedAt := 0 }
  | .events, row | .identities, row | .identityLinks, row | .manualReviewQueue, row
  | .interpretations, row | .scores, row | .leads, row | .receipts, row | .deadLetterQueue, row => row

/-- The tables are as they were, up to the deadlines of routes and the times of touches, and receipts of
these actions have been added. -/
structure Reruns (before after : Db) (actions : List ActionType) : Prop where
  rows : ∀ t, t ≠ .receipts → (after t).map Row.undated = (before t).map Row.undated
  receipts : ∃ added, after .receipts = before .receipts ++ added ∧
    added.map Receipt.actionType = actions

theorem Reruns.trans {db db' db'' : Db} {actions actions' : List ActionType}
    (h : Reruns db db' actions) (h' : Reruns db' db'' actions') :
    Reruns db db'' (actions ++ actions') := by
  obtain ⟨added, hadded, hactions⟩ := h.receipts
  obtain ⟨added', hadded', hactions'⟩ := h'.receipts
  refine ⟨fun t ht => (h'.rows t ht).trans (h.rows t ht), added ++ added', ?_, ?_⟩
  · rw [hadded', hadded, List.append_assoc]
  · rw [List.map_append, hactions, hactions']

/-- A new receipt, or an update of what a rerun may change. -/
def Write.Slight : Write → Prop
  | .insert t _ => t = .receipts
  | .update _ loaded new => ∀ current, (Row.merge loaded new current).undated = current.undated

theorem Reruns.of_writes (h : ∀ w ∈ ws, w.Slight) :
    Reruns L.db (L.commit ws).db ((inserted .receipts ws).map Receipt.actionType) := by
  refine ⟨fun t ht => ?_, inserted .receipts ws, Db.receipts_foldl ws L.db, rfl⟩
  have hnone : inserted t ws = [] :=
    List.eq_nil_iff_forall_not_mem.mpr fun row hrow => ht (h _ (mem_inserted.mp hrow))
  have hmap : (ws.foldl Db.apply L.db t).map Row.undated = _ := Db.map_foldl_apply_of_kept
    (fun loaded new hmem => h (.update t loaded new) hmem) L.db
  rwa [hnone, List.map_nil, List.append_nil] at hmap

theorem slight_receipt (receipt : Receipt) : (Write.insert .receipts receipt).Slight := rfl

theorem slight_score (score : Score) : (Write.update .scores score score).Slight := by
  intro current
  simp [Row.merge, Row.column, Row.undated]

theorem slight_of_saved {t : Table} {loaded new : Row t} {now : Time}
    (h : (Write.update t loaded (new.stamp now)).Slight) :
    ∀ w ∈ saved t loaded new now, w.Slight := by
  intro w hw
  rw [(table_of_mem_saved hw).1]
  exact h

/-! ### One row that is settled -/

/-- An upsert on a unique column finds the row that is there. -/
theorem Upsert.By.rerun {t : Table} {β : Type} {column : Row t → β} {value : β} {u : Upsert t}
    {fresh : Uuid → Row t} {edit : Row t → Row t}
    (h : u.By still L (fun row => column row = value) fresh edit) (hdistinct : L.db.Distinct)
    (key : Key) (hkey : ∀ row : Row t, column row = value → key ∈ row.indexed) {row : Row t}
    (hrow : row ∈ L.db t) (hvalue : column row = value) : u = .updated row (edit row) := by
  cases u with
  | created new => exact absurd hvalue (h.1 row hrow)
  | updated loaded new =>
      obtain ⟨hloaded, hcolumn, rfl⟩ := h
      rw [hdistinct.eq_of_indexed hloaded hrow (hkey loaded hcolumn) (hkey row hvalue)]

namespace Interpret

theorem Classified.edit_fresh (fields : Classified) (eventId : Uuid) (now : Time) (id : Uuid) :
    fields.edit (fields.fresh eventId now id) = fields.fresh eventId now id := rfl

theorem Classified.edit_edit (fields : Classified) (row : Interpretation) :
    fields.edit (fields.edit row) = fields.edit row := rfl

/-- The interpretation is what the classification makes of it. -/
theorem Interprets.edit_eq {fields : Classified} {interpretation : Interpretation}
    (h : Interprets still L event fields interpretation ws) :
    fields.edit interpretation = interpretation := by
  obtain @⟨upsert, rid, now, -, -, hrow⟩ := h
  cases upsert with
  | created row =>
      rw [Upsert.row_created, hrow.2]
      exact fields.edit_fresh _ _ _
  | updated loaded new =>
      rw [Upsert.row_updated, hrow.2.2]
      exact fields.edit_edit _

/-- A classification that is stored already is not written again. -/
theorem Interprets.rerun {fields : Classified} {interpretation row : Interpretation}
    (h : Interprets still L event fields interpretation ws) (hdistinct : L.db.Distinct)
    (hrow : row ∈ L.db .interpretations) (heventId : row.eventId = event.id)
    (hfields : fields.edit row = row) :
    interpretation = row ∧ ∃ receipt : Receipt, ws = [.insert .receipts receipt] ∧
      receipt.actionType = .interpreted := by
  obtain @⟨upsert, rid, now, -, -, hby⟩ := h
  have hkey : ∀ row : Row .interpretations, Interpretation.eventId row = event.id →
      Key.interpretationEvent event.id ∈ Row.indexed row := by
    intro row hrow
    rw [Row.indexed, hrow]
    exact List.mem_singleton_self _
  unfold InterpretsBy at hby
  obtain rfl := Upsert.By.rerun hby hdistinct _ hkey hrow heventId
  simp only [Upsert.row_updated, Upsert.writes_updated, hfields,
    saved_self (t := .interpretations) rfl, List.nil_append]
  exact ⟨trivial, _, rfl, rfl⟩

end Interpret

namespace Scoring

theorem Scores.edit_eq {interpretation : Interpretation} {score : Score}
    (h : Scores app still L event identityId interpretation score ws) (hdistinct : L.db.Distinct) :
    ∃ columns, columnsOf app event identityId interpretation = some columns ∧
      columns.edit score = score := by
  obtain ⟨columns, now, upsert, rid, hcolumns, hby, rfl, -, -, -⟩ := h.upserted hdistinct
  refine ⟨columns, hcolumns, ?_⟩
  cases upsert with
  | created row =>
      rw [Upsert.row_created, hby.2]
      rfl
  | updated loaded new =>
      rw [Upsert.row_updated, hby.2.2]
      rfl

/-- A score that is stored already is written again as it is. -/
theorem Scores.rerun {interpretation : Interpretation} {score row : Score} {columns : Columns}
    (h : Scores app still L event identityId interpretation score ws) (hdistinct : L.db.Distinct)
    (hrow : row ∈ L.db .scores) (heventId : row.eventId = event.id)
    (hcolumns : columnsOf app event identityId interpretation = some columns)
    (hedit : columns.edit row = row) :
    score = row ∧ ∃ receipt : Receipt,
      ws = [.update .scores row row, .insert .receipts receipt] ∧ receipt.actionType = .scored := by
  obtain ⟨columns', now, upsert, rid, hcolumns', hby, rfl, -, rfl, -⟩ := h.upserted hdistinct
  obtain rfl : columns = columns' := Option.some_injective _ (hcolumns.symm.trans hcolumns')
  have hkey : ∀ row : Row .scores, Score.eventId row = event.id →
      Key.scoreEvent event.id ∈ Row.indexed row := by
    intro row hrow
    rw [Row.indexed, hrow]
    exact List.mem_singleton_self _
  unfold ScoresBy at hby
  obtain rfl := Upsert.By.rerun hby hdistinct _ hkey hrow heventId
  simp only [Upsert.row_updated, hedit, upsertWrites]
  exact ⟨trivial, _, rfl, rfl⟩

end Scoring

/-! ### A lead, a route and a touch that are settled -/

/-- The touch after an event of its identity. -/
def Attribute.takeIn (touch : AttributionTouch) (event : Event) (now : Time) : AttributionTouch :=
  if event.isEdit then editTouch touch event now else extendTouch touch event now

/-- The event has been taken in: taking it in again changes the time of the touch only. -/
def Attribute.TakenIn (touch : AttributionTouch) (event : Event) : Prop :=
  ∀ now, takeIn touch event now = { touch with updatedAt := now }

theorem Attribute.takenIn_new (event : Event) (identityId id : Uuid) (now : Time) :
    TakenIn (newTouch event identityId id now) event := by
  intro now'
  unfold takeIn
  split
  · simp [editTouch, newTouch]
  · simp [extendTouch, newTouch]

theorem Attribute.takenIn_takeIn (touch : AttributionTouch) (event : Event) (now : Time) :
    TakenIn (takeIn touch event now) event := by
  intro now'
  unfold takeIn
  split
  · by_cases hfirst : touch.firstTouchEventId = event.id <;>
      by_cases hlast : touch.lastTouchEventId = event.id <;> simp [editTouch, hfirst, hlast]
  · by_cases hfirst : event.receivedAt < touch.firstTouchAt <;>
      by_cases hlast : touch.lastTouchAt < event.receivedAt <;> simp [extendTouch, hfirst, hlast]

namespace Act

/-- The lead, the route and the touch have taken the event and its score in. -/
structure Settled (app : App) (db : Db) (event : Event) (identityId : Uuid) (score : Score)
    (lead : Lead) (route : Route) (touch : AttributionTouch) : Prop where
  lead_mem : lead ∈ db .leads
  leadIdentity : lead.identityId = identityId
  leadSource : lead.sourceEventId = event.id
  leadStatus : lead.status = .routed
  route_mem : route ∈ db .routes
  routeLead : route.leadId = lead.id
  queue : route.queue = (applyRoutingRule score.decision score.features.label app.routingRules).1
  ruleMatched : route.ruleMatched =
    (applyRoutingRule score.decision score.features.label app.routingRules).2.1
  touch_mem : touch ∈ db .attributionTouches
  touchIdentity : touch.identityId = identityId
  takenIn : Attribute.TakenIn touch event

theorem Settled.of_tables {db db' : Db} {score : Score} {lead : Lead} {route : Route}
    {touch : AttributionTouch} (h : Settled app db event identityId score lead route touch)
    (hleads : db' .leads = db .leads) (hroutes : db' .routes = db .routes)
    (htouches : db' .attributionTouches = db .attributionTouches) :
    Settled app db' event identityId score lead route touch :=
  { h with
    lead_mem := by rw [hleads]; exact h.lead_mem
    route_mem := by rw [hroutes]; exact h.route_mem
    touch_mem := by rw [htouches]; exact h.touch_mem }

theorem Acts.settled {score : Score} (h : Acts app still L event identityId (some score) ws)
    (hdistinct : L.db.Distinct) (happ : Applicable ws L.db) :
    ∃ lead route touch, Settled app (L.commit ws).db event identityId score lead route touch := by
  obtain @⟨lead, route, touch, leadRid, routeRid, touchRid, now, assignedAt, updatedAt, h⟩ := h
  obtain ⟨final, hid, hidentity, hsource, hstatus, hleads⟩ :=
    h.led.sets hdistinct happ inserts_subset.1 writes_leads
  obtain ⟨hleadId, hqueue, hrule, hroutes⟩ := h.routed.sets hdistinct writes_routes
  obtain ⟨htouchIdentity, -, htouches⟩ := h.touched.sets hdistinct writes_touches
  refine ⟨final, route.row, touch.row, hleads.new_mem, hidentity, hsource, hstatus, hroutes.new_mem,
    hleadId.trans hid.symm, hqueue, hrule, htouches.new_mem, htouchIdentity, ?_⟩
  have htouched := h.touched
  cases touch with
  | created row =>
      rw [Upsert.row_created, htouched.2]
      exact Attribute.takenIn_new _ _ _ _
  | updated loaded new =>
      rw [Upsert.row_updated, htouched.2.2]
      exact Attribute.takenIn_takeIn loaded event updatedAt

/-- Acting on an event that has been taken in moves the deadline and the time of the touch. -/
theorem Acts.rerun {score : Score} (h : Acts app still L event identityId (some score) ws)
    (hdistinct : L.db.Distinct) {lead : Lead} {route : Route} {touch : AttributionTouch}
    (hsettled : Settled app L.db event identityId score lead route touch) :
    ∃ slaDeadline updatedAt now, ∃ led routed touched : Receipt,
      ws = saved .routes route ({ route with slaDeadline } : Route) now ++
        saved .attributionTouches touch ({ touch with updatedAt } : AttributionTouch) now ++
        [.insert .receipts led, .insert .receipts routed, .insert .receipts touched] ∧
      led.actionType = .leadUpdated ∧ routed.actionType = .routeUpdated ∧
      touched.actionType = .attributedUpdated := by
  obtain @⟨lead', route', touch', leadRid, routeRid, touchRid, now, assignedAt, updatedAt, h⟩ := h
  have hled := h.led
  have hrouted := h.routed
  have htouched := h.touched
  unfold LeadsBy at hled
  unfold RoutesBy at hrouted
  unfold TouchesBy at htouched
  obtain rfl := Upsert.By.rerun hled hdistinct (.leadIdentity identityId)
    (fun row hrow => by rw [Row.indexed, hrow]; exact List.mem_singleton_self _)
    hsettled.lead_mem hsettled.leadIdentity
  have hlead : ({ lead with sourceEventId := event.id, status := .routed } : Lead) = lead := by
    rw [← hsettled.leadSource, ← hsettled.leadStatus]
  rw [hlead] at hrouted ⊢
  obtain rfl := Upsert.By.rerun hrouted hdistinct (.routeLead lead.id)
    (fun row hrow => by rw [Row.indexed, hrow]; exact List.mem_singleton_self _)
    hsettled.route_mem hsettled.routeLead
  obtain rfl := Upsert.By.rerun htouched hdistinct (.touchIdentity identityId)
    (fun row hrow => by rw [Row.indexed, hrow]; exact List.mem_singleton_self _)
    hsettled.touch_mem hsettled.touchIdentity
  have hroute : ∀ slaDeadline, ({ route with
      queue := (applyRoutingRule (decisionOf (some score)) (labelOf (some score)) app.routingRules).1
      ruleMatched :=
        (applyRoutingRule (decisionOf (some score)) (labelOf (some score)) app.routingRules).2.1
      slaDeadline } : Route) = { route with slaDeadline } := by
    intro slaDeadline
    have hqueue := hsettled.queue
    have hrule := hsettled.ruleMatched
    simp only [decisionOf, labelOf, Option.map_some, Option.getD_some, ← hqueue, ← hrule]
  have htouch : (if event.isEdit then Attribute.editTouch touch event updatedAt
      else Attribute.extendTouch touch event updatedAt) = { touch with updatedAt } :=
    hsettled.takenIn updatedAt
  have hstatus : ({ lead with status := .routed } : Lead) = lead := by
    rw [← hsettled.leadStatus]
  simp only [writes, Upsert.inserts_updated, Upsert.row_updated, Upsert.loaded, hroute, htouch,
    hstatus, saved_self (t := .leads) rfl, List.nil_append, List.append_nil]
  exact ⟨_, _, _, _, _, _, rfl, rfl, rfl, rfl⟩

end Act

/-! ### Whole runs -/

section Whole

variable {heard : List Reply} {reply : Reply} {fields : Interpret.Classified}

/-- The provider returns a classification whose confidence lies between 0 and 1. -/
def Interpret.WellFormed (app : App) (reply : Reply) : Prop :=
  ∃ result, callResult app reply = .ok result ∧
    ∃ n, confidence app result.1 = .hundredths n ∧ 0 ≤ n ∧ n ≤ 100

/-- The event's text can be read, and the database takes what is made of it. -/
def Interpret.Processable (app : App) (event : Event) (reply : Reply) : Prop :=
  ∃ text, extractText event = some text ∧ (countTokens text < app.interpretMinTokens ∨
    ∃ result, callResult app reply = .ok result ∧ (classified app result).storable = true)

namespace Interpret

theorem WellFormed.not_exhausted (h : WellFormed app reply) (hheard : ∀ a ∈ heard, a = reply)
    {error : CallError} : ¬ Exhausted app event heard error := by
  rintro ⟨-, -, hlast, hanswer⟩
  obtain ⟨result, hresult, -⟩ := h
  rw [hheard _ (List.mem_of_getLast? hlast), hresult] at hanswer
  cases hanswer

/-- One reply makes one thing of an event. -/
theorem Classification.unique {heard' : List Reply} {fields' : Classified}
    (h : Classification app event heard fields) (hheard : ∀ a ∈ heard, a = reply)
    (h' : Classification app event heard' fields') (hheard' : ∀ a ∈ heard', a = reply) :
    fields = fields' := by
  cases h with
  | skipped htext hshort =>
      cases h' with
      | skipped htext' => rw [Option.some_injective _ (htext.symm.trans htext')]
      | classified htext' hlong =>
          rw [Option.some_injective _ (htext.symm.trans htext')] at hshort
          exact absurd hshort hlong
  | classified htext hlong hlast hanswer =>
      cases h' with
      | skipped htext' hshort =>
          rw [Option.some_injective _ (htext.symm.trans htext')] at hlong
          exact absurd hshort hlong
      | classified _ _ hlast' hanswer' =>
          rw [hheard _ (List.mem_of_getLast? hlast)] at hanswer
          rw [hheard' _ (List.mem_of_getLast? hlast'), hanswer] at hanswer'
          cases hanswer'
          rfl

theorem Classification.storable (h : Classification app event heard fields)
    (hheard : ∀ a ∈ heard, a = reply) (hproc : Processable app event reply) :
    fields.storable = true := by
  obtain ⟨text, htext, hshort | ⟨result, hresult, hstorable⟩⟩ := hproc
  · cases h with
    | skipped => exact storable_skipped _
    | classified htext' hlong =>
        rw [Option.some_injective _ (htext.symm.trans htext')] at hshort
        exact absurd hshort hlong
  · cases h with
    | skipped => exact storable_skipped _
    | classified _ _ hlast hanswer =>
        rw [hheard _ (List.mem_of_getLast? hlast), hresult] at hanswer
        cases hanswer
        exact hstorable

theorem Classification.processable (h : Classification app event heard fields)
    (hheard : ∀ a ∈ heard, a = reply) (hstorable : fields.storable = true) :
    Processable app event reply := by
  cases h with
  | skipped htext hshort => exact ⟨_, htext, .inl hshort⟩
  | classified htext hlong hlast hanswer =>
      refine ⟨_, htext, .inr ⟨_, ?_, hstorable⟩⟩
      rwa [← hheard _ (List.mem_of_getLast? hlast)]

/-- What a well-formed reply makes of an event can be scored. -/
theorem Classification.scorable (h : Classification app event heard fields)
    (hheard : ∀ a ∈ heard, a = reply) (hreply : WellFormed app reply) :
    Scoring.scorable app.scoringPolicy fields.label fields.confidence = true := by
  cases h with
  | skipped => exact Scoring.scorable_hundredths _ _ 0
  | classified _ _ hlast hanswer =>
      obtain ⟨result, hresult, n, hconfidence, -⟩ := hreply
      rw [hheard _ (List.mem_of_getLast? hlast), hresult] at hanswer
      cases hanswer
      change Scoring.scorable _ _ (confidence app _) = true
      rw [hconfidence]
      exact Scoring.scorable_hundredths _ _ n

end Interpret

/-- The rows of an event and its identity are what a run with these fields makes of them. -/
structure Processed (app : App) (db : Db) (event : Event) (identityId : Uuid)
    (fields : Interpret.Classified) (interpretation : Interpretation) (score : Score) (lead : Lead)
    (route : Route) (touch : AttributionTouch) : Prop extends
    Act.Settled app db event identityId score lead route touch where
  interpretation_mem : interpretation ∈ db .interpretations
  interpretationEvent : interpretation.eventId = event.id
  fields_edit : fields.edit interpretation = interpretation
  score_mem : score ∈ db .scores
  scoreEvent : score.eventId = event.id
  columns_edit : ∃ columns, Scoring.columnsOf app event identityId interpretation = some columns ∧
    columns.edit score = score

theorem Processed.of_piped {outcome : Pipeline.Outcome}
    (h : Piped app L event identityId heard (.ok (some outcome)) L') (hdistinct : L.db.Distinct) :
    ∃ fields interpretation score lead route touch,
      Interpret.Classification app event heard fields ∧
        Processed app L'.db event identityId fields interpretation score lead route touch := by
  cases h with
  | @acted ws₁ ws₂ ws₃ fields interpretation current score _ hfields hinterprets happ₁ hcurrent heventId
      hscores happ₂ hacts happ₃ =>
      have hdistinct₁ : (L.commit ws₁).db.Distinct := hdistinct.foldl happ₁
      have hdistinct₂ : ((L.commit ws₁).commit ws₂).db.Distinct := hdistinct₁.foldl happ₂
      obtain ⟨hinterpretation, -, -, hsets⟩ := hinterprets.sets hdistinct
      obtain rfl : current = interpretation :=
        hsets.eq_new hcurrent (heventId.trans hinterpretation.symm)
      obtain ⟨hscoreEvent, hscoreSets⟩ := hscores.sets hdistinct₁
      obtain ⟨lead, route, touch, hsettled⟩ := hacts.acts.settled hdistinct₂ happ₃
      refine ⟨fields, current, score, lead, route, touch, hfields, hsettled, ?_, heventId,
        hinterprets.edit_eq, ?_, hscoreEvent, hscores.edit_eq hdistinct₁⟩
      · rw [commit_of_untouched (hacts.acts.tables.ne (by decide)),
          commit_of_untouched (hscores.tables.ne (by decide))]
        exact hcurrent
      · rw [commit_of_untouched (hacts.acts.tables.ne (by decide))]
        exact hscoreSets.new_mem

/-- A run that finds its rows as it would leave them. -/
theorem Processed.rerun {interpretation : Interpretation} {score : Score} {lead : Lead} {route : Route}
    {touch : AttributionTouch} {outcome : Pipeline.Outcome}
    (hprocessed : Processed app L.db event identityId fields interpretation score lead route touch)
    (hfields : ∀ fields', Interpret.Classification app event heard fields' → fields' = fields)
    (h : Piped app L event identityId heard (.ok (some outcome)) L') (hdistinct : L.db.Distinct) :
    Reruns L.db L'.db
      [.interpreted, .scored, .leadUpdated, .routeUpdated, .attributedUpdated] := by
  cases h with
  | @acted ws₁ ws₂ ws₃ fields' interpretation' current score' _ hfields' hinterprets happ₁ hcurrent
      heventId hscores happ₂ hacts happ₃ =>
      obtain rfl := hfields fields' hfields'
      have hdistinct₁ : (L.commit ws₁).db.Distinct := hdistinct.foldl happ₁
      have hdistinct₂ : ((L.commit ws₁).commit ws₂).db.Distinct := hdistinct₁.foldl happ₂
      obtain ⟨-, interpreted, hws₁, haction₁⟩ := hinterprets.rerun hdistinct
        hprocessed.interpretation_mem hprocessed.interpretationEvent hprocessed.fields_edit
      have hkept₁ : ∀ t, t ≠ .receipts → (L.commit ws₁).db t = L.db t := by
        rw [hws₁]
        exact fun t ht => commit_of_untouched (by simpa [Write.table] using ht.symm)
      rw [hkept₁ _ (by decide)] at hcurrent
      obtain rfl : current = interpretation :=
        hdistinct.eq_of_indexed (t := .interpretations) hcurrent hprocessed.interpretation_mem
          (List.mem_singleton_self _)
          (by rw [heventId, ← hprocessed.interpretationEvent]; exact List.mem_singleton_self _)
      obtain ⟨columns, hcolumns, hedit⟩ := hprocessed.columns_edit
      obtain ⟨rfl, scored, hws₂, haction₂⟩ := hscores.rerun hdistinct₁
        (by rw [hkept₁ _ (by decide)]; exact hprocessed.score_mem) hprocessed.scoreEvent hcolumns hedit
      have hkept₂ : ∀ t, t ≠ .receipts → t ≠ .scores → ((L.commit ws₁).commit ws₂).db t = L.db t := by
        intro t ht hscores
        rw [← hkept₁ t ht, hws₂]
        exact commit_of_untouched (by simp [Write.table, ht.symm, hscores.symm])
      obtain ⟨slaDeadline, updatedAt, now, led, routed, touched, hws₃, haction₃, haction₄, haction₅⟩ :=
        hacts.acts.rerun hdistinct₂ (hprocessed.toSettled.of_tables (hkept₂ _ (by decide) (by decide))
          (hkept₂ _ (by decide) (by decide)) (hkept₂ _ (by decide) (by decide)))
      have h₁ : Reruns L.db (L.commit ws₁).db [.interpreted] := by
        have hslight : ∀ w ∈ ws₁, w.Slight := by simp [hws₁, slight_receipt]
        have hreruns := Reruns.of_writes (L := L) hslight
        simpa [hws₁, haction₁] using hreruns
      have h₂ : Reruns (L.commit ws₁).db ((L.commit ws₁).commit ws₂).db [.scored] := by
        have hslight : ∀ w ∈ ws₂, w.Slight := by simp [hws₂, slight_receipt, slight_score]
        have hreruns := Reruns.of_writes (L := L.commit ws₁) hslight
        simpa [hws₂, haction₂] using hreruns
      have h₃ : Reruns ((L.commit ws₁).commit ws₂).db (((L.commit ws₁).commit ws₂).commit ws₃).db
          [.leadUpdated, .routeUpdated, .attributedUpdated] := by
        have hslight : ∀ w ∈ ws₃, w.Slight := by
          rw [hws₃]
          simp only [List.forall_mem_append, List.forall_mem_cons, slight_receipt]
          refine ⟨⟨slight_of_saved fun current => ?_, slight_of_saved fun current => ?_⟩, by simp⟩
          · simp [Row.merge, Row.column, Row.undated, Row.stamp]
          · simp [Row.merge, Row.column, Row.undated, Row.stamp]
        have hreruns := Reruns.of_writes (L := (L.commit ws₁).commit ws₂) hslight
        simpa [hws₃, haction₃, haction₄, haction₅] using hreruns
      exact (h₁.trans h₂).trans h₃

/-- With a well-formed reply the pipeline acts, unless the event is not processable: then it raises
before it has written anything. -/
theorem Piped.told {r : Except Error (Option Pipeline.Outcome)}
    (h : Piped app L event identityId heard r L') (hdistinct : L.db.Distinct)
    (hheard : ∀ a ∈ heard, a = reply) (hreply : Interpret.WellFormed app reply) :
    (∃ outcome, r = .ok (some outcome)) ∧ Interpret.Processable app event reply ∨
      L' = L ∧ ¬ Interpret.Processable app event reply := by
  cases h with
  | acted hfields hinterprets =>
      obtain ⟨-, hstorable, -⟩ := hinterprets
      exact .inl ⟨⟨_, rfl⟩, hfields.processable hheard hstorable⟩
  | dead herror => exact absurd herror (hreply.not_exhausted hheard)
  | alreadyDead herror => exact absurd herror (hreply.not_exhausted hheard)
  | noText htext =>
      refine .inr ⟨rfl, ?_⟩
      rintro ⟨text, htext', -⟩
      rw [htext] at htext'
      cases htext'
  | unstorable hfields hunstorable =>
      refine .inr ⟨rfl, fun hproc => ?_⟩
      rw [hfields.storable hheard hproc] at hunstorable
      cases hunstorable
  | badMessage herror => exact absurd herror (hreply.not_exhausted hheard)
  | noScore hfields hinterprets happ hcurrent heventId hscore =>
      obtain ⟨hevent, hlabel, hconfidence, hsets⟩ := hinterprets.sets hdistinct
      have hscorable := hfields.scorable hheard hreply
      rw [hsets.eq_new hcurrent (heventId.trans hevent.symm), hlabel, hconfidence] at hscore
      rw [← Scoring.isSome_computeScore, hscore] at hscorable
      cases hscorable

namespace Pipeline

/-- A pipeline run of a linked event, with nobody else around. -/
theorem piped_of_runs {setting : Setting Db Write Key Question Reply} {s : Session Write Reply}
    {r : Except Error (Option Outcome)} (hevent : event ∈ L.db .events)
    (hlinked : Resolve.Linked event.id identityId L.db)
    (hrun : Runs setting {} L (runDownstream app event identityId) r s L') :
    Piped app L event identityId s.replies r L' := by
  have howes : ∀ T, Owes (alone setting.Answers fun _ _ => True) ({} : Session Write Reply) T :=
    fun _ _ _ _ _ _ => trivial
  refine hrun.of_wp (fun r s L' => Piped app L event identityId s.replies r L') ?_
  refine wp_runDownstream fair_alone rfl hevent (.inr hlinked) (fun _ _ => howes _) (howes _)
    (fun _ _ => howes _) (fun _ => howes _) fun r s L' hends => ?_
  obtain ⟨heard, hreplies, hpiped⟩ := hends.piped
  rwa [hreplies, List.nil_append]

/-- A provider with one reply. -/
def answering (reply : Reply) : Setting Db Write Key Question Reply where
  Answers _ a := a = reply

theorem exists_answered (reply : Reply) (p : Prog (Option Outcome)) (L : Ledger Db Write) :
    ∃ r s L', Runs (answering reply) {} L p r s L' :=
  exists_run (fun _ => id) (fun _ => id) (fun _ _ _ => trivial) (fun _ => ⟨reply, rfl⟩) p {} L

theorem answered {r : Except Error (Option Outcome)} {p : Prog (Option Outcome)}
    {s : Session Write Reply} (hrun : Runs (answering reply) {} L p r s L') :
    ∀ a ∈ s.replies, a = reply := by
  intro a ha
  rcases hrun.heard a ha with hold | ⟨_, hanswer⟩
  exacts [absurd hold List.not_mem_nil, hanswer]

/-- Of any two runs in a row, with one reply to both, the second is a rerun. -/
def Idempotent (app : App) (reply : Reply) (L : Ledger Db Write) (event : Event)
    (identityId : Uuid) : Prop :=
  ∀ first s₁ L₁ second s₂ L₂,
    Runs (answering reply) {} L (runDownstream app event identityId) first s₁ L₁ →
    Runs (answering reply) {} L₁ (runDownstream app event identityId) second s₂ L₂ →
    Reruns L₁.db L₂.db [.interpreted, .scored, .leadUpdated, .routeUpdated, .attributedUpdated]

theorem idempotent_iff (hdistinct : L.db.Distinct) (hevent : event ∈ L.db .events)
    (hlinked : Resolve.Linked event.id identityId L.db) (hreply : Interpret.WellFormed app reply) :
    Idempotent app reply L event identityId ↔ Interpret.Processable app event reply := by
  constructor
  · intro hidempotent
    obtain ⟨first, s₁, L₁, hfirst⟩ := exists_answered reply (runDownstream app event identityId) L
    obtain ⟨second, s₂, L₂, hsecond⟩ := exists_answered reply (runDownstream app event identityId) L₁
    by_contra hnot
    rcases (piped_of_runs hevent hlinked hfirst).told hdistinct (answered hfirst) hreply with
      ⟨-, hproc⟩ | ⟨rfl, -⟩
    · exact hnot hproc
    rcases (piped_of_runs hevent hlinked hsecond).told hdistinct (answered hsecond) hreply with
      ⟨-, hproc⟩ | ⟨rfl, -⟩
    · exact hnot hproc
    -- neither run has left a receipt
    obtain ⟨added, hadded, hactions⟩ := (hidempotent _ _ _ _ _ _ hfirst hsecond).receipts
    rw [List.self_eq_append_right.mp hadded] at hactions
    cases hactions
  · intro hproc first s₁ L₁ second s₂ L₂ hfirst hsecond
    have hpiped₁ := piped_of_runs hevent hlinked hfirst
    obtain ⟨⟨outcome₁, rfl⟩, -⟩ | ⟨-, hnot⟩ := hpiped₁.told hdistinct (answered hfirst) hreply
    case inr => exact absurd hproc hnot
    have hdistinct₁ := hpiped₁.distinct hdistinct
    have hevent₁ : event ∈ L₁.db .events := by
      rwa [hpiped₁.untouched (by decide)]
    have hlinked₁ : Resolve.Linked event.id identityId L₁.db := by
      unfold Resolve.Linked
      rwa [hpiped₁.untouched (by decide)]
    have hpiped₂ := piped_of_runs hevent₁ hlinked₁ hsecond
    obtain ⟨⟨outcome₂, rfl⟩, -⟩ | ⟨-, hnot⟩ := hpiped₂.told hdistinct₁ (answered hsecond) hreply
    case inr => exact absurd hproc hnot
    obtain ⟨fields, interpretation, score, lead, route, touch, hfields, hprocessed⟩ :=
      Processed.of_piped hpiped₁ hdistinct
    exact hprocessed.rerun
      (fun _ hfields' => hfields'.unique (answered hsecond) hfields (answered hfirst)) hpiped₂ hdistinct₁

end Pipeline

end Whole

end DemandSignal
