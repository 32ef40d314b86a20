import DemandSignal.Spec.Reconciliation

/-!
# Rows that are marked

A route is marked when it is escalated and a dead letter when it is resolved; each mark has a receipt.
A transaction that marks a row which is marked already writes a second receipt, so marks and receipts
agree along the histories whose transactions find the rows they mark unmarked.
-/

namespace DemandSignal

open Txn

structure Marker where
  table : Table
  mark : Row table → Bool
  actionType : ActionType

variable {app : App} {sight : Sight} {L : Ledger Db Write} {ws : List Write}

namespace Marker

variable {marker : Marker}

def credits (marker : Marker) (receipts : List Receipt) (id : Uuid) : Nat :=
  (receipts.filter fun receipt =>
    receipt.actionType = marker.actionType && receipt.entityId = id).length

/-- Marked rows have one receipt of the mark, the others none. -/
structure Settled (marker : Marker) (db : Db) : Prop where
  credit : ∀ row ∈ db marker.table,
    marker.credits (db .receipts) row.id = if marker.mark row then 1 else 0
  entity : ∀ receipt ∈ db .receipts, Receipt.actionType receipt = marker.actionType →
    db.Has marker.table (Receipt.entityId receipt)

/-- The writes mark only rows that are unmarked in the database. -/
def Fresh (marker : Marker) (db : Db) (ws : List Write) : Prop :=
  ∀ loaded new, .update marker.table loaded new ∈ ws → marker.mark loaded = false →
    marker.mark new = true → ∀ current ∈ db marker.table, current.id = loaded.id →
      marker.mark current = false

instance (marker : Marker) (db : Db) (ws : List Write) : Decidable (marker.Fresh db ws) :=
  decidable_of_iff (∀ p ∈ updates marker.table ws, marker.mark p.1 = false →
      marker.mark p.2 = true → ∀ current ∈ db marker.table, current.id = p.1.id →
        marker.mark current = false)
    ⟨fun h loaded new hmem => h (loaded, new) (mem_updates.mpr hmem),
      fun h p hp => h p.1 p.2 (mem_updates.mp hp)⟩

theorem credits_append_of_ne {receipts added : List Receipt}
    (h : ∀ receipt ∈ added, receipt.actionType ≠ marker.actionType) (id : Uuid) :
    marker.credits (receipts ++ added) id = marker.credits receipts id := by
  have hnone : (added.filter fun receipt =>
      receipt.actionType = marker.actionType && receipt.entityId = id) = [] :=
    List.filter_eq_nil_iff.mpr fun receipt hreceipt => by simp [h receipt hreceipt]
  rw [credits, List.filter_append, hnone, List.append_nil, credits]

theorem credits_eq_zero {receipts : List Receipt} {id : Uuid}
    (h : ∀ receipt ∈ receipts, receipt.actionType = marker.actionType → receipt.entityId ≠ id) :
    marker.credits receipts id = 0 := by
  rw [credits, List.length_eq_zero_iff, List.filter_eq_nil_iff]
  intro receipt hreceipt hp
  simp only [Bool.and_eq_true, decide_eq_true_eq] at hp
  exact h receipt hreceipt hp.1 hp.2

/-- A transaction that marks nothing and writes no receipt of a mark. -/
theorem Settled.neutral (h : marker.Settled L.db) (happ : Applicable ws L.db)
    (hnew : ∀ row ∈ inserted marker.table ws, marker.mark row = false)
    (hkeep : ∀ loaded new, .update marker.table loaded new ∈ ws → ∀ current,
      marker.mark (Row.merge loaded new current) = marker.mark current)
    (hreceipts : ∀ receipt ∈ inserted .receipts ws, Receipt.actionType receipt ≠ marker.actionType) :
    marker.Settled (L.commit ws).db := by
  have hreceipts' : (L.commit ws).db .receipts = L.db .receipts ++ inserted .receipts ws :=
    Db.receipts_foldl ws L.db
  have hrows : ((L.commit ws).db marker.table).map (fun row => (row.id, marker.mark row)) =
      (L.db marker.table).map (fun row => (row.id, marker.mark row)) ++
        (inserted marker.table ws).map fun row => (row.id, marker.mark row) := by
    refine Db.map_foldl_apply_of_kept (fun loaded new hmem current => ?_) L.db
    rw [Row.id_merge, hkeep loaded new hmem]
  constructor
  · intro row hrow
    rw [hreceipts', credits_append_of_ne hreceipts]
    have hmem : (row.id, marker.mark row) ∈
        ((L.commit ws).db marker.table).map fun row => (row.id, marker.mark row) :=
      List.mem_map_of_mem hrow
    rw [hrows, List.mem_append, List.mem_map, List.mem_map] at hmem
    rcases hmem with ⟨old, hold, heq⟩ | ⟨added, hadded, heq⟩
    · simp only [Prod.mk.injEq] at heq
      rw [← heq.1, ← heq.2]
      exact h.credit old hold
    · simp only [Prod.mk.injEq] at heq
      rw [← heq.1, ← heq.2, hnew added hadded, if_neg (by simp)]
      refine credits_eq_zero fun receipt hreceipt haction hentity => ?_
      obtain ⟨named, hnamed, hid⟩ := h.entity receipt hreceipt haction
      exact happ.id_ne hnamed (mem_inserted.mp hadded) (hentity.symm.trans hid.symm)
  · intro receipt hreceipt haction
    rw [hreceipts', List.mem_append] at hreceipt
    rcases hreceipt with hreceipt | hreceipt
    · exact (h.entity receipt hreceipt haction).foldl ws
    · exact absurd haction (hreceipts receipt hreceipt)

/-- An unmarked row is marked, with the receipt. -/
theorem Settled.raise {db : Db} (h : marker.Settled db) (htable : marker.table ≠ .receipts)
    {loaded new : Row marker.table} {receipt : Receipt} (hhas : db.Has marker.table loaded.id)
    (hmark : ∀ current ∈ db marker.table, current.id = loaded.id → marker.mark current = false ∧
      marker.mark (Row.merge loaded new current) = true)
    (haction : receipt.actionType = marker.actionType) (hentity : receipt.entityId = loaded.id) :
    marker.Settled
      ((db.apply (.update marker.table loaded new)).apply (.insert .receipts receipt)) := by
  have hrows : ((db.apply (.update marker.table loaded new)).apply (.insert .receipts receipt))
      marker.table = Db.updated loaded new (db marker.table) := by
    rw [Db.apply_of_ne _ (Ne.symm htable), Db.apply_update_self]
  have hreceipts : ((db.apply (.update marker.table loaded new)).apply (.insert .receipts receipt))
      .receipts = db .receipts ++ [receipt] := by
    rw [Db.apply_insert_self, Db.apply_of_ne (w := .update marker.table loaded new) _ htable]
  constructor
  · intro row hrow
    rw [hrows, Db.mem_updated] at hrow
    obtain ⟨current, hcurrent, rfl⟩ := hrow
    have hcredit := h.credit current hcurrent
    rw [hreceipts]
    by_cases hid : current.id = loaded.id
    · obtain ⟨hunmarked, hmarked⟩ := hmark current hcurrent hid
      rw [hunmarked, if_neg (by simp), hid] at hcredit
      rw [if_pos hid, Row.id_merge, hmarked, if_pos rfl, hid, credits, List.filter_append,
        List.length_append, ← credits, hcredit]
      simp [haction, hentity]
    · rw [if_neg hid, ← hcredit, credits, credits, List.filter_append, List.length_append]
      simp [hentity, Ne.symm hid]
  · intro other hother haction'
    have hrowHas : ∀ u, db.Has marker.table u →
        ((db.apply (.update marker.table loaded new)).apply (.insert .receipts receipt)).Has
          marker.table u :=
      fun u hu => Db.Has.foldl hu [.update marker.table loaded new, .insert .receipts receipt]
    rw [hreceipts, List.mem_append, List.mem_singleton] at hother
    rcases hother with hother | rfl
    · exact hrowHas _ (h.entity other hother haction')
    · rw [hentity]
      exact hrowHas _ hhas

/-- The writes leave the table of the marks alone. -/
theorem Settled.of_names {ts : List Table} {actions : List ActionType} (h : marker.Settled L.db)
    (happ : Applicable ws L.db) (htables : Names ws ts) (hrecords : Records ws actions)
    (htable : marker.table ∉ ts) (haction : marker.actionType ∉ actions) :
    marker.Settled (L.commit ws).db := by
  refine h.neutral happ (fun row hrow => ?_) (fun loaded new hmem => ?_) fun receipt hreceipt =>
    hrecords.ne hreceipt haction
  · exact absurd rfl (htables.ne htable _ (mem_inserted.mp hrow))
  · exact absurd rfl (htables.ne htable _ hmem)

end Marker

/-! ### Escalated routes and resolved dead letters -/

def escalations : Marker := ⟨.routes, Route.escalated, .escalated⟩

def revivals : Marker := ⟨.deadLetterQueue, DeadLetterQueue.resolved, .deadLetterResolved⟩

attribute [local simp] escalations revivals

/-- A lead's route is assigned anew without a change of its flag. -/
theorem Act.Acts.escalations_settled {event : Event} {identityId : Uuid} {score : Option Score}
    (h : Act.Acts app sight L event identityId score ws) (happ : Applicable ws L.db)
    (hsettled : escalations.Settled L.db) : escalations.Settled (L.commit ws).db := by
  have hrecords := h.records
  obtain @⟨lead, route, touch, leadRid, routeRid, touchRid, now, assignedAt, _, h⟩ := h
  have hrouted := h.routed
  have hwrites : ∀ w ∈ Act.writes event identityId (Act.decisionOf score) lead route touch leadRid
      routeRid touchRid now, w.table = .routes → w ∈ route.writes now := by
    intro w hw htable
    rw [← Act.writes_routes]
    exact List.mem_filter.mpr ⟨hw, decide_eq_true htable⟩
  refine hsettled.neutral happ (fun row hrow => ?_) (fun loaded new hmem current => ?_)
    fun receipt hreceipt => hrecords.ne hreceipt (by simp)
  · obtain ⟨row', rfl, heq⟩ | ⟨_, _, _, _, heq⟩ :=
      Upsert.mem_writes (hwrites _ (mem_inserted.mp hrow) rfl)
    · cases heq
      change Route.escalated row = false
      rw [hrouted.2]
    · cases heq
  · obtain ⟨_, _, heq⟩ | ⟨loaded', new', rfl, _, heq⟩ := Upsert.mem_writes (hwrites _ hmem rfl)
    · cases heq
    · cases heq
      obtain ⟨-, -, rfl⟩ := hrouted
      simp [Row.merge, Row.column, Row.stamp]

/-- A reader flags each route once. -/
theorem Escalation.Escalates.settled (lawful : sight.Lawful)
    (h : Escalation.Escalates sight L ws) (hsettled : escalations.Settled L.db)
    (hfresh : escalations.Fresh L.db ws) : escalations.Settled (L.commit ws).db := by
  change escalations.Settled (ws.foldl Db.apply L.db)
  induction h with
  | nil => exact hsettled
  | @snoc ws route identityId detectedAt rid now h hroute hopen hnew ih =>
      have hsettled := ih fun loaded new hmem => hfresh loaded new (List.mem_append_left _ hmem)
      obtain ⟨current, hcurrent, hkept⟩ := lawful.kept hroute
      have hhas : (ws.foldl Db.apply L.db).Has .routes route.id :=
        Db.Has.foldl ⟨current, hcurrent, hkept.static (Row.static_id .routes)⟩ ws
      rw [List.foldl_append, List.foldl_cons, List.foldl_cons, List.foldl_nil]
      refine hsettled.raise (by decide) hhas (fun current hcurrent hid => ?_) rfl rfl
      have hmem : current ∈ L.db .routes := Db.mem_of_mem_foldl_apply hcurrent
        fun w hw htable heq => hnew w hw htable (heq.trans hid)
      have hclear : Route.escalated current = false :=
        hfresh route _ (List.mem_append_right _ (List.mem_cons_self ..)) hopen rfl current hmem hid
      exact ⟨hclear, by simp [Row.merge, Row.column, hopen]⟩

theorem Interpret.DeadLetters.revivals_settled {event : Event}
    (h : Interpret.DeadLetters sight L event ws) (happ : Applicable ws L.db)
    (hsettled : revivals.Settled L.db) : revivals.Settled (L.commit ws).db := by
  have hrecords := h.records
  obtain @⟨dlq, _, _, _, _, _, _, _, hopen, _⟩ := h
  refine hsettled.neutral happ (fun row hrow => ?_) (fun loaded new hmem => ?_)
    fun receipt hreceipt => hrecords.ne hreceipt (by simp)
  · rw [mem_inserted, List.mem_cons, List.mem_singleton] at hrow
    rcases hrow with heq | heq
    · cases heq
      exact hopen
    · cases heq
  · simp at hmem

theorem Interpret.Revives.settled (lawful : sight.Lawful) {eventId identityId : Uuid}
    (h : Interpret.Revives sight L eventId identityId ws) (hsettled : revivals.Settled L.db)
    (hfresh : revivals.Fresh L.db ws) : revivals.Settled (L.commit ws).db := by
  obtain @⟨dlq, _, _, now, hdlq, -, hopen⟩ := h
  have hne : ({ dlq with resolved := true } : DeadLetterQueue) ≠ dlq := by
    intro heq
    rw [← heq] at hopen
    cases hopen
  rw [saved_of_ne (t := .deadLetterQueue) hne] at hfresh ⊢
  obtain ⟨current, hcurrent, hkept⟩ := lawful.kept hdlq
  refine hsettled.raise (by decide)
    ⟨current, hcurrent, hkept.static (Row.static_id .deadLetterQueue)⟩
    (fun current hcurrent hid => ?_) rfl rfl
  have hclear : DeadLetterQueue.resolved current = false :=
    hfresh dlq _ (List.mem_cons_self ..) hopen rfl current hcurrent hid
  exact ⟨hclear, by simp [Row.merge, Row.column, Row.stamp, hopen]⟩

theorem Transaction.escalations_settled (lawful : sight.Lawful) (h : Transaction app sight L ws)
    (happ : Applicable ws L.db) (hsettled : escalations.Settled L.db)
    (hfresh : escalations.Fresh L.db ws) : escalations.Settled (L.commit ws).db := by
  cases h with
  | creates h => exact hsettled.of_names happ h.tables h.records (by decide) (by decide)
  | edits h => exact hsettled.of_names happ h.tables h.records (by decide) (by decide)
  | rejects h => exact hsettled.of_names happ h.tables h.records (by decide) (by decide)
  | links h => exact hsettled.of_names happ h.tables h.records (by decide) (by decide)
  | parks h => exact hsettled.of_names happ h.tables h.records (by decide) (by decide)
  | resolves h => exact hsettled.of_names happ h.tables h.records (by decide) (by decide)
  | interprets h => exact hsettled.of_names happ h.tables h.records (by decide) (by decide)
  | scores h => exact hsettled.of_names happ h.tables h.records (by decide) (by decide)
  | acts h => exact h.escalations_settled happ hsettled
  | deadLetters h => exact hsettled.of_names happ h.tables h.records (by decide) (by decide)
  | revives h => exact hsettled.of_names happ h.tables h.records (by decide) (by decide)
  | escalates h => exact h.settled lawful hsettled hfresh

theorem Transaction.revivals_settled (lawful : sight.Lawful) (h : Transaction app sight L ws)
    (happ : Applicable ws L.db) (hsettled : revivals.Settled L.db)
    (hfresh : revivals.Fresh L.db ws) : revivals.Settled (L.commit ws).db := by
  cases h with
  | creates h => exact hsettled.of_names happ h.tables h.records (by decide) (by decide)
  | edits h => exact hsettled.of_names happ h.tables h.records (by decide) (by decide)
  | rejects h => exact hsettled.of_names happ h.tables h.records (by decide) (by decide)
  | links h => exact hsettled.of_names happ h.tables h.records (by decide) (by decide)
  | parks h => exact hsettled.of_names happ h.tables h.records (by decide) (by decide)
  | resolves h => exact hsettled.of_names happ h.tables h.records (by decide) (by decide)
  | interprets h => exact hsettled.of_names happ h.tables h.records (by decide) (by decide)
  | scores h => exact hsettled.of_names happ h.tables h.records (by decide) (by decide)
  | acts h => exact hsettled.of_names happ h.tables h.records (by decide) (by decide)
  | deadLetters h => exact h.revivals_settled happ hsettled
  | revives h => exact h.settled lawful hsettled hfresh
  | escalates h => exact hsettled.of_names happ h.tables h.records (by decide) (by decide)

/-- Marks and receipts agree along the histories whose transactions mark unmarked rows only. -/
theorem Marker.settled_of_log {marker : Marker}
    (hstep : ∀ {L ws}, Transaction app sight L ws → Applicable ws L.db → marker.Settled L.db →
      marker.Fresh L.db ws → marker.Settled (L.commit ws).db) (h : History app sight L)
    (hlog : ∀ commit ∈ L.log, marker.Fresh commit.before commit.writes) : marker.Settled L.db := by
  induction h with
  | empty =>
      refine ⟨fun row hrow => ?_, fun receipt hreceipt => ?_⟩
      · obtain ⟨table, _, _⟩ := marker
        cases table <;> exact absurd hrow List.not_mem_nil
      · exact absurd hreceipt List.not_mem_nil
  | @commit L ws _ htransaction happ ih =>
      have hlast : marker.Fresh L.db ws :=
        hlog ⟨L.db, ws⟩ (List.mem_append_right _ (List.mem_singleton_self _))
      exact hstep htransaction happ
        (ih fun commit hcommit => hlog commit (List.mem_append_left _ hcommit)) hlast

end DemandSignal
