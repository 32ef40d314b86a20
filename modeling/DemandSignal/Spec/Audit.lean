import DemandSignal.Spec.Marks
import DemandSignal.Spec.Rulings
import Mathlib.Data.List.Dedup

/-!
# Worklists in the audit trail

An entry of a worklist is opened with one receipt and closed with another. So the receipts alone tell
how many entries are open, even where an entry has been closed twice.
-/

namespace DemandSignal

open Txn

/-- A worklist: the action that opens an entry, and the mark and the action of a closed one. -/
structure Docket extends Marker where
  opens : ActionType

variable {app : App} {sight : Sight} {L : Ledger Db Write} {ws : List Write}

namespace Docket

variable {docket : Docket}

def opened (docket : Docket) (receipts : List Receipt) : List Uuid :=
  (receipts.filter fun receipt => receipt.actionType = docket.opens).map Receipt.entityId

def isClosed (docket : Docket) (receipts : List Receipt) (id : Uuid) : Bool :=
  receipts.any fun receipt => receipt.actionType = docket.actionType && receipt.entityId = id

/-- The number of entries that the receipts leave open. -/
def outstanding (docket : Docket) (receipts : List Receipt) : Nat :=
  ((docket.opened receipts).dedup.filter fun id => !docket.isClosed receipts id).length

/-- The entries are those that were opened, and the marked ones those that were closed. -/
structure Kept (docket : Docket) (db : Db) : Prop where
  opened : ∀ id, db.Has docket.table id ↔ id ∈ docket.opened (db .receipts)
  known : ∀ id, docket.isClosed (db .receipts) id = true → db.Has docket.table id
  closed : ∀ row ∈ db docket.table, docket.mark row = docket.isClosed (db .receipts) row.id

theorem opened_append (receipts added : List Receipt) :
    docket.opened (receipts ++ added) = docket.opened receipts ++ docket.opened added := by
  rw [opened, List.filter_append, List.map_append]
  rfl

theorem isClosed_append (receipts added : List Receipt) (id : Uuid) :
    docket.isClosed (receipts ++ added) id =
      (docket.isClosed receipts id || docket.isClosed added id) := List.any_append

theorem opened_of_records {actions : List ActionType} (h : Records ws actions)
    (hopens : docket.opens ∉ actions) : docket.opened (inserted .receipts ws) = [] := by
  rw [opened, List.filter_eq_nil_iff.mpr fun receipt hreceipt => by simpa using h.ne hreceipt hopens]
  rfl

theorem isClosed_of_records {actions : List ActionType} (h : Records ws actions)
    (hcloses : docket.actionType ∉ actions) (id : Uuid) :
    docket.isClosed (inserted .receipts ws) id = false := by
  rw [isClosed, List.any_eq_false]
  intro receipt hreceipt
  simp [h.ne hreceipt hcloses]

/-- **The open entries are those that the receipts leave open.** -/
theorem Kept.outstanding {db : Db} (h : docket.Kept db) (hdistinct : db.Distinct) :
    ((db docket.table).filter fun row => !docket.mark row).length =
      docket.outstanding (db .receipts) := by
  have hnodup : (((db docket.table).filter fun row => !docket.mark row).map Row.id).Nodup :=
    (hdistinct.nodup_ids docket.table).sublist (List.filter_sublist.map Row.id)
  have hperm : (((db docket.table).filter fun row => !docket.mark row).map Row.id).Perm
      ((docket.opened (db .receipts)).dedup.filter fun id => !docket.isClosed (db .receipts) id) := by
    refine (List.perm_ext_iff_of_nodup hnodup ((List.nodup_dedup _).filter _)).mpr fun id => ?_
    rw [List.mem_map, List.mem_filter, List.mem_dedup, ← h.opened]
    constructor
    · rintro ⟨row, hrow, rfl⟩
      obtain ⟨hmem, hmark⟩ := List.mem_filter.mp hrow
      exact ⟨⟨row, hmem, rfl⟩, by rwa [← h.closed row hmem]⟩
    · rintro ⟨⟨row, hmem, rfl⟩, hclosed⟩
      refine ⟨row, List.mem_filter.mpr ⟨hmem, ?_⟩, rfl⟩
      rwa [h.closed row hmem]
  have hlength := hperm.length_eq
  rwa [List.length_map] at hlength

/-! ### Steps -/

/-- What a step has to show of the rows, once the receipts are split. -/
theorem Kept.step (h : docket.Kept L.db)
    (hopened : ∀ id, (L.commit ws).db.Has docket.table id ↔
      L.db.Has docket.table id ∨ id ∈ docket.opened (inserted .receipts ws))
    (hknown : ∀ id, docket.isClosed (inserted .receipts ws) id = true → L.db.Has docket.table id)
    (hclosed : ∀ row ∈ (L.commit ws).db docket.table, docket.mark row =
      (docket.isClosed (L.db .receipts) row.id || docket.isClosed (inserted .receipts ws) row.id)) :
    docket.Kept (L.commit ws).db := by
  have hreceipts : (L.commit ws).db .receipts = L.db .receipts ++ inserted .receipts ws :=
    Db.receipts_foldl ws L.db
  refine ⟨fun id => ?_, fun id hid => ?_, fun row hrow => ?_⟩
  · rw [hreceipts, opened_append, List.mem_append, ← h.opened, hopened]
  · rw [hreceipts, isClosed_append, Bool.or_eq_true] at hid
    exact (hid.elim (h.known id) (hknown id)).foldl ws
  · rw [hreceipts, isClosed_append, hclosed row hrow]

/-- A transaction that makes no entries, marks none and writes neither receipt. -/
theorem Kept.neutral (h : docket.Kept L.db) (actions : List ActionType)
    (hrecords : Records ws actions) (hopens : docket.opens ∉ actions) (hcloses : docket.actionType ∉ actions)
    (hnew : inserted docket.table ws = [])
    (hkeep : ∀ loaded new, .update docket.table loaded new ∈ ws → ∀ current,
      docket.mark (Row.merge loaded new current) = docket.mark current) :
    docket.Kept (L.commit ws).db := by
  have hrows : ((L.commit ws).db docket.table).map (fun row => (row.id, docket.mark row)) =
      (L.db docket.table).map fun row => (row.id, docket.mark row) := by
    refine (Db.map_foldl_apply_of_kept (fun loaded new hmem current => ?_) L.db).trans ?_
    · rw [Row.id_merge, hkeep loaded new hmem]
    · rw [hnew, List.map_nil, List.append_nil]
  have hmem : ∀ id marked, (∃ row ∈ (L.commit ws).db docket.table, row.id = id ∧
        docket.mark row = marked) ↔
      ∃ row ∈ L.db docket.table, row.id = id ∧ docket.mark row = marked := by
    intro id marked
    have hpair := congrArg (fun rows => (id, marked) ∈ rows) hrows
    simpa [List.mem_map] using hpair
  have hnone := isClosed_of_records hrecords hcloses
  refine h.step (fun id => ?_) (fun id hid => ?_) fun row hrow => ?_
  · rw [opened_of_records hrecords hopens, List.mem_nil_iff, or_false]
    constructor
    · rintro ⟨row, hrow, hid⟩
      obtain ⟨row', hrow', hid', -⟩ := (hmem id _).mp ⟨row, hrow, hid, rfl⟩
      exact ⟨row', hrow', hid'⟩
    · exact fun hhas => hhas.foldl ws
  · rw [hnone] at hid
    cases hid
  · obtain ⟨row', hrow', hid, hmark⟩ := (hmem row.id _).mp ⟨row, hrow, rfl, rfl⟩
    rw [hnone, Bool.or_false, ← hmark, h.closed row' hrow', hid]

/-- A transaction that leaves the table alone. -/
theorem Kept.of_names {ts : List Table} {actions : List ActionType} (h : docket.Kept L.db)
    (htables : Names ws ts) (hrecords : Records ws actions) (htable : docket.table ∉ ts)
    (hopens : docket.opens ∉ actions) (hcloses : docket.actionType ∉ actions) :
    docket.Kept (L.commit ws).db := by
  refine h.neutral actions hrecords hopens hcloses ?_ fun loaded new hmem => ?_
  · refine List.eq_nil_iff_forall_not_mem.mpr fun row hrow => ?_
    exact absurd rfl (htables.ne htable _ (mem_inserted.mp hrow))
  · exact absurd rfl (htables.ne htable _ hmem)

/-- A new entry, with its receipt. -/
theorem Kept.append (h : docket.Kept L.db) (happ : Applicable ws L.db) {row : Row docket.table}
    (hrows : (L.commit ws).db docket.table = L.db docket.table ++ [row])
    (hinsert : .insert docket.table row ∈ ws) (hmark : docket.mark row = false)
    (hopened : docket.opened (inserted .receipts ws) = [row.id])
    (hclosed : ∀ id, docket.isClosed (inserted .receipts ws) id = false) :
    docket.Kept (L.commit ws).db := by
  refine h.step (fun id => ?_) (fun id hid => ?_) fun other hother => ?_
  · rw [hopened, List.mem_singleton, Db.Has, hrows]
    constructor
    · rintro ⟨other, hother, rfl⟩
      rcases List.mem_append.mp hother with hother | hother
      · exact .inl ⟨other, hother, rfl⟩
      · exact .inr (by rw [List.mem_singleton.mp hother])
    · rintro (⟨other, hother, rfl⟩ | rfl)
      · exact ⟨other, List.mem_append_left _ hother, rfl⟩
      · exact ⟨row, List.mem_append_right _ (List.mem_singleton_self _), rfl⟩
  · rw [hclosed] at hid
    cases hid
  · rw [hclosed, Bool.or_false]
    rw [hrows, List.mem_append, List.mem_singleton] at hother
    rcases hother with hother | rfl
    · exact h.closed other hother
    · rw [hmark, Eq.comm, Bool.eq_false_iff]
      intro hid
      obtain ⟨old, hold, hid⟩ := h.known _ hid
      exact happ.id_ne hold hinsert hid.symm

/-- An entry is marked, with the receipt. -/
theorem Kept.close (h : docket.Kept L.db) {loaded new : Row docket.table}
    (hrows : (L.commit ws).db docket.table = Db.updated loaded new (L.db docket.table))
    (hhas : L.db.Has docket.table loaded.id)
    (hmark : ∀ current ∈ L.db docket.table, current.id = loaded.id →
      docket.mark (Row.merge loaded new current) = true)
    (hopened : docket.opened (inserted .receipts ws) = [])
    (hclosed : ∀ id, docket.isClosed (inserted .receipts ws) id = decide (id = loaded.id)) :
    docket.Kept (L.commit ws).db := by
  refine h.step (fun id => ?_) (fun id hid => ?_) fun row hrow => ?_
  · rw [hopened, List.mem_nil_iff, or_false, Db.Has, hrows]
    constructor
    · rintro ⟨row, hrow, rfl⟩
      obtain ⟨old, hold, rfl⟩ := Db.mem_updated.mp hrow
      refine ⟨old, hold, ?_⟩
      split
      · exact (Row.id_merge ..).symm
      · rfl
    · rintro ⟨old, hold, rfl⟩
      refine ⟨_, Db.mem_updated.mpr ⟨old, hold, rfl⟩, ?_⟩
      split
      · exact Row.id_merge ..
      · rfl
  · rw [hclosed] at hid
    rwa [of_decide_eq_true hid]
  · rw [hrows] at hrow
    obtain ⟨old, hold, rfl⟩ := Db.mem_updated.mp hrow
    by_cases hid : old.id = loaded.id
    · rw [if_pos hid, hmark old hold hid, Row.id_merge, hclosed, decide_eq_true hid, Bool.or_true]
    · rw [if_neg hid, hclosed, decide_eq_false hid, Bool.or_false, h.closed old hold]

end Docket

/-! ### The reviews and the dead letters -/

def reviewDocket : Docket where
  table := .manualReviewQueue
  mark := fun review : ManualReviewQueue => review.status = .resolved
  actionType := .reviewResolved
  opens := .reviewQueued

def letterDocket : Docket where
  toMarker := revivals
  opens := .deadLettered

open Docket

theorem Resolve.Parks.docket {event : Event} (h : Resolve.Parks app sight L event ws)
    (happ : Applicable ws L.db) (hkept : reviewDocket.Kept L.db) :
    reviewDocket.Kept (L.commit ws).db := by
  obtain @⟨candidateIdentityId, reason, entry, now, rid, -, -, -, hentry⟩ := h
  cases entry with
  | created row =>
      rw [Upsert.writes_created] at happ ⊢
      refine hkept.append happ (commit_rows L _ .manualReviewQueue) (List.mem_cons_self ..) ?_ rfl
        fun id => rfl
      rw [hentry.2]
      rfl
  | updated loaded new =>
      obtain ⟨-, -, rfl⟩ := hentry
      refine hkept.neutral [] ?_ (by simp) (by simp) ?_ fun loaded' new' hmem current => ?_
      · simp [Records, Upsert.writes, Upsert.inserts, Resolve.queuedReceipt]
      · simp [reviewDocket, Upsert.writes, Upsert.inserts, Resolve.queuedReceipt]
      · rw [Resolve.queuedReceipt, List.append_nil] at hmem
        obtain ⟨_, _, heq⟩ | ⟨_, _, heq, _, heq'⟩ := Upsert.mem_writes hmem
        · cases heq
        · cases heq
          cases heq'
          simp [reviewDocket, Row.merge, Row.column, Row.stamp]

theorem Resolve.Resolves.docket (lawful : sight.Lawful) {decision : String}
    {review : ManualReviewQueue} {identityId : Uuid}
    (h : Resolve.Resolves sight L decision review identityId ws) (hkept : reviewDocket.Kept L.db) :
    reviewDocket.Kept (L.commit ws).db := by
  obtain ⟨hseen, hstatus⟩ := h.seen
  obtain ⟨current, hcurrent, hcurrentKept⟩ := lawful.kept hseen
  obtain ⟨resolvedAt, hwrites⟩ := h.reviewWrites
  obtain ⟨receipt, hreceipt, hentity, -⟩ := h.decisionReceipt
  have hrows : (L.commit ws).db .manualReviewQueue = Db.updated (t := .manualReviewQueue) review
      (Resolve.resolved review decision resolvedAt) (L.db .manualReviewQueue) := by
    rw [commit_rows, hwrites, List.foldl_cons, List.foldl_nil, Db.apply_update_self]
  refine hkept.close hrows
    ⟨current, hcurrent, hcurrentKept.static (Row.static_id .manualReviewQueue)⟩
    (fun current _ _ => ?_) (opened_of_records h.records (by decide)) fun id => ?_
  · simp [reviewDocket, Row.merge, Row.column, Resolve.resolved, hstatus]
  · have hany : isClosed reviewDocket (inserted .receipts ws) id =
        ((inserted .receipts ws).filter fun receipt =>
          Receipt.actionType receipt = .reviewResolved).any fun receipt =>
            Receipt.entityId receipt = id := by
      rw [List.any_filter]
      rfl
    rw [hany, hreceipt, List.any_cons, List.any_nil, Bool.or_false, hentity]
    exact decide_eq_decide.mpr eq_comm

theorem Transaction.keeps_reviews (lawful : sight.Lawful) (h : Transaction app sight L ws)
    (happ : Applicable ws L.db) (hkept : reviewDocket.Kept L.db) :
    reviewDocket.Kept (L.commit ws).db := by
  cases h with
  | parks h => exact h.docket happ hkept
  | resolves h => exact h.docket lawful hkept
  | creates h => exact hkept.of_names h.tables h.records (by decide) (by decide) (by decide)
  | edits h => exact hkept.of_names h.tables h.records (by decide) (by decide) (by decide)
  | rejects h => exact hkept.of_names h.tables h.records (by decide) (by decide) (by decide)
  | links h => exact hkept.of_names h.tables h.records (by decide) (by decide) (by decide)
  | interprets h => exact hkept.of_names h.tables h.records (by decide) (by decide) (by decide)
  | scores h => exact hkept.of_names h.tables h.records (by decide) (by decide) (by decide)
  | acts h => exact hkept.of_names h.tables h.records (by decide) (by decide) (by decide)
  | deadLetters h => exact hkept.of_names h.tables h.records (by decide) (by decide) (by decide)
  | revives h => exact hkept.of_names h.tables h.records (by decide) (by decide) (by decide)
  | escalates h => exact hkept.of_names h.tables h.records (by decide) (by decide) (by decide)

theorem Interpret.DeadLetters.docket {event : Event} (h : Interpret.DeadLetters sight L event ws)
    (happ : Applicable ws L.db) (hkept : letterDocket.Kept L.db) :
    letterDocket.Kept (L.commit ws).db := by
  obtain @⟨dlq, _, _, _, _, _, _, _, hopen, _⟩ := h
  exact hkept.append happ (commit_rows L _ .deadLetterQueue) (List.mem_cons_self ..) hopen rfl
    fun id => rfl

theorem Interpret.Revives.docket (lawful : sight.Lawful) {eventId identityId : Uuid}
    (h : Interpret.Revives sight L eventId identityId ws) (hkept : letterDocket.Kept L.db) :
    letterDocket.Kept (L.commit ws).db := by
  obtain @⟨dlq, _, _, now, hdlq, -, hopen⟩ := h
  have hne : ({ dlq with resolved := true } : DeadLetterQueue) ≠ dlq := by
    intro heq
    rw [← heq] at hopen
    cases hopen
  obtain ⟨current, hcurrent, hcurrentKept⟩ := lawful.kept hdlq
  rw [saved_of_ne (t := .deadLetterQueue) hne]
  refine hkept.close (commit_rows L _ .deadLetterQueue)
    ⟨current, hcurrent, hcurrentKept.static (Row.static_id .deadLetterQueue)⟩
    (fun current _ _ => ?_) rfl fun id => ?_
  · simp [letterDocket, revivals, Row.merge, Row.column, Row.stamp, hopen]
  · simp [isClosed, letterDocket, revivals, receipt, eq_comm (a := id)]
    rfl

theorem Transaction.keeps_letters (lawful : sight.Lawful) (h : Transaction app sight L ws)
    (happ : Applicable ws L.db) (hkept : letterDocket.Kept L.db) :
    letterDocket.Kept (L.commit ws).db := by
  cases h with
  | deadLetters h => exact h.docket happ hkept
  | revives h => exact h.docket lawful hkept
  | creates h => exact hkept.of_names h.tables h.records (by decide) (by decide) (by decide)
  | edits h => exact hkept.of_names h.tables h.records (by decide) (by decide) (by decide)
  | rejects h => exact hkept.of_names h.tables h.records (by decide) (by decide) (by decide)
  | links h => exact hkept.of_names h.tables h.records (by decide) (by decide) (by decide)
  | parks h => exact hkept.of_names h.tables h.records (by decide) (by decide) (by decide)
  | resolves h => exact hkept.of_names h.tables h.records (by decide) (by decide) (by decide)
  | interprets h => exact hkept.of_names h.tables h.records (by decide) (by decide) (by decide)
  | scores h => exact hkept.of_names h.tables h.records (by decide) (by decide) (by decide)
  | acts h => exact hkept.of_names h.tables h.records (by decide) (by decide) (by decide)
  | escalates h => exact hkept.of_names h.tables h.records (by decide) (by decide) (by decide)

/-- What holds of the entries along the transactions holds along the histories. -/
theorem History.docket {docket : Docket} (hnone : emptyLedger.db docket.table = [])
    (hstep : ∀ {L ws}, Transaction app sight L ws → Applicable ws L.db → docket.Kept L.db →
      docket.Kept (L.commit ws).db) (h : History app sight L) : docket.Kept L.db := by
  induction h with
  | empty =>
      refine ⟨fun id => ?_, fun id hid => ?_, fun row hrow => ?_⟩
      · rw [Db.Has, hnone]
        exact iff_of_false (by simp) List.not_mem_nil
      · cases hid
      · rw [hnone] at hrow
        exact absurd hrow List.not_mem_nil
  | commit _ htransaction happ ih => exact hstep htransaction happ ih

end DemandSignal
