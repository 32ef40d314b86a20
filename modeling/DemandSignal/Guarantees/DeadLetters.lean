import DemandSignal.Guarantees.Reconciliation
import DemandSignal.Spec.Marks

/-!
# Dead letters are bookkept

One unresolved dead letter to an event and one receipt to a dead letter, in every interleaving. A
replay looks the dead letter up long before it closes it, so two replays can close it twice.
-/

namespace DemandSignal

open Txn

variable {app : App}

def receiptsOf (db : Db) (actionType : ActionType) (dlq : DeadLetterQueue) : List Receipt :=
  (db .receipts).filter fun receipt =>
    Receipt.actionType receipt = actionType && Receipt.entityId receipt = dlq.id

structure DeadLettersKept (db : Db) : Prop where
  unresolved : ∀ dlq ∈ db .deadLetterQueue, ∀ dlq' ∈ db .deadLetterQueue,
    DeadLetterQueue.eventId dlq = DeadLetterQueue.eventId dlq' →
    DeadLetterQueue.resolved dlq = false → DeadLetterQueue.resolved dlq' = false → dlq = dlq'
  deadLettered : ∀ dlq ∈ db .deadLetterQueue, (receiptsOf db .deadLettered dlq).length = 1
  resolved : ∀ dlq ∈ db .deadLetterQueue,
    (receiptsOf db .deadLetterResolved dlq).length = if DeadLetterQueue.resolved dlq then 1 else 0

/-- **Dead letters and their receipts are one to one**, in every run whose commits close only dead
letters that are open in the database they are applied to. -/
theorem deadLetters_kept {config : Config Request Db Write Error Question Reply Response}
    (h : Reachable (service app) emptyLedger config)
    (hfresh : ∀ commit ∈ config.ledger.log, revivals.Fresh commit.before commit.writes) :
    DeadLettersKept config.ledger.db := by
  have hhistory := reachable_history h
  refine ⟨fun dlq hdlq dlq' hdlq' heventId hopen hopen' => ?_, fun dlq hdlq => ?_, ?_⟩
  · have hkey : ∀ dlq : DeadLetterQueue, dlq.resolved = false →
        Key.unresolvedEvent dlq.eventId ∈ Row.indexed (t := .deadLetterQueue) dlq := by
      intro dlq hopen
      simp [Row.indexed, hopen]
    refine hhistory.distinct.eq_of_indexed (t := .deadLetterQueue) hdlq hdlq' (hkey dlq hopen) ?_
    rw [heventId]
    exact hkey dlq' hopen'
  · exact hhistory.receipt_count lawful_once
      (by simp [Dashboard.creations] : Dashboard.deadLetterQueue ∈ Dashboard.creations) hdlq rfl
  · exact (Marker.settled_of_log (Transaction.revivals_settled lawful_once) hhistory hfresh).credit

/-- A form whose event an administrator dead-letters. -/
def deadForm : Time × List (Action Request) :=
  (0, inTurn 0 [(webForm "1" firstDay "hi", 52), (.simulateFailure true "interpret" (some 1), 8)])

/-- A replay of the event, and another one after it. -/
def laterReplays : List (Time × List (Action Request)) :=
  [deadForm, (100, inTurn 2 [(.replayEvent true (some 1), 36), (.replayEvent true (some 1), 3)])]

theorem deadLetters_kept_laterReplays :
    ∃ config, interleavePhases unreachable laterReplays = some config ∧
      DeadLettersKept config.ledger.db := by
  have hplayed : (interleavePhases unreachable laterReplays).any (fun config =>
      decide (∀ commit ∈ config.ledger.log, revivals.Fresh commit.before commit.writes)) = true := by
    rw [interleavePhases, shipped_eq_bucketed]
    decide +kernel
  obtain ⟨config, hconfig, hfresh⟩ := (Option.any_eq_true _ _).mp hplayed
  exact ⟨config, hconfig,
    deadLetters_kept (interleavePhases_reachable hconfig) (of_decide_eq_true hfresh)⟩

/-- Two replays: the second has found the dead letter open before the first closes it. -/
def racingReplays : List (Time × List (Action Request)) :=
  [deadForm, (100, [.spawn (.replayEvent true (some 1)), .spawn (.replayEvent true (some 1))] ++
    List.replicate 3 (.step 2) ++ List.replicate 36 (.step 3) ++ List.replicate 33 (.step 2))]

theorem deadLetter_closed_twice :
    ¬ ∀ config, Reachable (service shipped) emptyLedger config → DeadLettersKept config.ledger.db := by
  intro hall
  have hplayed : (interleavePhases unreachable racingReplays).any (fun config =>
      (config.ledger.db .deadLetterQueue).any fun dlq =>
        (receiptsOf config.ledger.db .deadLetterResolved dlq).length ≠
          if DeadLetterQueue.resolved dlq then 1 else 0) = true := by
    rw [interleavePhases, shipped_eq_bucketed]
    decide +kernel
  obtain ⟨config, hconfig, hdlq⟩ := (Option.any_eq_true _ _).mp hplayed
  obtain ⟨dlq, hmem, hne⟩ := List.any_eq_true.mp hdlq
  exact of_decide_eq_true hne ((hall config (interleavePhases_reachable hconfig)).resolved dlq hmem)

end DemandSignal
