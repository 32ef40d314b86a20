import DemandSignal.Simulation
import DemandSignal.Spec.Lifecycles

/-!
# Lifecycles only advance

In every interleaving a row stays and moves forward only, and the audit trail is appended to.
-/

namespace DemandSignal

open Txn

variable {app : App} {config config' : Config Request Db Write Error Question Reply Response}

/-- **Nothing is undone.** Whatever runs after a state that requests have led to, every row of it is
still there, once, and has moved forward only; identities and receipts are appended to. -/
theorem lifecycles_advance (h : Reachable (service app) emptyLedger config)
    (hsteps : Relation.ReflTransGen (Step (service app)) config config') :
    (∀ (t : Table) (row : Row t), row ∈ config.ledger.db t →
      ∃ later ∈ config'.ledger.db t, later.id = row.id ∧ row.Later later ∧
        ∀ other ∈ config'.ledger.db t, other.id = row.id → other = later) ∧
    config.ledger.db .identities <+: config'.ledger.db .identities ∧
    config.ledger.db .receipts <+: config'.ledger.db .receipts := by
  have hextends : Extends config.ledger config'.ledger := by
    induction hsteps with
    | refl => exact .refl
    | tail _ hstep ih => exact ih.trans hstep.extends
  have hhistory := reachable_history (h.trans hsteps)
  refine ⟨fun t row hrow => ?_, hextends.grows fun _ _ _ => rfl, hextends.grows fun _ _ _ => rfl⟩
  obtain ⟨later, hmem, hid, hlater⟩ := History.later lawful_once hextends hhistory hrow
  exact ⟨later, hmem, hid, hlater, fun other hother heq =>
    hhistory.distinct.eq_of_id hother hmem (heq.trans hid.symm)⟩

/-- A replay that is about to close the dead letter of a form. -/
def closing : List (Time × List (Action Request)) :=
  [(0, inTurn 0 [(webForm "1" firstDay "hi", 52), (.simulateFailure true "interpret" (some 1), 8)]),
    (100, inTurn 2 [(.replayEvent true (some 1), 34)])]

theorem lifecycles_advance_closing : ∃ config config', interleavePhases unreachable closing = some config ∧
    config.advance unreachable 200 2 = some config' ∧
    (config.ledger.db .deadLetterQueue).map DeadLetterQueue.resolved = [false] ∧
    (config'.ledger.db .deadLetterQueue).map DeadLetterQueue.resolved = [true] ∧
    ∀ (t : Table) (row : Row t), row ∈ config.ledger.db t →
      ∃ later ∈ config'.ledger.db t, later.id = row.id ∧ row.Later later := by
  have hplayed : (interleavePhases unreachable closing).any (fun config =>
      (config.advance unreachable 200 2).any fun config' =>
        (config.ledger.db .deadLetterQueue).map DeadLetterQueue.resolved = [false] &&
          (config'.ledger.db .deadLetterQueue).map DeadLetterQueue.resolved = [true]) = true := by
    rw [interleavePhases, shipped_eq_bucketed]
    decide +kernel
  obtain ⟨config, hconfig, h⟩ := (Option.any_eq_true _ _).mp hplayed
  obtain ⟨config', hconfig', h⟩ := (Option.any_eq_true _ _).mp h
  rw [Bool.and_eq_true, decide_eq_true_eq, decide_eq_true_eq] at h
  have hstep : Step (service shipped) config config' :=
    Config.advance_step (fun _ _ _ => trivial) (fun _ => trivial) hconfig'
  refine ⟨config, config', hconfig, hconfig', h.1, h.2, fun t row hrow => ?_⟩
  obtain ⟨later, hlater, hid, hforward, -⟩ :=
    (lifecycles_advance (interleavePhases_reachable hconfig) (.single hstep)).1 t row hrow
  exact ⟨later, hlater, hid, hforward⟩

end DemandSignal
