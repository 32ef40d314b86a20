import DemandSignal.Simulation
import DemandSignal.Spec.Marks

/-!
# Escalation converges

A route is flagged with one receipt as long as no reader commits the flag of a route that another
reader has flagged since it selected the route.
-/

namespace DemandSignal

open Txn

variable {app : App}

/-- The `escalated` receipts of a route. -/
def escalatedReceipts (db : Db) (route : Route) : List Receipt :=
  (db .receipts).filter fun receipt =>
    Receipt.actionType receipt = .escalated && Receipt.entityId receipt = route.id

/-- **Each escalated route has one receipt, and no other route has any**, in every run whose commits
flag only routes that are not flagged in the database they are applied to. -/
theorem escalated_once {config : Config Request Db Write Error Question Reply Response}
    (h : Reachable (service app) emptyLedger config)
    (hfresh : ∀ commit ∈ config.ledger.log, escalations.Fresh commit.before commit.writes) :
    ∀ route ∈ config.ledger.db .routes,
      (escalatedReceipts config.ledger.db route).length = if Route.escalated route then 1 else 0 :=
  (Marker.settled_of_log (Transaction.escalations_settled lawful_once) (reachable_history h)
    hfresh).credit

/-- A form whose short text is not classified; its lead is to be answered within 48 hours. -/
def servedForm : Time × List (Action Request) := (0, inTurn 0 [(webForm "1" firstDay "hi", 52)])

/-- An instant after the deadline. -/
def lapsed : Time := 172800000100

/-- A reader after the deadline, and another one after it. -/
def laterReaders : List (Time × List (Action Request)) :=
  [servedForm, (lapsed, inTurn 1 [(.listLeads {}, 9), (.listLeads {}, 5)])]

theorem escalated_once_laterReaders :
    ∃ config, interleavePhases unreachable laterReaders = some config ∧
      ∀ route ∈ config.ledger.db .routes,
        (escalatedReceipts config.ledger.db route).length = if Route.escalated route then 1 else 0 := by
  have hplayed : (interleavePhases unreachable laterReaders).any (fun config =>
      decide (∀ commit ∈ config.ledger.log, escalations.Fresh commit.before commit.writes)) = true := by
    rw [interleavePhases, shipped_eq_bucketed]
    decide +kernel
  obtain ⟨config, hconfig, hfresh⟩ := (Option.any_eq_true _ _).mp hplayed
  exact ⟨config, hconfig,
    escalated_once (interleavePhases_reachable hconfig) (of_decide_eq_true hfresh)⟩

/-- Two readers after the deadline: the second has selected the route when the first commits. -/
def racingReaders : List (Time × List (Action Request)) :=
  [servedForm, (lapsed, [.spawn (.listLeads {}), .spawn (.listLeads {})] ++
    List.replicate 4 (.step 1) ++ List.replicate 4 (.step 2) ++ List.replicate 5 (.step 1) ++
    List.replicate 5 (.step 2))]

theorem escalated_twice :
    ¬ ∀ config, Reachable (service shipped) emptyLedger config →
      ∀ route ∈ config.ledger.db .routes,
        (escalatedReceipts config.ledger.db route).length =
          if Route.escalated route then 1 else 0 := by
  intro hall
  have hplayed : (interleavePhases unreachable racingReaders).any (fun config =>
      (config.ledger.db .routes).any fun route =>
        (escalatedReceipts config.ledger.db route).length ≠
          if Route.escalated route then 1 else 0) = true := by
    rw [interleavePhases, shipped_eq_bucketed]
    decide +kernel
  obtain ⟨config, hconfig, hroute⟩ := (Option.any_eq_true _ _).mp hplayed
  obtain ⟨route, hmem, hne⟩ := List.any_eq_true.mp hroute
  exact of_decide_eq_true hne (hall config (interleavePhases_reachable hconfig) route hmem)

end DemandSignal
