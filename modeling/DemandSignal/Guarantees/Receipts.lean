import DemandSignal.Simulation
import DemandSignal.Spec.Receipts

/-!
# No mutation without a receipt

A transaction names each row that it inserts or changes in one of its receipts, unless it attaches an
event to an identity by an exact rule or brings the proposal of a waiting review up to date.
-/

namespace DemandSignal

open Txn

variable {app : App}

/-- **Every row that a transaction inserts or changes is named by a receipt of the transaction**, in every
run whose transactions are announced. -/
theorem mutations_receipted {config : Config Request Db Write Error Question Reply Response}
    (h : Reachable (service app) emptyLedger config)
    (hannounced : ∀ commit ∈ config.ledger.log, Announced commit.before commit.writes) :
    ∀ commit ∈ config.ledger.log, Receipted commit.before commit.writes := by
  intro commit hcommit
  obtain ⟨L, ws, hhistory, htransaction, happ, rfl⟩ := (reachable_history h).of_mem_log hcommit
  exact htransaction.receipted lawful_once hhistory.distinct happ (hannounced _ hcommit)

/-- A form, and an engagement that a reviewer merges into its sender. -/
def mergedEngagement : List (Action Request) :=
  inTurn 0 [(webForm "1" firstDay "hi", 52), (engagement, 16),
    (.resolveManualReview (some 18) "merge_into" (some (some 3)), 42)]

theorem mutations_receipted_mergedEngagement :
    ∃ config, interleave unreachable mergedEngagement = some config ∧
      ∀ commit ∈ config.ledger.log, Receipted commit.before commit.writes := by
  have hplayed : (interleave unreachable mergedEngagement).any (fun config =>
      decide (∀ commit ∈ config.ledger.log, Announced commit.before commit.writes)) = true := by
    rw [interleave, shipped_eq_bucketed]
    decide +kernel
  obtain ⟨config, hconfig, hannounced⟩ := (Option.any_eq_true _ _).mp hplayed
  exact ⟨config, hconfig,
    mutations_receipted (interleave_reachable hconfig) (of_decide_eq_true hannounced)⟩

/-- The link of a second form of one sender has no receipt. -/
theorem link_unreceipted :
    ¬ ∀ config, Reachable (service shipped) emptyLedger config →
      ∀ commit ∈ config.ledger.log, Receipted commit.before commit.writes := by
  intro hall
  have hplayed : (interleave unreachable (inTurn 0 [(webForm "1" firstDay "hi", 52),
      (webForm "2" secondDay "hi", 43)])).any (fun config => config.ledger.log.any fun commit =>
        (inserted .receipts commit.writes).isEmpty &&
          (commit.writes.foldl Db.apply commit.before .identityLinks).any fun link =>
            decide (link ∉ commit.before .identityLinks)) = true := by
    rw [interleave, shipped_eq_bucketed]
    decide +kernel
  obtain ⟨config, hconfig, hlog⟩ := (Option.any_eq_true _ _).mp hplayed
  obtain ⟨commit, hcommit, hsilent⟩ := List.any_eq_true.mp hlog
  rw [Bool.and_eq_true, List.isEmpty_iff, List.any_eq_true] at hsilent
  obtain ⟨hreceipts, link, hlink, hnew⟩ := hsilent
  obtain ⟨receipt, hreceipt, -⟩ := hall config (interleave_reachable hconfig) commit hcommit
    .identityLinks (by decide) link hlink (of_decide_eq_true hnew)
  rw [hreceipts] at hreceipt
  exact absurd hreceipt List.not_mem_nil

end DemandSignal
