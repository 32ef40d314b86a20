import DemandSignal.Simulation
import DemandSignal.Spec.Deadlines

/-!
# Escalated means overdue

A lead is reported as escalated when its deadline has passed and only then, until its route is given
another deadline after it has been flagged.
-/

namespace DemandSignal

open Txn

variable {app : App}

/-- **Every reader is told whether the deadline in force has passed**, and of a breach only with its
receipt, in every run whose transactions leave the deadlines of flagged routes as they are. -/
theorem escalated_iff_overdue {visits : List (Time × Visit Request Db Write Error Reply Response)}
    {L : Ledger Db Write} (h : Timely (service app) emptyLedger visits L)
    (hsteady : ∀ commit ∈ L.log, Steady commit.writes) :
    ∀ visit ∈ visits, ∀ response, visit.2.result = .ok response → ∀ view ∈ response.views,
      Tells visit.1 visit.2.after.db view :=
  (timely_tells h hsteady).2

/-- A request served at an instant while the provider cannot be reached. -/
def visitAt (app : App) (t : Time) (request : Request) (L : Ledger Db Write) :
    Visit Request Db Write Error Reply Response :=
  let run := exec ⟨fun _ => t, fun _ => unreachable⟩ ((handle app request).clocked t) {} L 0
  ⟨request, L, run.1, run.2.1, run.2.2.1⟩

/-- The visits of an agenda. -/
def attend (app : App) : List (Time × Request) → Ledger Db Write →
    List (Time × Visit Request Db Write Error Reply Response)
  | [], _ => []
  | (t, request) :: agenda, L =>
      (t, visitAt app t request L) :: attend app agenda (visitAt app t request L).after

/-- The ledger an agenda leaves. -/
def attended (app : App) (agenda : List (Time × Request)) (L : Ledger Db Write) : Ledger Db Write :=
  agenda.foldl (fun L entry => (visitAt app entry.1 entry.2 L).after) L

theorem attend_timely (app : App) {agenda : List (Time × Request)}
    (hclock : agenda.Pairwise fun entry later => entry.1 ≤ later.1) :
    Timely (service app) emptyLedger (attend app agenda emptyLedger)
      (attended app agenda emptyLedger) := by
  have htimely : ∀ (agenda : List (Time × Request)) visits L,
      Timely (service app) emptyLedger visits L →
      agenda.Pairwise (fun entry later => entry.1 ≤ later.1) →
      (∀ visit ∈ visits, ∀ entry ∈ agenda, visit.1 ≤ entry.1) →
      Timely (service app) emptyLedger (visits ++ attend app agenda L) (attended app agenda L) := by
    intro agenda
    induction agenda with
    | nil =>
        intro visits L h _ _
        rwa [attend, List.append_nil]
    | cons entry agenda ih =>
        obtain ⟨t, request⟩ := entry
        intro visits L h hclock hbefore
        rw [List.pairwise_cons] at hclock
        rw [attend, List.append_cons]
        refine ih _ _ (h.snoc (fun visit hvisit => hbefore visit hvisit _ (List.mem_cons_self ..))
          (exec_runs _ (fun _ => id) (fun _ => id) (fun _ _ _ => trivial) (fun _ _ => trivial) _ _ _ 0))
          hclock.2 fun visit hvisit later hlater => ?_
        rcases List.mem_append.mp hvisit with hvisit | hvisit
        · exact hbefore visit hvisit later (List.mem_cons_of_mem _ hlater)
        · rw [List.mem_singleton.mp hvisit]
          exact hclock.1 later hlater
  exact htimely agenda [] emptyLedger .nil hclock (by simp)

/-- The shipped deadline of a form that is not classified, two days after it, has passed. -/
def overdueAt : Time := 172800000001

/-- A form, and two readers after its deadline. -/
def lateReaders : List (Time × Request) :=
  [(0, webForm "1" firstDay "hi"), (overdueAt, .listLeads {}), (overdueAt, .getLead false (some 10))]

theorem escalated_iff_overdue_lateReaders :
    ∃ L, Timely (service shipped) emptyLedger (attend shipped lateReaders emptyLedger) L ∧
      ∀ visit ∈ attend shipped lateReaders emptyLedger, ∀ response,
        visit.2.result = .ok response → ∀ view ∈ response.views,
          Tells visit.1 visit.2.after.db view := by
  have hsteady : ∀ commit ∈ (attended shipped lateReaders emptyLedger).log, Steady commit.writes := by
    rw [shipped_eq_bucketed]
    decide +kernel
  have htimely : Timely (service shipped) emptyLedger (attend shipped lateReaders emptyLedger)
      (attended shipped lateReaders emptyLedger) := attend_timely shipped (by decide)
  exact ⟨_, htimely, escalated_iff_overdue htimely hsteady⟩

/-- A form, a reader after its deadline, another version of the form, and a reader again. -/
def readAroundEdit : List (Time × Request) :=
  [(0, webForm "1" firstDay "hi"), (overdueAt, .listLeads {}),
    (overdueAt, webForm "1" secondDay "hi"), (overdueAt, .listLeads {})]

theorem escalated_before_deadline :
    ¬ ∀ visits L, Timely (service shipped) emptyLedger visits L →
      ∀ visit ∈ visits, ∀ response, visit.2.result = .ok response → ∀ view ∈ response.views,
        Tells visit.1 visit.2.after.db view := by
  intro hall
  have hread : (attend shipped readAroundEdit emptyLedger).any (fun visit =>
      match visit.2.result with
      | .ok response => response.views.any fun view =>
          view.escalated && (visit.2.after.db .routes).all fun route =>
            visit.1 ≤ Route.slaDeadline route
      | .error _ => false) = true := by
    rw [shipped_eq_bucketed]
    decide +kernel
  obtain ⟨visit, hvisit, hshown⟩ := List.any_eq_true.mp hread
  split at hshown
  · next response hresponse =>
    obtain ⟨view, hview, hfuture⟩ := List.any_eq_true.mp hshown
    rw [Bool.and_eq_true] at hfuture
    obtain ⟨route, hroute, -, hiff, -⟩ := hall _ _ (attend_timely shipped (by decide)) visit hvisit
      response hresponse view hview
    have hdeadline := of_decide_eq_true (List.all_eq_true.mp hfuture.2 route hroute)
    exact absurd (hiff.mp hfuture.1) (not_lt.mpr hdeadline)
  · cases hshown

end DemandSignal
