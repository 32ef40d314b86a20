import DemandSignal.Simulation
import DemandSignal.Spec.Order

/-!
# Progress

Requests that are served at the same time wait for each other's locks, but never in a circle, and each
calls the provider a bounded number of times.
-/

namespace DemandSignal

open Txn

variable {app : App} {config : Config Request Db Write Error Question Reply Response}

/-- **A request stays within its budget of calls**, however it is interleaved, and even if it is
aborted. -/
theorem calls_bounded (h : Reachable (service app) emptyLedger config)
    {thread : Thread Request Db Write Error Question Reply Response}
    (hthread : thread ∈ config.threads) :
    thread.session.replies.length ≤ thread.input.budget app :=
  h.heard_le (fun request => request.watch app) (fun request => request.budget app)
    (fun _ _ _ hasks => hasks) (walks_handle app) hthread

/-- A form that has taken every call it may, and a report that takes none. -/
def busyForm : List (Action Request) :=
  .spawn (webForm "1" firstDay "what does it cost") :: .spawn (.reconciliation {}) ::
    List.replicate 20 (.step 0)

theorem calls_bounded_busy : ∃ config, interleave (fun _ => .failed true "busy") busyForm = some config ∧
    (config.threads.map fun thread => thread.session.replies.length) = [3, 0] ∧
    ∀ thread ∈ config.threads, thread.session.replies.length ≤ thread.input.budget shipped := by
  have hplayed : (interleave (fun _ => .failed true "busy") busyForm).any (fun config =>
      (config.threads.map fun thread => thread.session.replies.length) = [3, 0]) = true := by
    rw [interleave, shipped_eq_bucketed]
    decide +kernel
  obtain ⟨config, hconfig, hcalls⟩ := (Option.any_eq_true _ _).mp hplayed
  exact ⟨config, hconfig, of_decide_eq_true hcalls,
    fun thread hthread => calls_bounded (interleave_reachable hconfig) hthread⟩

/-- **No deadlock.** Of requests that list no leads, every schedule is finite, whatever the order of
their steps, and it cannot stop before each of them has ended. -/
theorem schedules_complete (h : Reachable (service app) emptyLedger config)
    (horders : ∀ thread ∈ config.threads, thread.input.orders = true) :
    Acc (fun later earlier => Advance (service app) earlier later) config ∧
      ∀ last, Relation.ReflTransGen (Advance (service app)) config last →
        Stuck (service app) last → last.Finished := by
  have hprogram : ∀ request : Request, request.orders = true →
      (handle app request).Walks (watch True (request.budget app)) (fun _ _ => True) {} := by
    intro request hrequest
    have hwalks := walks_handle app request
    rwa [Request.watch, eq_true hrequest] at hwalks
  have hadmits : ∀ (request : Request) s w,
      (watch True (request.budget app)).writes s w → ladder.Admits (D := Db) s w :=
    fun _ _ _ hwrites => hwrites trivial
  exact h.completes (fun request => request.orders = true) (fun _ _ _ _ => trivial)
    (fun _ => ⟨.failed false "", trivial⟩) hadmits hprogram horders

/-- Two events of one sender: the second waits for the identity that the first has inserted. -/
def contested : List (Action Request) :=
  [.spawn (webForm "1" firstDay "hi"), .spawn (webForm "2" secondDay "hi")] ++
    List.replicate 11 (.step 0) ++ List.replicate 10 (.step 1)

theorem schedules_complete_contested : ∃ config, interleave unreachable contested = some config ∧
    (config.advance unreachable 0 1).isNone = true ∧
    Acc (fun later earlier => Advance (service shipped) earlier later) config ∧
    ∀ last, Relation.ReflTransGen (Advance (service shipped)) config last →
      Stuck (service shipped) last → last.Finished := by
  have hplayed : (interleave unreachable contested).any (fun config =>
      (config.advance unreachable 0 1).isNone && config.threads.all fun thread =>
        thread.input.orders) = true := by
    rw [interleave, shipped_eq_bucketed]
    decide +kernel
  obtain ⟨config, hconfig, h⟩ := (Option.any_eq_true _ _).mp hplayed
  rw [Bool.and_eq_true, List.all_eq_true] at h
  exact ⟨config, hconfig, h.1, schedules_complete (interleave_reachable hconfig) h.2⟩

end DemandSignal
