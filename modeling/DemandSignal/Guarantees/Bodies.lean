import DemandSignal.Simulation
import DemandSignal.Spec.Bodies

/-!
# Every body is accounted for

A JSON object that is posted is taken in as an accepted payload or recorded as a rejected one, if and
only if the database takes the values that the one or the other stores.
-/

namespace DemandSignal

open Txn

variable {app : App} {L : Ledger Db Write}

/-- **A body is taken in or recorded, exactly if it fits the database**, in whatever state it comes. -/
theorem bodies_accounted (hmessages : ∀ error, app.message error ≠ "") {visits : List ServiceVisit}
    (h : Served (service app) emptyLedger visits L) {visit : ServiceVisit} (hvisit : visit ∈ visits)
    {body : Body} {payload : Json.Fields} (hinput : visit.input = .postEvent (some body))
    (hbody : body.json = .obj payload) :
    Xor (TakenIn app payload visit.before visit.after) (Recorded payload visit.before visit.after) ↔
      Fits app visit.before.db payload := by
  have hvisited := served_visited h hvisit
  rw [hinput] at hvisited
  exact hvisited.takes_iff ((served_history h).2 visit hvisit).1 hmessages (congrArg some hbody)

/-- A form of two fields. -/
def shortForm (externalEventId : Json) (h : externalEventId.Wf) : Body where
  json := .obj [("source", .str "web_form"), ("external_event_id", externalEventId)]
  wf := ⟨by simp, trivial, h, trivial⟩

/-- A form that has no time is recorded. -/
theorem bodies_accounted_untimed :
    ∃ visit ∈ simulate shipped (failing [.postEvent (some (shortForm (.str "1") trivial))]) emptyLedger,
      Xor (TakenIn shipped [("source", .str "web_form"), ("external_event_id", .str "1")] visit.before
          visit.after)
        (Recorded [("source", .str "web_form"), ("external_event_id", .str "1")] visit.before
          visit.after) := by
  have hmessages : ∀ error, shipped.message error ≠ "" := fun _ => by simp [shipped, asciiPlatform]
  have hserved := simulate_served shipped
    (failing [.postEvent (some (shortForm (.str "1") trivial))])
  refine ⟨_, List.mem_singleton_self _, ?_⟩
  refine (bodies_accounted hmessages hserved (List.mem_singleton_self _) rfl rfl).mpr ?_
  exact .rejected rfl (Ingest.recordable_iff.mp (by decide +kernel))

/-- A form that is named by a number is neither taken in nor recorded. -/
theorem body_dropped :
    ¬ ∀ visits L, Served (service shipped) emptyLedger visits L → ∀ visit ∈ visits,
      ∀ body payload, visit.input = .postEvent (some body) → body.json = .obj payload →
      Xor (TakenIn shipped payload visit.before visit.after)
        (Recorded payload visit.before visit.after) := by
  intro hall
  have hnone : (outcome shipped (failing [.postEvent (some
      (shortForm (.num (.ofText ['7'])) trivial))]) emptyLedger).db .events = [] := by decide +kernel
  have hxor := hall _ _ (simulate_served shipped (failing [.postEvent (some
    (shortForm (.num (.ofText ['7'])) trivial))])) _ (List.mem_singleton_self _) _ _ rfl rfl
  rcases hxor with ⟨htaken, -⟩ | ⟨⟨event, reason, rid, now, -, -, -, -, hadded, -⟩, -⟩
  · cases htaken with
    | duplicate hvalid => cases hvalid
    | accepted hvalid => cases hvalid
  · exact absurd (hnone.symm.trans hadded) (by simp)

end DemandSignal
