import DemandSignal.Simulation
import DemandSignal.Spec.Reruns

/-!
# Idempotence of the pipeline

Run twice over a linked event, with one reply of the provider to both runs, the pipeline leaves the
second time what it left the first, unless what is read as the event's text is no text.
-/

namespace DemandSignal

open Txn

variable {app : App}

/-- **Running the pipeline twice is running it once**, from every reachable state, for every linked
event and every well-formed reply, exactly when the event is processable. -/
theorem run_downstream_idempotent_iff
    {config : Config Request Db Write Error Question Reply Response}
    (h : Reachable (service app) emptyLedger config) {event : Event}
    (hevent : event ∈ config.ledger.db .events) {identityId : Uuid}
    (hlinked : Resolve.Linked event.id identityId config.ledger.db) {reply : Reply}
    (hreply : Interpret.WellFormed app reply) :
    Pipeline.Idempotent app reply config.ledger event identityId ↔
      Interpret.Processable app event reply :=
  Pipeline.idempotent_iff (reachable_history h).distinct hevent hlinked hreply

/-- The provider takes the event for a request for a demo. -/
def demoReply : Reply :=
  .completion
    "\x7b\"label\": \"demo_request\", \"confidence\": 0.9, \"reason\": \"asks for a demo\"\x7d" none

theorem demoReply_classified : ∃ result, Interpret.callResult shipped demoReply = .ok result ∧
    Interpret.confidence shipped result.1 = .hundredths 90 ∧
      (Interpret.classified shipped result).storable = true := by
  have hplayed : ((Interpret.callResult shipped demoReply).toOption.any fun result =>
      decide (Interpret.confidence shipped result.1 = .hundredths 90) &&
        (Interpret.classified shipped result).storable) = true := by decide +kernel
  cases hcall : Interpret.callResult shipped demoReply with
  | error error =>
      rw [hcall] at hplayed
      cases hplayed
  | ok result =>
      rw [hcall, Except.toOption, Option.any_some, Bool.and_eq_true] at hplayed
      exact ⟨result, rfl, of_decide_eq_true hplayed.1, hplayed.2⟩

theorem demoReply_wellFormed : Interpret.WellFormed shipped demoReply := by
  obtain ⟨result, hresult, hconfidence, -⟩ := demoReply_classified
  exact ⟨result, hresult, 90, hconfidence, by decide, by decide⟩

/-- A schedule leads to a linked event. -/
theorem exists_linked {schedule : List (Action Request)} {p : Event → Bool}
    (h : (interleave unreachable schedule).any (fun config =>
      (config.ledger.db .events).any fun event => p event &&
        (config.ledger.db .identityLinks).any fun link =>
          decide (IdentityLink.eventId link = event.id)) = true) :
    ∃ config, Reachable (service shipped) emptyLedger config ∧ ∃ event ∈ config.ledger.db .events,
      p event = true ∧ ∃ identityId, Resolve.Linked event.id identityId config.ledger.db := by
  obtain ⟨config, hconfig, hevents⟩ := (Option.any_eq_true _ _).mp h
  obtain ⟨event, hevent, hlinked⟩ := List.any_eq_true.mp hevents
  rw [Bool.and_eq_true, List.any_eq_true] at hlinked
  obtain ⟨hp, link, hlink, hid⟩ := hlinked
  exact ⟨config, interleave_reachable hconfig, event, hevent, hp, IdentityLink.identityId link, link,
    hlink, of_decide_eq_true hid, rfl⟩

/-- A form whose text is long enough for the provider, which could not be reached. -/
def askedOnce : List (Action Request) := inTurn 0 [(webForm "1" firstDay "what does it cost", 24)]

theorem run_downstream_idempotent_askedOnce :
    ∃ config, Reachable (service shipped) emptyLedger config ∧ ∃ event ∈ config.ledger.db .events,
      ∃ identityId, Pipeline.Idempotent shipped demoReply config.ledger event identityId := by
  have hplayed : (interleave unreachable askedOnce).any (fun config =>
      (config.ledger.db .events).any fun event =>
        decide (Interpret.extractText event = some "what does it cost") &&
        (config.ledger.db .identityLinks).any fun link =>
          decide (IdentityLink.eventId link = event.id)) = true := by
    rw [interleave, shipped_eq_bucketed]
    decide +kernel
  obtain ⟨config, hreachable, event, hevent, htext, identityId, hlinked⟩ := exists_linked hplayed
  obtain ⟨result, hresult, -, hstorable⟩ := demoReply_classified
  exact ⟨config, hreachable, event, hevent, identityId,
    (run_downstream_idempotent_iff hreachable hevent hlinked demoReply_wellFormed).mpr
      ⟨_, of_decide_eq_true htext, .inr ⟨result, hresult, hstorable⟩⟩⟩

/-- The text of the event is read from a value that is none, so neither run writes a receipt. -/
theorem run_downstream_not_idempotent :
    ¬ ∀ (config : Config Request Db Write Error Question Reply Response),
      Reachable (service shipped) emptyLedger config → ∀ event ∈ config.ledger.db .events,
      ∀ identityId, Resolve.Linked event.id identityId config.ledger.db → ∀ reply,
      Interpret.WellFormed shipped reply →
      Pipeline.Idempotent shipped reply config.ledger event identityId := by
  intro hall
  have hplayed : (interleave unreachable (inTurn 0 [(flaggedForm, 18)])).any (fun config =>
      (config.ledger.db .events).any fun event => (Interpret.extractText event).isNone &&
        (config.ledger.db .identityLinks).any fun link =>
          decide (IdentityLink.eventId link = event.id)) = true := by
    rw [interleave, shipped_eq_bucketed]
    decide +kernel
  obtain ⟨config, hreachable, event, hevent, htext, identityId, hlinked⟩ := exists_linked hplayed
  have hidempotent :=
    hall config hreachable event hevent identityId hlinked demoReply demoReply_wellFormed
  obtain ⟨text, htext', -⟩ := (Pipeline.idempotent_iff (reachable_history hreachable).distinct hevent
    hlinked demoReply_wellFormed).mp hidempotent
  rw [htext'] at htext
  cases htext

end DemandSignal
