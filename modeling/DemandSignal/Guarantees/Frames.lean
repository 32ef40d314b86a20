import DemandSignal.Simulation
import DemandSignal.Spec.Frames

/-!
# Ingest touches only its own person

Whatever a valid event meets, and however its pipeline ends, the rows of the other events and the
leads, routes and touches of the other people are what they were, and so is every identity and
receipt that was there.
-/

namespace DemandSignal

open Txn

variable {app : App}

/-- **A valid event that is posted spares what is not its own**, from every state that some
interleaving of requests reaches. -/
theorem ingest_spares_others {config : Config Request Db Write Error Question Reply Response}
    (hreachable : Reachable (service app) emptyLedger config) {body : Option Body}
    {payload : Json.Fields} {model : EventIn} (hbody : body.map Body.json = some (.obj payload))
    (hvalid : Schemas.validate app payload = .ok model) {r : Except Error Response}
    {s : Session Write Reply} {L : Ledger Db Write}
    (hrun : Runs ((service app).solo (.postEvent body)) {} config.ledger
      (handle app (.postEvent body)) r s L)
    {event : Event} (hevent : event ∈ L.db .events) (hholds : Ingest.Holds app model event) :
    Spares (Mine config.ledger.db L.db event.id) config.ledger.db L.db := by
  have hdistinct := (reachable_history hreachable).distinct
  obtain ⟨r', -, hposted⟩ := (visited_of_runs hrun).posted_of_valid hbody hvalid
  obtain rfl | ⟨other, hother, hothers, hspares⟩ := hposted.spares hdistinct
  · exact .refl
  · have hsame := hholds.eq hothers hvalid (hposted.distinct hdistinct) hevent hother
    rwa [hsame]

/-- A form of another sender, after the first. -/
def bobAfterAda : Turn := ⟨bobForm, fun n => n, unreachable⟩

theorem ingest_spares_others_bob :
    ∃ config, interleave unreachable (inTurn 0 [(webForm "1" firstDay "hi", 52)]) = some config ∧
      ∃ event ∈ (bobAfterAda.visit shipped config.ledger).after.db .events,
        Spares (Mine config.ledger.db (bobAfterAda.visit shipped config.ledger).after.db
          (Event.id event)) config.ledger.db
          (bobAfterAda.visit shipped config.ledger).after.db := by
  have hplayed : (interleave unreachable (inTurn 0 [(webForm "1" firstDay "hi", 52)])).any
      (fun config => ((bobAfterAda.visit shipped config.ledger).after.db .events).any fun event =>
        Event.isValid event && Event.dedupeKey event ==
          Ingest.computeDedupeKey shipped (.str "web_form") (.str "2")) = true := by
    rw [interleave, shipped_eq_bucketed]
    decide +kernel
  obtain ⟨config, hconfig, hevents⟩ := (Option.any_eq_true _ _).mp hplayed
  obtain ⟨event, hevent, hfields⟩ := List.any_eq_true.mp hevents
  rw [Bool.and_eq_true, beq_iff_eq] at hfields
  obtain ⟨model, hvalid, hmodel⟩ : ∃ model, Schemas.validate shipped (texts [("source", "web_form"),
      ("external_event_id", "2"), ("received_at", firstDay), ("email", "bob@example.com"),
      ("message", "hi")]) = .ok model ∧
      (model.source == "web_form" && model.externalEventId == "2") = true :=
    exists_valid (by decide +kernel)
  rw [Bool.and_eq_true, beq_iff_eq, beq_iff_eq] at hmodel
  refine ⟨config, hconfig, event, hevent, ?_⟩
  refine ingest_spares_others (interleave_reachable hconfig) rfl hvalid
    (bobAfterAda.visit_runs shipped config.ledger) hevent ⟨hfields.1, ?_⟩
  rw [hfields.2, hmodel.1, hmodel.2]

end DemandSignal
