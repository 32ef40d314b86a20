import DemandSignal.Simulation
import DemandSignal.Spec.Replays

/-!
# Replaying history

A payload that was accepted once, whatever has become of its event since, brings nobody new when it
comes again.
-/

namespace DemandSignal

open Txn Resolve

variable {app : App} {L L' : Ledger Db Write} {visits : List ServiceVisit}

/-- **Replaying history never changes the lead count**: in a run that links nothing in vain, a payload
that some request of the run made a version of an event leaves the numbers of identities, leads, routes
and touches alone when it is posted again. -/
theorem replay_keeps_counts (h : Served (service app) emptyLedger visits L)
    (hvain : ∀ visit ∈ visits, ¬ LinksInVain visit.before visit.after) {visit : ServiceVisit}
    (hvisit : visit ∈ visits) {body : Option Body} (hinput : visit.input = .postEvent body)
    (haccepted : ∃ event ∈ visit.after.db .events, event ∉ visit.before.db .events ∧
      Event.isValid event = true)
    {r : Except Error Response} {s : Session Write Reply}
    (hreplay : Runs ((service app).solo (.postEvent body)) {} L (handle app (.postEvent body)) r s L') :
    ∀ t ∈ [Table.identities, .leads, .routes, .attributionTouches],
      (L'.db t).length = (L.db t).length := by
  have hhistory := served_history h
  have hvisited := served_visited h hvisit
  rw [hinput] at hvisited
  obtain ⟨event, hevent, hnew, hvalid⟩ := haccepted
  obtain ⟨payload, model, r₁, hbody, hmodel, hposted⟩ := hvisited.posted_of_new hevent hvalid hnew
  have hsettled : SettledFor app visit.after model :=
    hposted.settledFor (hhistory.2 visit hvisit).1 fun hsame => hnew (hsame ▸ hevent)
  obtain ⟨r₂, -, hreposted⟩ := (visited_of_runs hreplay).posted_of_valid hbody hmodel
  have hpersons := hreposted.samePersons hhistory.1 hmodel
    (hsettled.extends (served_extends h hvisit)) (served_led h hvain)
  intro t ht
  simpa using congrArg List.length (hpersons t ht)

/-- An engagement is parked and then edited, so that the rules link it. -/
def resent : List Turn :=
  failing [engagement, engagementOf "bob@example.com", webForm "1" firstDay "hi"]

theorem replay_keeps_counts_resent :
    ∃ r s L', Runs ((service shipped).solo engagement) {} (outcome shipped resent emptyLedger)
        (handle shipped engagement) r s L' ∧
      ∀ t ∈ [Table.identities, .leads, .routes, .attributionTouches],
        (L'.db t).length = ((outcome shipped resent emptyLedger).db t).length := by
  have hvain : ∀ visit ∈ simulate shipped resent emptyLedger,
      ¬ LinksInVain visit.before visit.after := by
    rw [shipped_eq_bucketed]
    decide +kernel
  have haccepted : ∃ event ∈ (Turn.visit shipped ⟨engagement, fun n => n, unreachable⟩
      emptyLedger).after.db .events, event ∉ emptyLedger.db .events ∧
        Event.isValid event = true := by
    rw [shipped_eq_bucketed]
    decide +kernel
  have hreplay := Turn.visit_runs shipped ⟨engagement, fun n => n, unreachable⟩
    (outcome shipped resent emptyLedger)
  exact ⟨_, _, _, hreplay, replay_keeps_counts (simulate_served shipped resent) hvain
    (List.mem_cons_self ..) rfl haccepted hreplay⟩

end DemandSignal
