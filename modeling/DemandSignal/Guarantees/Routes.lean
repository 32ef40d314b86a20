import DemandSignal.Simulation
import DemandSignal.Spec.Routes

/-!
# Routes explain scores

The route of a lead is the one the routing table gives for the score of the lead's source event.
-/

namespace DemandSignal

open Txn

variable {app : App} {L : Ledger Db Write}

/-- The lead has one route, its source event has one score, and the one explains the other. -/
def RouteExplained (app : App) (db : Db) (lead : Lead) : Prop :=
  ∃ route score, ((db .routes).filter fun route => Route.leadId route = lead.id) = [route] ∧
    ((db .scores).filter fun score => Score.eventId score = lead.sourceEventId) = [score] ∧
    Route.Fits app route score

theorem Db.Explained.routeExplained {db : Db} (h : db.Explained app) (hdistinct : db.Distinct)
    (hrouted : db.LeadsRouted) {lead : Lead} (hlead : lead ∈ db .leads) :
    RouteExplained app db lead := by
  obtain ⟨route, hroute, hleadId⟩ := List.mem_map.mp
    ((hrouted lead.id).mp (List.mem_map_of_mem (f := Lead.id) hlead))
  obtain ⟨score, hscore, hevent, hfits⟩ := h lead hlead route hroute hleadId
  refine ⟨route, score, ?_, ?_, hfits⟩
  · refine hdistinct.filter_eq_singleton (t := .routes) hroute (decide_eq_true hleadId)
      fun other hother hsame => ?_
    have hkey : Key.routeLead lead.id ∈ Row.indexed (t := .routes) other := by
      rw [Row.indexed, of_decide_eq_true hsame]
      exact List.mem_singleton_self _
    refine hdistinct.eq_of_indexed (t := .routes) hother hroute hkey ?_
    rw [Row.indexed, hleadId]
    exact List.mem_singleton_self _
  · refine hdistinct.filter_eq_singleton (t := .scores) hscore (decide_eq_true hevent)
      fun other hother hsame => ?_
    have hkey : Key.scoreEvent lead.sourceEventId ∈ Row.indexed (t := .scores) other := by
      rw [Row.indexed, of_decide_eq_true hsame]
      exact List.mem_singleton_self _
    refine hdistinct.eq_of_indexed (t := .scores) hother hscore hkey ?_
    rw [Row.indexed, hevent]
    exact List.mem_singleton_self _

/-- **A lead's route always explains its score**, after every request of a run that edits no event
that awaits review. -/
theorem routes_explained {visits : List (Visit Request Db Write Error Reply Response)}
    (h : Served (service app) emptyLedger visits L)
    (hspares : ∀ visit ∈ visits, SparesReviews app visit.before.db visit.input) :
    ∀ lead ∈ L.db .leads, RouteExplained app L.db lead := by
  have hkept := served_keeps h (fun L => L.db.Reviewed ∧ L.db.Owned ∧ L.db.Explained app)
    ⟨.empty, .empty, fun _ hlead => absurd hlead List.not_mem_nil⟩
    fun visit hvisit hhistory hbefore hvisited =>
      have hminds := (hspares visit hvisit).minds
      have hafter := hvisited.inOrder hhistory hminds hbefore.1 hbefore.2.1
      ⟨hafter.reviewed, hafter.owned,
        hvisited.explained hhistory hminds hbefore.1 hbefore.2.1 hbefore.2.2⟩
  have hhistory := (served_history h).1
  exact fun lead hlead =>
    hkept.1.2.2.routeExplained hhistory.distinct (hhistory.leadsRouted lawful_still) hlead

/-- Two forms of one sender; the first is sent again, and then edited into one that is dead-lettered. -/
def editedLead : List Turn :=
  failing [webForm "1" firstDay "hi", webForm "2" secondDay "hi", webForm "1" firstDay "hi",
    webForm "1" firstDay "what does it cost"]

theorem routes_explained_editedLead :
    ∃ L, Served (service shipped) emptyLedger (simulate shipped editedLead emptyLedger) L ∧
      ∀ lead ∈ L.db .leads, RouteExplained shipped L.db lead := by
  have hspares : ∀ visit ∈ simulate shipped editedLead emptyLedger,
      SparesReviews shipped visit.before.db visit.input := by
    rw [shipped_eq_bucketed]
    decide +kernel
  have hserved := simulate_served shipped editedLead
  exact ⟨_, hserved, routes_explained hserved hspares⟩

end DemandSignal
