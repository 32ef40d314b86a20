import DemandSignal.Simulation
import DemandSignal.Spec.Reviews

/-!
# Linked or awaiting review

An event that awaits review has no link, and a link never changes, as long as nobody edits an event
that awaits review into one that the rules link.
-/

namespace DemandSignal

open Txn Resolve

variable {app : App} {L : Ledger Db Write}

/-- The two queues exclude each other, and what carries an event's id belongs to the identity of its
link. -/
structure LinkedOrAwaiting (db : Db) : Prop where
  pending : ∀ review ∈ db .manualReviewQueue, ManualReviewQueue.status review = .pending →
    ∀ link ∈ db .identityLinks, IdentityLink.eventId link ≠ ManualReviewQueue.eventId review
  resolved : ∀ review ∈ db .manualReviewQueue, ManualReviewQueue.status review = .resolved →
    ((db .identityLinks).filter fun link =>
      IdentityLink.eventId link = ManualReviewQueue.eventId review).length = 1
  owned : ∀ eventId identityId, db.Attributed eventId identityId →
    Linked eventId identityId db ∧
      ∀ link ∈ db .identityLinks, IdentityLink.eventId link = eventId →
        IdentityLink.identityId link = identityId

theorem LinkedOrAwaiting.of_inOrder {db : Db} (hdistinct : db.Distinct) (hreviewed : db.Reviewed)
    (howned : db.Owned) : LinkedOrAwaiting db where
  pending review hreview hstatus := hreviewed.pending _ ⟨review, hreview, rfl, hstatus⟩
  resolved review hreview hstatus := by
    obtain ⟨identityId, link, hlink, hevent, -⟩ := hreviewed.resolved review hreview hstatus
    rw [hdistinct.filter_eq_singleton (t := .identityLinks) hlink (decide_eq_true hevent)]
    · rfl
    · exact fun other hother hsame => eq_of_eventId hdistinct hother hlink
        ((of_decide_eq_true hsame).trans hevent.symm)
  owned eventId identityId hattributed := by
    have hlinked := howned eventId identityId hattributed
    refine ⟨hlinked, fun link hlink hevent => ?_⟩
    obtain ⟨held, hheld, hheldEvent, hidentity⟩ := hlinked
    rw [eq_of_eventId hdistinct hlink hheld (hevent.trans hheldEvent.symm), hidentity]

/-- **An event is never both linked and awaiting review, and its link is final**, in every run whose
edits of events that await review leave them to the reviewer. -/
theorem links_final {visits : List (Visit Request Db Write Error Reply Response)}
    (h : Served (service app) emptyLedger visits L)
    (hminds : ∀ visit ∈ visits, MindsReviews app visit.before.db visit.input) :
    LinkedOrAwaiting L.db ∧ ∀ visit ∈ visits, LinksStay visit.before.db visit.after.db := by
  obtain ⟨⟨hreviewed, howned⟩, hall⟩ := served_keeps h (fun L => L.db.Reviewed ∧ L.db.Owned)
    ⟨.empty, .empty⟩
    fun visit hvisit hhistory hbefore hvisited =>
      have hafter := hvisited.inOrder hhistory (hminds visit hvisit) hbefore.1 hbefore.2
      ⟨hafter.reviewed, hafter.owned⟩
  have hhistory := served_history h
  refine ⟨.of_inOrder hhistory.1.distinct hreviewed howned, fun visit hvisit => ?_⟩
  have hbefore := (hall visit hvisit).1
  exact ((served_visited h hvisit).inOrder (hhistory.2 visit hvisit).1 (hminds visit hvisit) hbefore.1
    hbefore.2).stay

/-- An engagement of nobody is parked, and its reviewer makes an identity for it. -/
def reviewedEngagement : List Turn :=
  failing [engagement, .resolveManualReview (some 3) "create_new" none]

theorem links_final_reviewedEngagement :
    ∃ L, Served (service shipped) emptyLedger (simulate shipped reviewedEngagement emptyLedger) L ∧
      LinkedOrAwaiting L.db ∧
      ∀ visit ∈ simulate shipped reviewedEngagement emptyLedger,
        LinksStay visit.before.db visit.after.db := by
  have hminds : ∀ visit ∈ simulate shipped reviewedEngagement emptyLedger,
      MindsReviews shipped visit.before.db visit.input := by
    rw [shipped_eq_bucketed]
    decide +kernel
  have hserved := simulate_served shipped reviewedEngagement
  exact ⟨_, hserved, links_final hserved hminds⟩

/-- A parked engagement is edited into one with an email. -/
def editedBeforeReview : List Turn := failing [engagement, engagementOf "ada@example.com"]

theorem linked_and_awaiting :
    ¬ ∀ visits L, Served (service shipped) emptyLedger visits L →
      LinkedOrAwaiting L.db ∧ ∀ visit ∈ visits, LinksStay visit.before.db visit.after.db := by
  intro hall
  have hlinked : ∃ review ∈ (outcome shipped editedBeforeReview emptyLedger).db .manualReviewQueue,
      ManualReviewQueue.status review = .pending ∧
      ∃ link ∈ (outcome shipped editedBeforeReview emptyLedger).db .identityLinks,
        IdentityLink.eventId link = ManualReviewQueue.eventId review := by
    rw [shipped_eq_bucketed]
    decide +kernel
  obtain ⟨review, hreview, hstatus, link, hlink, hevent⟩ := hlinked
  exact (hall _ _ (simulate_served shipped editedBeforeReview)).1.pending review hreview hstatus link
    hlink hevent

end DemandSignal
