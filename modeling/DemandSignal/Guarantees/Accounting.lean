import DemandSignal.Simulation
import DemandSignal.Spec.Accounting

/-!
# No accepted event is lost

After every request each accepted event has been acted on as it is stored, awaits review or has an
open dead letter, as long as no pipeline stops at a text that is no string or at a reply that cannot be
stored or scored.
-/

namespace DemandSignal

open Txn

variable {app : App} {L : Ledger Db Write}

/-- **Every accepted event is accounted for**, in every run whose requests strand none. -/
theorem events_accounted {visits : List ServiceVisit}
    (h : Served (service app) emptyLedger visits L)
    (hstrands : ∀ visit ∈ visits,
      ¬ Strands app visit.before.db visit.input visit.session.replies) : AllAccounted L :=
  (served_keeps h AllAccounted (fun _ hevent => absurd hevent List.not_mem_nil)
    fun visit hvisit hhistory hbefore hvisited =>
      hvisited.accounted hhistory (hstrands visit hvisit) hbefore).1

/-- A request over texts that hears harmless replies strands no event. -/
theorem not_strands {visit : ServiceVisit} (htext : visit.input.Textual)
    (htexts : ∀ event ∈ visit.before.db .events, Interpret.textual (Event.rawPayload event) = true)
    (hreplies : ∀ reply ∈ visit.session.replies, Interpret.harmless app reply = true) :
    ¬ Strands app visit.before.db visit.input visit.session.replies := by
  rintro ⟨event, hstarts, hstops, -, -⟩
  have htextual : Interpret.textual (Event.rawPayload event) = true := by
    generalize visit.input = request at hstarts htext
    cases hstarts with
    | @created body payload _ _ _ hbody => exact Request.Textual.payload htext hbody
    | @edited body payload _ _ hbody => exact Request.Textual.payload htext hbody
    | decided _ _ _ _ hevent => exact htexts event hevent
  rcases hstops with hnone | ⟨reply, hlast, hharm⟩
  · exact Interpret.extractText_ne_none htextual hnone
  · rw [hreplies reply (List.mem_of_getLast? hlast)] at hharm
    cases hharm

/-- A form whose classification fails, an engagement for a reviewer and the decision on it. -/
def accountedSignals : List Turn :=
  failing [webForm "1" firstDay "what does it cost", engagement,
    .resolveManualReview (some 1) "create_new" none]

theorem events_accounted_signals :
    ∃ L, Served (service shipped) emptyLedger (simulate shipped accountedSignals emptyLedger) L ∧
      AllAccounted L := by
  have htexts : ∀ visit ∈ simulate shipped accountedSignals emptyLedger, visit.input.Textual := by
    rw [shipped_eq_bucketed]
    decide +kernel
  have hstored : ∀ visit ∈ simulate shipped accountedSignals emptyLedger,
      ∀ event ∈ visit.before.db .events, Interpret.textual (Event.rawPayload event) = true := by
    rw [shipped_eq_bucketed]
    decide +kernel
  have hreplies : ∀ visit ∈ simulate shipped accountedSignals emptyLedger,
      ∀ reply ∈ visit.session.replies, Interpret.harmless shipped reply = true := by
    rw [shipped_eq_bucketed]
    decide +kernel
  have hserved := simulate_served shipped accountedSignals
  exact ⟨_, hserved, events_accounted hserved fun visit hvisit =>
    not_strands (htexts visit hvisit) (hstored visit hvisit) (hreplies visit hvisit)⟩

/-- The pipeline of the flagged form stops before it asks the provider, and nobody stands for it. -/
theorem events_stranded :
    ¬ ∀ visits L, Served (service shipped) emptyLedger visits L → AllAccounted L := by
  intro hall
  have hmem : ∃ event ∈ (outcome shipped (failing [flaggedForm]) emptyLedger).db .events,
      Event.isValid event = true := by
    rw [shipped_eq_bucketed]
    decide +kernel
  have hacts : acts (outcome shipped (failing [flaggedForm]) emptyLedger).log = [] := by
    rw [shipped_eq_bucketed]
    decide +kernel
  have hreviews : (outcome shipped (failing [flaggedForm]) emptyLedger).db .manualReviewQueue = [] := by
    rw [shipped_eq_bucketed]
    decide +kernel
  have hdlqs : (outcome shipped (failing [flaggedForm]) emptyLedger).db .deadLetterQueue = [] := by
    rw [shipped_eq_bucketed]
    decide +kernel
  obtain ⟨event, hevent, hvalid⟩ := hmem
  rcases hall _ _ (simulate_served shipped (failing [flaggedForm])) event hevent hvalid with
    hacted | ⟨review, hreview, -⟩ | ⟨dlq, hdlq, -⟩
  · obtain ⟨act, hact, -⟩ := hacted.exists_act
    rw [hacts] at hact
    cases hact
  · rw [hreviews] at hreview
    cases hreview
  · rw [hdlqs] at hdlq
    cases hdlq

end DemandSignal
