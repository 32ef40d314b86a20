import DemandSignal.Simulation
import DemandSignal.Spec.Worklist

/-!
# The dead letter worklist tells the truth

An event has an unresolved dead letter exactly when its last pipeline run has failed, as long as every
run that succeeds while a dead letter is open is a replay: nothing else closes one.
-/

namespace DemandSignal

open Txn

variable {app : App} {L : Ledger Db Write}

/-- The request takes an event through the pipeline whose dead letter is open, no replay, and the
provider does not fail it. -/
def Overlooks (app : App) (visit : ServiceVisit) : Prop :=
  ∃ event, Starts app visit.before.db visit.input event ∧ Unresolved event.id visit.before.db ∧
    Interpret.lastFails app visit.session.replies = false

theorem Moves.unresolved_iff {visits : List ServiceVisit} {visit : ServiceVisit}
    (h : Moves app visit) (hoverlooks : ¬ Overlooks app visit) {eventId : Uuid}
    (hbefore : Unresolved eventId visit.before.db ↔ lastOutcome app visits eventId = some .failed) :
    Unresolved eventId visit.after.db ↔
      lastOutcome app (visits ++ [visit]) eventId = some .failed := by
  rw [lastOutcome_append]
  cases h with
  | still houtcome hsame =>
      rw [houtcome, hsame, hbefore, Option.none_or]
  | @failed failed houtcome hopens =>
      rw [houtcome, hopens, hbefore]
      by_cases heq : eventId = failed
      · simp [heq]
      · simp [heq]
  | @completed event houtcome hstarts hlast hsame =>
      rw [houtcome, hsame]
      by_cases heq : eventId = event.id
      · have hclosed : ¬ Unresolved eventId visit.before.db := fun hopen =>
          hoverlooks ⟨event, hstarts, heq ▸ hopen, hlast⟩
        simp [heq] at hclosed ⊢
        exact hclosed
      · simp [heq, hbefore]
  | @replayed replayed houtcome hcloses =>
      rw [houtcome, hcloses, hbefore]
      by_cases heq : eventId = replayed
      · simp [heq]
      · simp [heq]

/-- **An event has an unresolved dead letter if and only if its last pipeline outcome was a failure**,
in every run that completes no pipeline of an event with an open dead letter but by a replay. -/
theorem worklist_truthful {visits : List ServiceVisit}
    (h : Served (service app) emptyLedger visits L)
    (htexts : ∀ visit ∈ visits, visit.input.Textual)
    (hreplies : ∀ visit ∈ visits, ∀ reply ∈ visit.session.replies, Interpret.harmless app reply = true)
    (hoverlooks : ∀ visit ∈ visits, ¬ Overlooks app visit) (eventId : Uuid) :
    Unresolved eventId L.db ↔ lastOutcome app visits eventId = some .failed := by
  have htextual := served_keeps h
    (fun L => ∀ event ∈ L.db .events, Interpret.textual (Event.rawPayload event) = true)
    (fun _ hevent => absurd hevent List.not_mem_nil) fun visit hvisit hhistory hbefore hvisited =>
      hvisited.textual hhistory.distinct (htexts visit hvisit) hbefore
  have hhistory := served_history h
  induction h with
  | nil => exact ⟨fun ⟨_, hdlq, _⟩ => absurd hdlq List.not_mem_nil, fun hlast => by cases hlast⟩
  | @snoc visits L i r s L' hserved hrun ih =>
      have hlast : (⟨i, L, r, s, L'⟩ : ServiceVisit) ∈ visits ++ [⟨i, L, r, s, L'⟩] :=
        List.mem_append_right _ (List.mem_singleton_self _)
      have hinit : ∀ visit ∈ visits, visit ∈ visits ++ [⟨i, L, r, s, L'⟩] :=
        fun visit hvisit => List.mem_append_left _ hvisit
      have hmoves : Moves app ⟨i, L, r, s, L'⟩ :=
        (visited_of_runs hrun).moves (hhistory.2 _ hlast).1 hhistory.1 htextual.1
          fun reply hreply => hreplies _ hlast reply (List.mem_of_getLast? hreply)
      refine hmoves.unresolved_iff (hoverlooks _ hlast) ?_
      exact ih (fun visit hvisit => htexts visit (hinit visit hvisit))
        (fun visit hvisit => hreplies visit (hinit visit hvisit))
        (fun visit hvisit => hoverlooks visit (hinit visit hvisit))
        ⟨(htextual.2 _ hlast).1, fun visit hvisit => htextual.2 visit (hinit visit hvisit)⟩
        ⟨(hhistory.2 _ hlast).1, fun visit hvisit => hhistory.2 visit (hinit visit hvisit)⟩

theorem not_overlooks {visit : ServiceVisit}
    (h : (∀ dlq ∈ visit.before.db .deadLetterQueue, DeadLetterQueue.resolved dlq = true) ∨
      visit.input.review = none ∧ ∀ body, visit.input ≠ .postEvent body) : ¬ Overlooks app visit := by
  rintro ⟨event, hstarts, ⟨dlq, hdlq, -, hopen⟩, -⟩
  rcases h with hclosed | ⟨hreview, hpost⟩
  · rw [hclosed dlq hdlq] at hopen
    cases hopen
  · generalize visit.input = request at hstarts hreview hpost
    cases hstarts with
    | created => exact hpost _ rfl
    | edited => exact hpost _ rfl
    | decided hdecides =>
        rw [hdecides.review] at hreview
        cases hreview

/-- A failure that is simulated and replayed, and an edit that fails. -/
def replayedFailure : List Turn :=
  failing [webForm "1" firstDay "hi", .simulateFailure true "interpret" (some 1),
    .replayEvent true (some 1), webForm "1" firstDay "what does it cost"]

theorem worklist_truthful_replayedFailure :
    ∃ L, Served (service shipped) emptyLedger (simulate shipped replayedFailure emptyLedger) L ∧
      (Unresolved 1 L.db ↔
        lastOutcome shipped (simulate shipped replayedFailure emptyLedger) 1 = some .failed) := by
  obtain ⟨htexts, hreplies⟩ :
      (∀ visit ∈ simulate shipped replayedFailure emptyLedger, visit.input.Textual) ∧
      ∀ visit ∈ simulate shipped replayedFailure emptyLedger,
        ∀ reply ∈ visit.session.replies, Interpret.harmless shipped reply = true := by
    rw [shipped_eq_bucketed]
    decide +kernel
  have hopen : ∀ visit ∈ simulate shipped replayedFailure emptyLedger,
      (∀ dlq ∈ visit.before.db .deadLetterQueue, DeadLetterQueue.resolved dlq = true) ∨
        visit.input = .replayEvent true (some 1) := by
    intro visit hvisit
    simp only [replayedFailure, failing, List.map_cons, List.map_nil, simulate, List.mem_cons,
      List.not_mem_nil, or_false] at hvisit
    obtain rfl | rfl | rfl | rfl := hvisit
    · exact .inl (by rw [shipped_eq_bucketed]; decide +kernel)
    · exact .inl (by rw [shipped_eq_bucketed]; decide +kernel)
    · exact .inr rfl
    · exact .inl (by rw [shipped_eq_bucketed]; decide +kernel)
  have hserved := simulate_served shipped replayedFailure
  refine ⟨_, hserved, worklist_truthful hserved htexts hreplies (fun visit hvisit => ?_) 1⟩
  refine not_overlooks ((hopen visit hvisit).imp_right fun hreplay => ?_)
  rw [hreplay]
  exact ⟨rfl, fun _ => by simp⟩

/-- A failed form that is edited into one too short to classify. -/
def editedFailure : List Turn :=
  failing [webForm "1" firstDay "what does it cost", webForm "1" firstDay "hi"]

theorem worklist_stale :
    ¬ ∀ visits L, Served (service shipped) emptyLedger visits L →
      (∀ visit ∈ visits, visit.input.Textual) →
      (∀ visit ∈ visits, ∀ reply ∈ visit.session.replies,
        Interpret.harmless shipped reply = true) →
      ∀ eventId, Unresolved eventId L.db ↔ lastOutcome shipped visits eventId = some .failed := by
  intro hall
  obtain ⟨htexts, hreplies, hopen, hcompleted⟩ :
      (∀ visit ∈ simulate shipped editedFailure emptyLedger, visit.input.Textual) ∧
      (∀ visit ∈ simulate shipped editedFailure emptyLedger,
        ∀ reply ∈ visit.session.replies, Interpret.harmless shipped reply = true) ∧
      Unresolved 1 (outcome shipped editedFailure emptyLedger).db ∧
      lastOutcome shipped (simulate shipped editedFailure emptyLedger) 1 = some .completed := by
    rw [shipped_eq_bucketed]
    decide +kernel
  have hfailed := (hall _ _ (simulate_served shipped editedFailure) htexts hreplies 1).mp hopen
  rw [hcompleted] at hfailed
  cases hfailed

end DemandSignal
