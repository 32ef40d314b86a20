import DemandSignal.Simulation
import DemandSignal.Spec.Mirrors

/-!
# First and last touch

The touch of an identity holds the first and the last of the events acted on for it, each at the
instant it carried when it was first acted on. The sticky `is_edit` stands in the way of an event that
is edited before anything has acted on it. Whatever instants it holds, a touch tells the sources and
campaigns of the events it names as they are.
-/

namespace DemandSignal

open Txn

variable {app : App} {L : Ledger Db Write}

/-- **First and last touch are the true extremes** in every run in which an edited event that is taken
up for the first time, by an identity that has a touch, lies between its first and its last touch. -/
theorem touches_extreme {visits : List (Visit Request Db Write Error Reply Response)}
    (h : Served (service app) emptyLedger visits L)
    (hintime : ∀ n (hn : n < L.log.length), InTime (firstActs (L.log.take n)) L.log[n]) :
    ∀ touch ∈ L.db .attributionTouches, Extremes (firstActs L.log) touch :=
  ((served_history h).1.touchesTold hintime).extremes

/-- Two events of one sender, the later one first. -/
def outOfOrder : List Turn := failing [webForm "2" secondDay "hi", webForm "1" firstDay "hi"]

theorem touches_extreme_outOfOrder :
    ∃ L, Served (service shipped) emptyLedger (simulate shipped outOfOrder emptyLedger) L ∧
      ∀ touch ∈ L.db .attributionTouches, Extremes (firstActs L.log) touch := by
  have hintime : ∀ n (hn : n < (outcome shipped outOfOrder emptyLedger).log.length),
      InTime (firstActs ((outcome shipped outOfOrder emptyLedger).log.take n))
        (outcome shipped outOfOrder emptyLedger).log[n] := by
    rw [shipped_eq_bucketed]
    decide +kernel
  have hserved := simulate_served shipped outOfOrder
  exact ⟨_, hserved, touches_extreme hserved hintime⟩

/-- An event is dead-lettered, a later one of its sender is acted on, and the first is edited into one
that needs no provider. -/
def editedWhileDead : List Turn :=
  failing [webForm "1" firstDay "what does it cost", webForm "2" secondDay "hi",
    webForm "1" firstDay "hi"]

theorem touches_not_extreme :
    ¬ ∀ visits L, Served (service shipped) emptyLedger visits L →
      ∀ touch ∈ L.db .attributionTouches, Extremes (firstActs L.log) touch := by
  intro hall
  have hmissed : ∃ touch ∈ (outcome shipped editedWhileDead emptyLedger).db .attributionTouches,
      ¬ Extremes (firstActs (outcome shipped editedWhileDead emptyLedger).log) touch := by
    rw [shipped_eq_bucketed]
    decide +kernel
  obtain ⟨touch, htouch, hnot⟩ := hmissed
  exact hnot (hall _ _ (simulate_served shipped editedWhileDead) touch htouch)

/-! ### The copies of sources and campaigns -/

/-- A touch is in order, and both its ends are as the events they name. -/
structure Copies (db : Db) (touch : AttributionTouch) : Prop where
  ordered : touch.firstTouchAt ≤ touch.lastTouchAt
  first : db.Mirrors touch.first
  last : db.Mirrors touch.last

theorem Db.Mirrored.copies {db : Db} (h : db.Mirrored none) {touch : AttributionTouch}
    (htouch : touch ∈ db .attributionTouches) : Copies db touch where
  ordered := (h touch htouch).ordered
  first := (h touch htouch).first (Option.some_ne_none _).symm
  last := (h touch htouch).last (Option.some_ne_none _).symm

/-- **Denormalized attribution never drifts** in a run that acts on every accepted event once it has its
identity, and edits no event while its review is pending. -/
theorem touches_mirror {visits : List (Visit Request Db Write Error Reply Response)}
    (h : Served (service app) emptyLedger visits L)
    (hacted : ∀ visit ∈ visits, ¬ Abandons visit.before visit.after)
    (hspares : ∀ visit ∈ visits, SparesReviews app visit.before.db visit.input) :
    (∀ touch ∈ L.db .attributionTouches, Copies L.db touch) ∧
      ∀ visit ∈ visits, ∀ touch ∈ visit.after.db .attributionTouches, Copies visit.after.db touch := by
  obtain ⟨⟨-, -, hlast⟩, hall⟩ := served_keeps h
    (fun L => L.db.Reviewed ∧ L.db.Owned ∧ L.db.Mirrored none)
    ⟨.empty, .empty, fun _ htouch => absurd htouch List.not_mem_nil⟩
    fun visit hvisit hhistory hbefore hvisited => by
      obtain ⟨hreviewed, howned, hmirrored⟩ := hbefore
      have hminds := (hspares visit hvisit).minds
      have hafter := hvisited.inOrder hhistory hminds hreviewed howned
      exact ⟨hafter.reviewed, hafter.owned,
        hvisited.mirrored hhistory hminds hreviewed howned (hacted visit hvisit) hmirrored⟩
  exact ⟨fun _ => hlast.copies, fun visit hvisit _ => (hall visit hvisit).2.2.2.copies⟩

def campaignForm (campaignId : String) : Request :=
  submit [("source", "web_form"), ("external_event_id", "1"), ("received_at", firstDay),
    ("email", "ada@example.com"), ("message", "hi"), ("campaign_id", campaignId)] (by simp)

/-- The first of two events of a sender is edited, fails by simulation, is edited again and replayed. -/
def campaigns : List Turn :=
  failing [campaignForm "spring", webForm "2" secondDay "hi", campaignForm "summer",
    .simulateFailure true "interpret" (some 1), campaignForm "autumn", .replayEvent true (some 1)]

theorem touches_mirror_campaigns :
    ∃ L, Served (service shipped) emptyLedger (simulate shipped campaigns emptyLedger) L ∧
      (∀ touch ∈ L.db .attributionTouches, Copies L.db touch) ∧
      ∀ visit ∈ simulate shipped campaigns emptyLedger,
        ∀ touch ∈ visit.after.db .attributionTouches, Copies visit.after.db touch := by
  obtain ⟨hacted, hspares⟩ :
      (∀ visit ∈ simulate shipped campaigns emptyLedger, ¬ Abandons visit.before visit.after) ∧
      ∀ visit ∈ simulate shipped campaigns emptyLedger,
        SparesReviews shipped visit.before.db visit.input := by
    rw [shipped_eq_bucketed]
    decide +kernel
  have hserved := simulate_served shipped campaigns
  exact ⟨_, hserved, touches_mirror hserved hacted hspares⟩

example : ((outcome shipped campaigns emptyLedger).db .attributionTouches).map
    AttributionTouch.firstTouchCampaignId = [some "autumn"] := by
  rw [shipped_eq_bucketed]
  decide +kernel

end DemandSignal
