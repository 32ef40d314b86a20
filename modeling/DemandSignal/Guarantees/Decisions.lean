import DemandSignal.Simulation
import DemandSignal.Spec.Decisions

/-!
# Two endpoints for one decision

The JSON endpoint validates the decision of a reviewer. The HTML form does not, and what is no merge
makes an identity.
-/

namespace DemandSignal

open Txn

variable {app : App} {L : Ledger Db Write}

/-- Served alone, the request can hear `heard` and leave the database `db`. -/
def Leaves (app : App) (L : Ledger Db Write) (request : Request) (heard : List Reply) (db : Db) : Prop :=
  ∃ L', Outcome ((service app).solo request) {} L (handle app request) heard L' ∧ L'.db = db

/-- Two requests can leave the same databases, whatever the provider tells both. -/
def Agree (app : App) (L : Ledger Db Write) (request other : Request) : Prop :=
  ∀ heard db, Leaves app L request heard db ↔ Leaves app L other heard db

theorem Agree.of_sameOutcomes {request other : Request}
    (h : SameOutcomes ((service app).solo request) {} L (handle app request) (handle app other)) :
    Agree app L request other := fun heard _ =>
  ⟨fun ⟨L', houtcome, hdb⟩ => ⟨L', (h heard L').mp houtcome, hdb⟩,
    fun ⟨L', houtcome, hdb⟩ => ⟨L', (h heard L').mpr houtcome, hdb⟩⟩

/-- Served alone, the request changes nothing. -/
def ChangesNothing (app : App) (L : Ledger Db Write) (request : Request) : Prop :=
  ∀ heard db, Leaves app L request heard db → db = L.db

namespace ManualReview

variable {reviewId : Option Uuid} {decision : String} {choice : Option (Option Uuid)}

theorem json_sameOutcomes (request : Request) :
    SameOutcomes ((service app).solo request) {} L
      (handle app (.resolveManualReview reviewId decision choice))
      (resolveManualReview app reviewId decision choice) :=
  .bind_stops _ fun _ => Program.stops_ret _

theorem form_sameOutcomes (request : Request) :
    SameOutcomes ((service app).solo request) {} L (handle app (.resolveForm reviewId decision choice))
      (resolveForm app reviewId decision choice) :=
  .bind_stops _ fun _ => Program.stops_ret _

theorem json_changesNothing
    (h : decision = "merge_into" ∨ decision = "create_new" → NotPending reviewId L.db) :
    ChangesNothing app L (.resolveManualReview reviewId decision choice) := by
  rintro heard db ⟨L', houtcome, rfl⟩
  obtain ⟨r, s', hrun, -⟩ := (json_sameOutcomes _ heard L').mp houtcome
  rw [(resolveManualReview_inert rfl h r s' L' hrun).1]

theorem form_changesNothing (h : NotPending reviewId L.db) :
    ChangesNothing app L (.resolveForm reviewId decision choice) := by
  rintro heard db ⟨L', houtcome, rfl⟩
  obtain ⟨r, s', hrun, -⟩ := (form_sameOutcomes _ heard L').mp houtcome
  rw [(resolveForm_inert rfl h r s' L' hrun).1]

/-- Both endpoints leave a review that is not pending alone. -/
theorem agree_of_notPending (h : NotPending reviewId L.db) :
    Agree app L (.resolveManualReview reviewId decision choice)
      (.resolveForm reviewId decision choice) := by
  refine .of_sameOutcomes ((json_sameOutcomes _).trans (.trans ?_ (form_sameOutcomes _).symm))
  have hanswers : ∀ q : Question, ∃ reply : Reply, (service app).Answers q reply :=
    fun _ => ⟨.failed false "", trivial⟩
  have hruns : ∀ {α : Type} (p : Prog α), ∃ r s' L',
      Runs ((service app).solo (.resolveManualReview reviewId decision choice)) {} L p r s' L' :=
    fun p => exists_run (fun _ => id) (fun _ => id) (fun _ _ _ => trivial) hanswers p {} L
  intro heard L'
  rw [(resolveManualReview_inert rfl fun _ => h).outcome_iff (hruns _),
    (resolveForm_inert rfl h).outcome_iff (hruns _)]

theorem agree_of_pending (hdistinct : L.db.Distinct) {review : ManualReviewQueue}
    (hreview : review ∈ L.db .manualReviewQueue) (hstatus : review.status = .pending)
    (hdecision : decision = "merge_into" ∨ decision = "create_new") :
    Agree app L (.resolveManualReview (some review.id) decision choice)
      (.resolveForm (some review.id) decision choice) :=
  .of_sameOutcomes ((json_sameOutcomes _).trans
    ((pending_sameOutcomes hdistinct hreview hstatus hdecision).trans (form_sameOutcomes _).symm))

/-- The form makes an identity of any decision that it does not know. -/
theorem not_agree (hdistinct : L.db.Distinct) {review : ManualReviewQueue}
    (hreview : review ∈ L.db .manualReviewQueue) (hstatus : review.status = .pending)
    (hunknown : ¬ (decision = "merge_into" ∨ decision = "create_new")) :
    ¬ Agree app L (.resolveManualReview (some review.id) decision choice)
      (.resolveForm (some review.id) decision choice) := by
  intro hagree
  obtain ⟨r, s', L', hserved⟩ := exists_served app (.resolveForm (some review.id) decision choice) L
  have houtcome : Outcome ((service app).solo (.resolveForm (some review.id) decision choice)) {} L
      (handle app (.resolveForm (some review.id) decision choice)) s'.replies L' := ⟨r, s', hserved, rfl⟩
  obtain ⟨r', s'', hrun, -⟩ := (form_sameOutcomes _ _ L').mp houtcome
  have hchanges := resolveForm_changes hdistinct hreview hstatus (fun h => hunknown (.inl h)) hrun
  exact hchanges (json_changesNothing (absurd · hunknown) _ _
    ((hagree s'.replies L'.db).mpr ⟨L', houtcome, rfl⟩))

end ManualReview

end DemandSignal
