import DemandSignal.Simulation
import DemandSignal.Spec.Deliveries

/-!
# Attribution and the order of delivery

Two orders of the same events give one attribution if and only if they agree on which of the earliest
events comes first, and which of the latest. Ties are decided by the delivery.
-/

namespace DemandSignal

open Txn

variable {app : App} {L₀ L L₀' L' : Ledger Db Write} {before before' : List ServiceVisit}
  {identityId identityId' : Uuid} {models models' : List EventIn}

/-- **Attribution is independent of delivery order** if and only if both orders deliver first the same
of the earliest events and the same of the latest. -/
theorem attribution_order_iff (hbefore : Served (service app) emptyLedger before L₀)
    (hbefore' : Served (service app) emptyLedger before' L₀')
    (hfree : ∀ touch ∈ L₀.db .attributionTouches, AttributionTouch.identityId touch ≠ identityId)
    (hfree' : ∀ touch ∈ L₀'.db .attributionTouches, AttributionTouch.identityId touch ≠ identityId')
    (h : Delivers app L₀ identityId models L) (h' : Delivers app L₀' identityId' models' L')
    (hperm : models.Perm models') :
    L.db.attribution identityId = L'.db.attribution identityId' ↔
      models.argmin EventIn.receivedAt = models'.argmin EventIn.receivedAt ∧
        models.argmax EventIn.receivedAt = models'.argmax EventIn.receivedAt := by
  obtain ⟨visits, hserved⟩ := h.served hbefore
  obtain ⟨visits', hserved'⟩ := h'.served hbefore'
  have hattributed := h.attributed hbefore hfree
  have hattributed' := h'.attributed hbefore' hfree'
  rw [hattributed.attribution (served_history hserved).1.distinct,
    hattributed'.attribution (served_history hserved').1.distinct]
  refine ⟨fun hsame => ?_, fun hends => by rw [hends.1, hends.2]⟩
  -- an event of the one order that looks like one of the other is the same
  have heq : ∀ one ∈ models, ∀ other ∈ models', one.view = other.view → one = other := by
    intro one hone other hother hview
    exact List.inj_on_of_nodup_map hattributed.nodup hone (hperm.mem_iff.mpr hother)
      (Option.some_injective _ (congrArg TouchView.pair hview))
  by_cases hnil : models = []
  · subst hnil
    rw [← hperm.nil_eq]
    exact ⟨rfl, rfl⟩
  have hnil' : models' ≠ [] := fun hempty => hnil (hempty ▸ hperm).eq_nil
  obtain ⟨touch, htouch, hidentity⟩ := hattributed.touched hnil
  obtain ⟨first, hfirst, last, hlast, -, -⟩ := hattributed.points touch htouch hidentity
  obtain ⟨touch', htouch', hidentity'⟩ := hattributed'.touched hnil'
  obtain ⟨first', hfirst', last', hlast', -, -⟩ := hattributed'.points touch' htouch' hidentity'
  rw [Option.mem_def.mp hfirst, Option.mem_def.mp hlast, Option.mem_def.mp hfirst',
    Option.mem_def.mp hlast'] at hsame ⊢
  obtain ⟨hfirstView, hlastView⟩ := Prod.mk.inj (Option.some_injective _ hsame)
  rw [heq first (List.argmin_mem hfirst) first' (List.argmin_mem hfirst') hfirstView,
    heq last (List.argmax_mem hlast) last' (List.argmax_mem hlast') hlastView]
  exact ⟨rfl, rfl⟩

/-! ### Two forms -/

/-- A form of the sender, served while the provider cannot be reached. -/
def formTurn (externalEventId receivedAt : String) : Turn :=
  ⟨webForm externalEventId receivedAt "hi", fun n => n, unreachable⟩

/-- The schema makes the model of the form. -/
def FormModel (externalEventId receivedAt : String) (model : EventIn) : Prop :=
  Schemas.validate shipped (texts [("source", "web_form"), ("external_event_id", externalEventId),
    ("received_at", receivedAt), ("email", "ada@example.com"), ("message", "hi")]) = .ok model

/-- The answer tells of a new event that was taken through the pipeline for the identity. -/
def takenFor (identityId : Uuid) : Except Error Response → Bool
  | .ok (.ingest (200, answer)) => !answer.isEdit && answer.identityId = some identityId
  | _ => false

theorem Delivers.form (h : Delivers shipped L₀ identityId models L) {model : EventIn}
    {externalEventId receivedAt : String} (hmodel : FormModel externalEventId receivedAt model)
    (htaken : takenFor identityId ((formTurn externalEventId receivedAt).visit shipped L).result =
      true) : Delivers shipped L₀ identityId (models ++ [model])
        ((formTurn externalEventId receivedAt).visit shipped L).after := by
  have hrun := (formTurn externalEventId receivedAt).visit_runs shipped L
  generalize ((formTurn externalEventId receivedAt).visit shipped L).result = r at hrun htaken
  unfold takenFor at htaken
  split at htaken
  · rw [Bool.and_eq_true, decide_eq_true_iff] at htaken
    exact h.snoc rfl hmodel hrun (by simpa using htaken.1) htaken.2
  · cases htaken

/-- The ledger after two forms. -/
def afterForms (one other : String × String) : Ledger Db Write :=
  ((formTurn other.1 other.2).visit shipped
    ((formTurn one.1 one.2).visit shipped emptyLedger).after).after

/-- Two forms that are taken through the pipeline for the identity are delivered. -/
theorem delivers_afterForms {one other : EventIn} {first second : String × String}
    {identityId : Uuid} (hone : FormModel first.1 first.2 one)
    (hother : FormModel second.1 second.2 other)
    (htaken : (takenFor identityId ((formTurn first.1 first.2).visit shipped emptyLedger).result &&
      takenFor identityId ((formTurn second.1 second.2).visit shipped
        ((formTurn first.1 first.2).visit shipped emptyLedger).after).result) = true) :
    Delivers shipped emptyLedger identityId [one, other] (afterForms first second) := by
  rw [Bool.and_eq_true] at htaken
  exact (Delivers.nil.form hone htaken.1).form hother htaken.2

theorem attribution_order_iff_twoDays :
    ∃ one other L L', one ≠ other ∧ Delivers shipped emptyLedger 3 [one, other] L ∧
      Delivers shipped emptyLedger 3 [other, one] L' ∧ L.db.attribution 3 = L'.db.attribution 3 := by
  obtain ⟨one, hone, hfirst⟩ : ∃ model, FormModel "1" firstDay model ∧
    (model.receivedAt = 1767225600000000 : Bool) = true := exists_valid (by decide +kernel)
  obtain ⟨other, hother, hsecond⟩ : ∃ model, FormModel "2" secondDay model ∧
    (model.receivedAt = 1767312000000000 : Bool) = true := exists_valid (by decide +kernel)
  rw [decide_eq_true_iff] at hfirst hsecond
  have h : Delivers shipped emptyLedger 3 [one, other]
      (afterForms ("1", firstDay) ("2", secondDay)) :=
    delivers_afterForms hone hother (by rw [shipped_eq_bucketed]; decide +kernel)
  have h' : Delivers shipped emptyLedger 3 [other, one]
      (afterForms ("2", secondDay) ("1", firstDay)) :=
    delivers_afterForms hother hone (by rw [shipped_eq_bucketed]; decide +kernel)
  have hne : one ≠ other := by
    rintro rfl
    rw [hfirst] at hsecond
    cases hsecond
  refine ⟨one, other, _, _, hne, h, h', ?_⟩
  refine (attribution_order_iff .nil .nil (fun _ htouch => absurd htouch List.not_mem_nil)
    (fun _ htouch => absurd htouch List.not_mem_nil) h h' (.swap _ _ _)).mpr ?_
  simp [List.argmin_cons, List.argmax_cons, hfirst, hsecond]

theorem attribution_depends_on_order :
    ¬ ∀ before before' L₀ L₀' identityId identityId' models models' L L',
      Served (service shipped) emptyLedger before L₀ →
      Served (service shipped) emptyLedger before' L₀' →
      (∀ touch ∈ L₀.db .attributionTouches, AttributionTouch.identityId touch ≠ identityId) →
      (∀ touch ∈ L₀'.db .attributionTouches, AttributionTouch.identityId touch ≠ identityId') →
      Delivers shipped L₀ identityId models L → Delivers shipped L₀' identityId' models' L' →
      models.Perm models' → L.db.attribution identityId = L'.db.attribution identityId' := by
  intro hall
  obtain ⟨one, hone, -⟩ : ∃ model, FormModel "1" firstDay model ∧ true = true :=
    exists_valid (p := fun _ => true) (by decide +kernel)
  obtain ⟨other, hother, -⟩ : ∃ model, FormModel "2" firstDay model ∧ true = true :=
    exists_valid (p := fun _ => true) (by decide +kernel)
  have h : Delivers shipped emptyLedger 3 [one, other]
      (afterForms ("1", firstDay) ("2", firstDay)) :=
    delivers_afterForms hone hother (by rw [shipped_eq_bucketed]; decide +kernel)
  have h' : Delivers shipped emptyLedger 3 [other, one]
      (afterForms ("2", firstDay) ("1", firstDay)) :=
    delivers_afterForms hother hone (by rw [shipped_eq_bucketed]; decide +kernel)
  have hsame := hall _ _ _ _ 3 3 _ _ _ _ .nil .nil (fun _ htouch => absurd htouch List.not_mem_nil)
    (fun _ htouch => absurd htouch List.not_mem_nil) h h' (.swap _ _ _)
  exact absurd hsame (by rw [afterForms, afterForms, shipped_eq_bucketed]; decide +kernel)

end DemandSignal
