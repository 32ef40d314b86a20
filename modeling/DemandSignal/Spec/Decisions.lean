import DemandSignal.Spec.History
import DemandSignal.Txn.Outcomes

/-!
# Decisions on reviews

What the two endpoints that take a reviewer's decision can do, each served alone.
-/

namespace DemandSignal

open Txn Program

variable {app : App} {request : Request} {s : Session Write Reply} {L : Ledger Db Write}
  {reviewId : Option Uuid} {decision : String} {choice : Option (Option Uuid)}

/-- A program alone extends the history. -/
theorem wp_extends {Answers : Question → Reply → Prop} {α : Type} (p : Prog α)
    (s : Session Write Reply) (L : Ledger Db Write) :
    wp (alone Answers fun _ _ => True) p (fun _ _ L' => Extends L L') s L := by
  induction p generalizing s L with
  | ret a => exact .refl
  | raise x => exact .refl
  | read q k ih =>
      rintro _ rfl t - -
      exact ih _ _ _
  | write f k ih =>
      rintro _ rfl t -
      exact ⟨fun b _ _ => ih _ _ _, fun w b _ _ _ => ih _ _ _, fun w b _ _ _ => ⟨trivial, ih _ _ _⟩⟩
  | commit k ih =>
      rintro L' rfl
      exact ⟨trivial, wp_mono (fun _ _ _ h => (Extends.commit L' s.pending).trans h) (ih _ _)⟩
  | rollback k ih =>
      rintro _ rfl
      exact ih _ _
  | uuid k ih =>
      rintro _ rfl u - -
      exact ih _ _ _
  | now k ih =>
      rintro _ rfl t -
      exact ih _ _ _
  | ask q k ih =>
      rintro _ rfl a -
      exact ih _ _ _

/-- The review has been decided, or there is none. -/
def NotPending (reviewId : Option Uuid) (db : Db) : Prop :=
  ∀ review ∈ db .manualReviewQueue, ManualReviewQueue.status review = .pending →
    reviewId ≠ some (ManualReviewQueue.id review)

namespace ManualReview

/-- Nothing happens to a review that is not pending. -/
theorem Ends.inert {rules : Rules Db Write Question Reply}
    (hrules : rules = alone (service app).Answers fun _ _ => True) (hpending : NotPending reviewId L.db)
    {s' : Session Write Reply} {L' : Ledger Db Write}
    (h : Ends app rules still s L reviewId decision choice s' L') : L' = L ∧ s'.replies = s.replies := by
  subst hrules
  have hnot : ∀ L₁ ws review identityId, Before (alone (service app).Answers fun _ _ => True) s.own L L₁ →
      reviewId = some review.id → ¬ Resolve.Resolves still L₁ decision review identityId ws := by
    intro L₁ ws review identityId hbefore hid hresolves
    obtain rfl := before_alone.mp hbefore
    cases hresolves with
    | merged h => exact hpending review h.1 h.2 hid
    | created h => exact hpending review h.1 h.2 hid
  cases h with
  | refused hbefore hquiet => exact ⟨before_alone.mp hbefore, hquiet⟩
  | resolved hbefore hid _ hresolves => exact absurd hresolves (hnot _ _ _ _ hbefore hid)
  | piped hbefore hid _ hresolves => exact absurd hresolves (hnot _ _ _ _ hbefore hid)
  | raced hraced => exact absurd hraced not_raced_alone

theorem resolveForm_inert (hs : s.pending = []) (hpending : NotPending reviewId L.db) :
    Inert ((service app).solo request) s L (resolveForm app reviewId decision choice) := by
  intro r s' L' hrun
  refine hrun.of_wp (fun _ s' L' => L' = L ∧ s'.replies = s.replies) ?_
  exact wp_resolveForm fair_alone hs (fun _ _ _ _ _ => trivial) fun _ _ _ hends =>
    hends.inert rfl hpending

theorem resolveManualReview_inert (hs : s.pending = [])
    (hpending : decision = "merge_into" ∨ decision = "create_new" → NotPending reviewId L.db) :
    Inert ((service app).solo request) s L (resolveManualReview app reviewId decision choice) := by
  intro r s' L' hrun
  refine hrun.of_wp (fun _ s' L' => L' = L ∧ s'.replies = s.replies) ?_
  exact wp_resolveManualReview fair_alone hs (fun _ _ _ _ _ => trivial)
    (fun _ _ _ hbefore hquiet => ⟨before_alone.mp hbefore, hquiet⟩)
    fun hdecision _ _ _ hends => hends.inert rfl (hpending hdecision)

/-- The two endpoints go on alike from a review they have found pending. -/
theorem decide_sameOutcomes {β γ : Type} {identityId : Option Uuid} {id : Uuid}
    {refuse : Resolve.ReviewError → Prog β} {absent : Resolve.ResolvedReview → Prog β}
    {answer : Resolve.ResolvedReview → Option Pipeline.Outcome → Prog β}
    {refuse' : Resolve.ReviewError → Prog γ} {absent' : Resolve.ResolvedReview → Prog γ}
    {answer' : Resolve.ResolvedReview → Option Pipeline.Outcome → Prog γ}
    (hrefuse : ∀ error, (refuse error).Stops ∧ (refuse' error).Stops)
    (habsent : ∀ result, (absent result).Stops ∧ (absent' result).Stops)
    (hanswer : ∀ result outcome, (answer result outcome).Stops ∧ (answer' result outcome).Stops) :
    SameOutcomes ((service app).solo request) s L
      ((Resolve.resolveReview id decision identityId).bind fun r => match r with
        | .error error => refuse error
        | .ok result => (find .events fun event => event.id = result.eventId).bind fun r => match r with
          | none => absent result
          | some event =>
              (Pipeline.runDownstream app event result.identityId).bind (answer result))
      ((Resolve.resolveReview id decision identityId).bind fun r => match r with
        | .error error => refuse' error
        | .ok result => (find .events fun event => event.id = result.eventId).bind fun r => match r with
          | none => absent' result
          | some event =>
              (Pipeline.runDownstream app event result.identityId).bind (answer' result)) := by
  refine .bind fun r s₁ L₁ _ => ?_
  cases r with
  | error error => exact .of_stops (hrefuse error).1 (hrefuse error).2
  | ok result =>
      refine .bind fun found s₂ L₂ _ => ?_
      cases found with
      | none => exact .of_stops (habsent result).1 (habsent result).2
      | some event =>
          refine .bind fun outcome s₃ L₃ _ => ?_
          exact .of_stops (hanswer result outcome).1 (hanswer result outcome).2

/-- With a decision that both know, on a pending review, the endpoints have the same outcomes. -/
theorem pending_sameOutcomes (hdistinct : L.db.Distinct) {review : ManualReviewQueue}
    (hreview : review ∈ L.db .manualReviewQueue) (hstatus : review.status = .pending)
    (hdecision : decision = "merge_into" ∨ decision = "create_new") :
    SameOutcomes ((service app).solo request) {} L
      (resolveManualReview app (some review.id) decision choice)
      (resolveForm app (some review.id) decision choice) := by
  unfold resolveManualReview resolveForm
  simp only [bind_eq, pure_eq]
  rw [if_pos hdecision]
  simp only [boundId, ret_bind]
  refine .bind fun found s₁ L₁ hrun => ?_
  have hfound : ∀ entry, found = some entry → entry = review := by
    intro entry hentry
    refine hrun.of_wp (fun r s₁ L₁ => r = .ok (some entry) → entry = review) ?_ (congrArg _ hentry)
    rintro _ rfl _ _ _ hr
    have hfind := Except.ok.inj hr
    have hid : Row.id (t := .manualReviewQueue) entry = review.id := by
      simpa using List.find?_some hfind
    exact hdistinct.eq_of_id (t := .manualReviewQueue) (List.mem_of_find?_eq_some hfind) hreview hid
  cases found with
  | none => exact .of_stops (stops_raise _) (stops_ret _)
  | some entry =>
      obtain rfl := hfound entry rfl
      simp only [hstatus, ne_eq, not_true_eq_false, if_false]
      refine .bind fun target s₂ L₂ _ => decide_sameOutcomes (fun error => ⟨stops_raise _, ?_⟩)
        (fun _ => ⟨stops_raise _, stops_ret _⟩) fun result outcome => ⟨?_, stops_ret _⟩
      · cases error <;> exact stops_ret _
      · cases outcome <;> exact stops_ret _

/-- A form with any decision but a merge decides a pending review. -/
theorem wp_resolveForm_decided (hdistinct : L.db.Distinct) {review : ManualReviewQueue}
    (hreview : review ∈ L.db .manualReviewQueue) (hstatus : review.status = .pending)
    (hdecision : decision ≠ "merge_into") :
    wp (alone (service app).Answers fun _ _ => True) (resolveForm app (some review.id) decision choice)
      (fun _ _ L' => ∃ identityId ws, Resolve.Resolves still L decision review identityId ws ∧
        Applicable ws L.db ∧ Extends (L.commit ws) L') {} L := by
  have hchoice : mergeTarget decision choice = .ret none := by
    unfold mergeTarget
    split
    · rfl
    · rw [if_neg hdecision]
  unfold resolveForm Resolve.findReview
  simp only [bind_eq, pure_eq, boundId, ret_bind, wp_bind, hchoice]
  refine wp_find fair_alone (.of_idle rfl L) (by simp) (fun s₁ L₁ now₁ entry h₁ _ _ => ?_)
    fun s₁ L₁ now₁ h₁ hnone => ?_
  · obtain rfl := before_alone.mp h₁.before
    simp only [Post.andThen_ok, wp_bind]
    refine Resolve.wp_resolveReview_claim h₁.pending (fun s₂ L₂ error _ _ _ _ hdeclines => ?_) ?_
    · obtain hmerge | ⟨L₃, hbefore, hnone⟩ := hdeclines
      · exact absurd hmerge hdecision
      · obtain rfl := before_alone.mp hbefore
        exact absurd hstatus (hnone review hreview rfl)
    · intro s₂ L₂ mergeTarget claimed resolvedAt hpending _ _ hbefore hclaimed hopen hid hmerge _
      obtain rfl := before_alone.mp hbefore
      obtain rfl : claimed = review :=
        hdistinct.eq_of_id (t := .manualReviewQueue) hclaimed hreview hid
      cases mergeTarget with
      | some target => exact absurd (hmerge.mp rfl) hdecision
      | none =>
          refine Resolve.wp_createNew fair_alone (Resolve.ready_claimed hpending _) hpending hclaimed
            hopen hdecision (fun _ hu => hu) (fun _ _ _ _ _ _ => trivial)
            (fun s₃ L₃ ws identityId _ hbefore₃ hresolves happ => ?_)
            fun _ _ _ hraced => absurd hraced not_raced_alone
          obtain rfl := before_alone.mp hbefore₃
          simp only [Post.andThen_ok]
          refine wp_mono (fun _ _ L' hextends => ?_) (wp_extends _ s₃ (Ledger.commit _ ws))
          exact ⟨identityId, ws, hresolves, happ, hextends⟩
  · obtain rfl := before_alone.mp h₁.before
    have hother := hnone review hreview
    simp only [decide_eq_true_eq] at hother
    exact absurd rfl hother

/-- So the database is not what it was. -/
theorem resolveForm_changes (hdistinct : L.db.Distinct) {review : ManualReviewQueue}
    (hreview : review ∈ L.db .manualReviewQueue) (hstatus : review.status = .pending)
    (hdecision : decision ≠ "merge_into") {r : Except Error (Nat × Bool)} {s' : Session Write Reply}
    {L' : Ledger Db Write}
    (hrun : Runs ((service app).solo request) {} L (resolveForm app (some review.id) decision choice) r
      s' L') : L'.db ≠ L.db := by
  obtain ⟨identityId, ws, hresolves, happ, hextends⟩ :=
    hrun.of_wp _ (wp_resolveForm_decided hdistinct hreview hstatus hdecision)
  have hminted : ∃ identity : Identity, .insert .identities identity ∈ ws := by
    cases hresolves with
    | merged _ hmerge => exact absurd hmerge hdecision
    | created => exact ⟨_, List.mem_cons_of_mem _ (List.mem_cons_self ..)⟩
  obtain ⟨identity, hinserted⟩ := hminted
  have hunused := happ.unused (Row.id (t := .identities) identity)
    (mem_insertIds.mpr ⟨.identities, identity, hinserted, rfl⟩)
  intro heq
  obtain ⟨row, hrow, hid⟩ := hextends.has (Db.has_of_insert hinserted)
  rw [heq] at hrow
  exact hunused ⟨.identities, row, hrow, hid⟩

end ManualReview

end DemandSignal
