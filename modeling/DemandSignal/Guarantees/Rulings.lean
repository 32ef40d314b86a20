import DemandSignal.Simulation
import DemandSignal.Spec.Rulings

/-!
# One reviewer decides a review

Of any number of calls of `resolve_review` on a pending review, in any interleaving, at most one commits.
The others decline and leave the database as they find it.
-/

namespace DemandSignal

open Txn

variable {app : App}

/-- The receipts of an action. -/
def Db.recorded (db : Db) (actionType : ActionType) : List Receipt :=
  (db .receipts).filter fun receipt => Receipt.actionType receipt = actionType

namespace Ruling

/-- A call of `resolve_review`, as far as it has got. -/
abbrev Call := Thread Ruling Db Write Error Question Reply
  (Except Resolve.ReviewError Resolve.ResolvedReview)

/-- If the call has ended, it has raised an error that its callers catch. -/
def Declines (call : Call) : Prop := ∀ r, call.status = .ended r → ∃ error, r = .ok (.error error)

/-- What a ruling leaves behind. -/
structure Ruled (before after : Db) (review : ManualReviewQueue) (ruling : Ruling) (target : Uuid) :
    Prop where
  resolved : ∃ row : ManualReviewQueue,
    (after .manualReviewQueue).filter (fun row => ManualReviewQueue.id row = review.id) = [row] ∧
      row.status = .resolved ∧ row.resolution = some ruling.decision
  receipted : ((after.recorded .reviewResolved).filter fun receipt =>
    Receipt.entityId receipt = review.id).length = 1
  linked : Resolve.Linked review.eventId target after
  linkedOnly : ∀ link ∈ after .identityLinks, IdentityLink.eventId link = review.eventId →
    IdentityLink.identityId link = target
  asked : ruling.decision = "merge_into" →
    ruling.identityId = some target ∧ before.Has .identities target
  new : ruling.decision = "create_new" →
    ¬ before.Has .identities target ∧ after.Has .identities target
  identities : (after .identities).length =
    (before .identities).length + if ruling.decision = "create_new" then 1 else 0
  created : (after.recorded .identityCreated).length =
    (before.recorded .identityCreated).length + if ruling.decision = "create_new" then 1 else 0

/-- No call has committed, or one has and the review is as it ruled. The others that have ended have
declined. -/
def DecidedOnce (L₀ : Ledger Db Write) (review : ManualReviewQueue)
    (config : Config Ruling Db Write Error Question Reply
      (Except Resolve.ReviewError Resolve.ResolvedReview)) : Prop :=
  (config.ledger = L₀ ∧ ∀ call ∈ config.threads, Declines call) ∨
    ∃ (n : Nat) (call : Call) (target : Uuid) (ws : List Write), config.threads[n]? = some call ∧
      config.ledger = L₀.commit ws ∧ Ruled L₀.db config.ledger.db review call.input target ∧
      (∀ r, call.status = .ended r → r = .ok (.ok ⟨target, review.id, review.eventId⟩)) ∧
      ∀ (m : Nat) (other : Call), m ≠ n → config.threads[m]? = some other → Declines other

variable {L₀ : Ledger Db Write} {review : ManualReviewQueue} {target : Uuid} {ws : List Write}
  {ruling : Ruling}

theorem recorded_commit (L : Ledger Db Write) (ws : List Write) (actionType : ActionType) :
    (L.commit ws).db.recorded actionType = L.db.recorded actionType ++
      (inserted .receipts ws).filter fun receipt => Receipt.actionType receipt = actionType := by
  have hreceipts : (L.commit ws).db .receipts = L.db .receipts ++ inserted .receipts ws :=
    Db.receipts_foldl ws L.db
  rw [Db.recorded, hreceipts, List.filter_append, Db.recorded]

theorem Carries.resolved (h : Carries review.id L₀ ruling.decision review target ws)
    (hdistinct : L₀.db.Distinct) : ∃ row : ManualReviewQueue,
      ((L₀.commit ws).db .manualReviewQueue).filter
          (fun row => ManualReviewQueue.id row = review.id) = [row] ∧
        row.status = .resolved ∧ row.resolution = some ruling.decision := by
  obtain ⟨resolvedAt, hsets⟩ := h.resolves.sets hdistinct
  have hafter : (L₀.commit ws).db.Distinct := hdistinct.foldl h.applicable
  refine ⟨Resolve.resolved review ruling.decision resolvedAt, ?_, rfl, rfl⟩
  refine hafter.filter_eq_singleton (t := .manualReviewQueue) hsets.new_mem (decide_eq_true rfl)
    fun other hother hid => ?_
  exact hafter.eq_of_id (t := .manualReviewQueue) hother hsets.new_mem (of_decide_eq_true hid)

theorem Carries.receipted (h : Carries review.id L₀ ruling.decision review target ws)
    (hnone : ∀ receipt ∈ L₀.db .receipts, Receipt.actionType receipt = .reviewResolved →
      Receipt.entityId receipt ≠ review.id) :
    (((L₀.commit ws).db.recorded .reviewResolved).filter fun receipt =>
      Receipt.entityId receipt = review.id).length = 1 := by
  obtain ⟨receipt, hreceipt, hentity, -⟩ := h.resolves.decisionReceipt
  have hbefore : (L₀.db.recorded .reviewResolved).filter
      (fun receipt => Receipt.entityId receipt = review.id) = [] := by
    rw [List.filter_eq_nil_iff]
    intro other hother
    obtain ⟨hmem, haction⟩ := List.mem_filter.mp hother
    simpa using hnone other hmem (of_decide_eq_true haction)
  rw [recorded_commit, hreceipt, List.filter_append, hbefore, List.nil_append,
    List.filter_cons_of_pos (by simpa using hentity), List.filter_nil, List.length_singleton]

theorem Carries.linked (h : Carries review.id L₀ ruling.decision review target ws)
    (hdistinct : L₀.db.Distinct) : Resolve.Linked review.eventId target (L₀.commit ws).db ∧
      ∀ link ∈ (L₀.commit ws).db .identityLinks, IdentityLink.eventId link = review.eventId →
        IdentityLink.identityId link = target := by
  obtain ⟨link, hevent, hidentity, hsets⟩ := h.resolves.linksEvent.sets hdistinct
  refine ⟨⟨link, hsets.new_mem, hevent, hidentity⟩, fun other hother hother' => ?_⟩
  rw [hsets.eq_new hother (hother'.trans hevent.symm), hidentity]

/-- **A ruling that is carried out leaves what it promises.** -/
theorem Carries.ruled (h : Carries review.id L₀ ruling.decision review target ws)
    (hdistinct : L₀.db.Distinct)
    (hnone : ∀ receipt ∈ L₀.db .receipts, Receipt.actionType receipt = .reviewResolved →
      Receipt.entityId receipt ≠ review.id)
    (hasked : ruling.decision = "merge_into" → ruling.identityId = some target) :
    Ruled L₀.db (L₀.commit ws).db review ruling target := by
  have hidentities : (L₀.commit ws).db .identities = L₀.db .identities ++ inserted .identities ws :=
    Db.identities_foldl ws L₀.db
  obtain ⟨hlinked, honly⟩ := h.linked hdistinct
  obtain ⟨hmerge, hhas, hinserted, hcreated⟩ |
    ⟨hmerge, identity, hid, hinserted, receipt, hcreated, -⟩ := h.resolves.mints
  · have hnew : ruling.decision ≠ "create_new" := by
      rw [hmerge]
      decide
    rw [hinserted, List.append_nil] at hidentities
    refine ⟨h.resolved hdistinct, h.receipted hnone, hlinked, honly, fun hinto => ⟨hasked hinto, hhas⟩,
      fun hcreate => absurd hcreate hnew, ?_, ?_⟩
    · rw [hidentities, if_neg hnew, Nat.add_zero]
    · rw [recorded_commit, hcreated, List.append_nil, if_neg hnew, Nat.add_zero]
  · have hnew : ruling.decision = "create_new" := ruling.known.resolve_left hmerge
    have hinsert : .insert .identities identity ∈ ws :=
      mem_inserted.mp (by rw [hinserted]; exact List.mem_singleton_self _)
    refine ⟨h.resolved hdistinct, h.receipted hnone, hlinked, honly, fun hinto => absurd hinto hmerge,
      fun _ => ⟨?_, ?_⟩, ?_, ?_⟩
    · rintro ⟨old, hold, holdId⟩
      exact h.applicable.id_ne (t := .identities) (s := .identities) hold hinsert
        ((show Row.id (t := .identities) identity = target from hid).trans holdId.symm)
    · rw [← hid]
      exact Db.has_of_insert (t := .identities) hinsert
    · rw [hidentities, hinserted, List.length_append, List.length_singleton, if_pos hnew]
    · rw [recorded_commit, hcreated, List.length_append, List.length_singleton, if_pos hnew]

end Ruling

open Ruling in
/-- **At most one of the calls on a pending review commits**, whatever they ask for and however they
interleave. -/
theorem review_decided_once {before : Config Request Db Write Error Question Reply Response}
    (hbefore : Reachable (service app) emptyLedger before) {review : ManualReviewQueue}
    (hreview : review ∈ before.ledger.db .manualReviewQueue) (hpending : review.status = .pending)
    {config : Config Ruling Db Write Error Question Reply
      (Except Resolve.ReviewError Resolve.ResolvedReview)}
    (h : Reachable (rulings review.id) before.ledger config) :
    DecidedOnce before.ledger review config := by
  have hhistory := reachable_history hbefore
  have hdistinct := hhistory.distinct
  have hnone : ∀ receipt ∈ before.ledger.db .receipts,
      Receipt.actionType receipt = .reviewResolved → Receipt.entityId receipt ≠ review.id := by
    intro receipt hreceipt haction hentity
    obtain ⟨row, hrow, hid, hresolved⟩ := hhistory.concluded lawful_once hreceipt haction
    obtain rfl : row = review :=
      hdistinct.eq_of_id (t := .manualReviewQueue) hrow hreview (hid.trans hentity)
    rw [hpending] at hresolved
    cases hresolved
  have hsound := Ruling.sound hdistinct h
  have hended : ∀ call : Ruling.Call, call ∈ config.threads → ∀ r, call.status = .ended r →
      ∃ s, call.session = s.close ∧ Ends review.id before.ledger call.input r s config.ledger := by
    intro call hcall r hstatus
    have hcall := hsound.threads call hcall
    rwa [Thread.Sound, hstatus] at hcall
  obtain heq | ⟨decision, review', target, ws, hcarries, heq⟩ := hsound.inv
  · refine .inl ⟨heq, fun call hcall r hstatus => ?_⟩
    obtain ⟨s, -, hends⟩ := hended call hcall r hstatus
    obtain error | error | answer := r
    · exact hends.elim
    · exact ⟨error, rfl⟩
    · obtain ⟨_, _, ws, -, heq', -⟩ := hends
      have hlog := congrArg Ledger.log (heq.symm.trans heq')
      simp [Ledger.commit] at hlog
  · -- the one commit has an author
    obtain ⟨added, hlog, hadded⟩ := h.authored fun ruling L => wp_owed ruling L
    have hmem : (⟨before.ledger.db, ws⟩ : Commit Db Write) ∈ added := by
      rw [heq, Ledger.commit] at hlog
      rw [← List.append_cancel_left hlog]
      exact List.mem_singleton_self _
    obtain ⟨n, call, s, hcall, howed, hwrites, hown⟩ := hadded _ hmem
    simp only at hwrites
    subst hwrites
    obtain rfl : review' = review := hdistinct.eq_of_id (t := .manualReviewQueue)
      hcarries.resolves.pending.1 hreview hcarries.review
    obtain ⟨rfl, hasked, id, hid, hinserted⟩ := howed.carried hcarries
    refine .inr ⟨n, call, target, s.pending, hcall, heq, ?_, fun r hstatus => ?_,
      fun m other hmn hother r hstatus => ?_⟩
    · rw [heq]
      exact hcarries.ruled hdistinct hnone hasked
    · obtain ⟨s', hs', hends⟩ := hended call (List.mem_of_getElem? hcall) r hstatus
      obtain error | error | answer := r
      · exact hends.elim
      · have hnil : call.session.own = [] := by
          rw [hs']
          exact hends
        have hmem := hown hid
        rw [hnil] at hmem
        exact absurd hmem List.not_mem_nil
      · obtain ⟨review'', target', ws, hcarries', heq', -, rfl⟩ := hends
        obtain ⟨-, rfl⟩ := commit_inj (heq.symm.trans heq')
        obtain rfl : review'' = review' := hdistinct.eq_of_id (t := .manualReviewQueue)
          hcarries'.resolves.pending.1 hreview hcarries'.review
        obtain ⟨receipt, hreceipt, -, hidentity⟩ := hcarries.resolves.decisionReceipt
        obtain ⟨receipt', hreceipt', -, hidentity'⟩ := hcarries'.resolves.decisionReceipt
        obtain rfl : receipt = receipt' := by simpa using hreceipt.symm.trans hreceipt'
        obtain rfl : target = target' := by simpa using hidentity.symm.trans hidentity'
        rfl
    · obtain ⟨s', hs', hends⟩ := hended other (List.mem_of_getElem? hother) r hstatus
      obtain error | error | answer := r
      · exact hends.elim
      · exact ⟨error, rfl⟩
      · obtain ⟨_, _, ws, -, heq', hids, -⟩ := hends
        obtain ⟨-, rfl⟩ := commit_inj (heq.symm.trans heq')
        refine absurd (hown hid) (hsound.own m n other call hmn hother hcall id ?_)
        rw [hs']
        exact hids hinserted

/-- Two reviewers want a new identity, and a third names none to merge into. -/
def threeReviewers : List (Action Ruling) :=
  [.spawn ⟨"create_new", none, .inr rfl⟩, .spawn ⟨"create_new", none, .inr rfl⟩,
    .spawn ⟨"merge_into", none, .inl rfl⟩] ++
  [0, 1, 0, 2, 0, 0, 0, 0, 0, 0, 0, 0, 0, 0, 0, 1, 1, 1, 0].map .step

theorem review_decided_once_threeReviewers :
    ∃ before review config, interleave unreachable (inTurn 0 [(engagement, 16)]) = some before ∧
      review ∈ before.ledger.db .manualReviewQueue ∧
      Config.play (rulings review.id) unreachable 20 ⟨before.ledger, []⟩ threeReviewers = some config ∧
      Ruling.DecidedOnce before.ledger review config := by
  have hplayed : (interleave unreachable (inTurn 0 [(engagement, 16)])).any (fun before =>
      (before.ledger.db .manualReviewQueue).any fun review =>
        decide (ManualReviewQueue.status review = .pending) &&
          (Config.play (rulings review.id) unreachable 20 ⟨before.ledger, []⟩ threeReviewers).isSome) =
      true := by
    rw [interleave, shipped_eq_bucketed]
    decide +kernel
  obtain ⟨before, hbefore, hreviews⟩ := (Option.any_eq_true _ _).mp hplayed
  obtain ⟨review, hreview, hp⟩ := List.any_eq_true.mp hreviews
  rw [Bool.and_eq_true, decide_eq_true_eq, Option.isSome_iff_exists] at hp
  obtain ⟨hpending, config, hconfig⟩ := hp
  exact ⟨before, review, config, hbefore, hreview, hconfig,
    review_decided_once (interleave_reachable hbefore) hreview hpending
      (Config.play_reachable (fun _ _ _ _ => trivial) (fun _ => trivial) .refl hconfig)⟩

end DemandSignal
