import DemandSignal.Spec.Links
import DemandSignal.Spec.Alone
import DemandSignal.Txn.Exclusion

/-!
# Rulings on one review

Calls of `resolve_review` on the same review, in any number. The claim holds the review's row until the
call ends, so what follows it runs as if it were alone.
-/

namespace DemandSignal

open Txn Program

variable {app : App} {sight : Sight} {L : Ledger Db Write} {ws : List Write}

/-! ### Receipts of decisions -/

/-- What the updates of the writes keep of a row, the writes keep. -/
theorem Db.exists_of_kept {t : Table} {P : Row t → Prop} {db : Db}
    (hkeep : ∀ loaded new, .update t loaded new ∈ ws → ∀ current, P current →
      P (Row.merge loaded new current)) {row : Row t} (hrow : row ∈ db t) (hP : P row) :
    ∃ row' ∈ ws.foldl Db.apply db t, row'.id = row.id ∧ P row' := by
  induction ws generalizing db row with
  | nil => exact ⟨row, hrow, rfl, hP⟩
  | cons w ws ih =>
      have hrest : ∀ loaded new, .update t loaded new ∈ ws → ∀ current, P current →
          P (Row.merge loaded new current) :=
        fun loaded new hmem => hkeep loaded new (List.mem_cons_of_mem w hmem)
      rw [List.foldl_cons]
      by_cases htable : w.table = t
      · cases w with
        | insert t' row' =>
            obtain rfl : t' = t := htable
            have hrow' : row ∈ db.apply (.insert t' row') t' := by
              rw [Db.apply_insert_self]
              exact List.mem_append_left _ hrow
            exact ih hrest hrow' hP
        | update t' loaded new =>
            obtain rfl : t' = t := htable
            have hmem : (if row.id = loaded.id then Row.merge loaded new row else row) ∈
                db.apply (.update t' loaded new) t' := by
              rw [Db.apply_update_self, Db.mem_updated]
              exact ⟨row, hrow, rfl⟩
            obtain ⟨row', hrow', hid, hP'⟩ := ih hrest hmem (by
              split
              · exact hkeep loaded new (List.mem_cons_self ..) row hP
              · exact hP)
            refine ⟨row', hrow', hid.trans ?_, hP'⟩
            split
            · exact Row.id_merge loaded new row
            · rfl
      · exact ih hrest (by rwa [Db.apply_of_ne _ htable]) hP

namespace Resolve

variable {decision : String} {review : ManualReviewQueue} {identityId : Uuid}

attribute [local simp] inserted_cons_of_ne Upsert.inserted_inserts_of_ne receipt in
/-- The receipt of the decision. -/
theorem Resolves.decisionReceipt (h : Resolves sight L decision review identityId ws) :
    ∃ receipt : Receipt, ((inserted .receipts ws).filter fun receipt =>
        Receipt.actionType receipt = .reviewResolved) = [receipt] ∧
      receipt.entityId = review.id ∧ receipt.identityId = some identityId := by
  cases h with
  | @merged resolvedAt target link rid now =>
      refine ⟨receipt .reviewResolved review.id .manualReview (.reviewResolved decision review.id)
        (some review.eventId) (some target.id) .ok rid now, ?_, rfl, rfl⟩
      simp
  | @created resolvedAt identity _ rid link rid' now =>
      refine ⟨receipt .reviewResolved review.id .manualReview (.reviewResolved decision review.id)
        (some review.eventId) (some identityId) .ok rid' now, ?_, rfl, rfl⟩
      simp

attribute [local simp] inserted_cons_of_ne Upsert.inserted_inserts_of_ne receipt in
/-- A merge finds its identity, anything else makes one. -/
theorem Resolves.mints (h : Resolves still L decision review identityId ws) :
    (decision = "merge_into" ∧ L.db.Has .identities identityId ∧ inserted .identities ws = [] ∧
        (inserted .receipts ws).filter (fun receipt =>
          Receipt.actionType receipt = .identityCreated) = []) ∨
      decision ≠ "merge_into" ∧ ∃ identity : Identity, identity.id = identityId ∧
        inserted .identities ws = [identity] ∧ ∃ receipt : Receipt,
          (inserted .receipts ws).filter (fun receipt =>
            Receipt.actionType receipt = .identityCreated) = [receipt] ∧
          receipt.entityId = identityId := by
  cases h with
  | @merged resolvedAt target link rid now hpending hdecision htarget hlink =>
      refine .inl ⟨hdecision, ⟨target, htarget, rfl⟩, ?_, ?_⟩
      · simp
      · simp
  | @created resolvedAt identity _ rid link rid' now hpending hdecision hid hnow =>
      refine .inr ⟨hdecision, identity, hid, ?_, receipt .identityCreated identityId .identity
        (.identityCreated .manualReviewResolve (some review.id)) (some review.eventId)
        (some identityId) .ok rid now, ?_, rfl⟩
      · simp
      · simp

theorem Resolves.seen (h : Resolves sight L decision review identityId ws) :
    sight (fun db => review ∈ db .manualReviewQueue) L ∧ review.status = .pending := by
  cases h with
  | merged hpending => exact hpending
  | created hpending => exact hpending

/-- The claim marks the row, whatever it has become since. -/
theorem Resolves.concludes (lawful : sight.Lawful)
    (h : Resolves sight L decision review identityId ws) :
    ∃ row ∈ (L.commit ws).db .manualReviewQueue, ManualReviewQueue.id row = review.id ∧
      ManualReviewQueue.status row = .resolved := by
  obtain ⟨hseen, hstatus⟩ := h.seen
  obtain ⟨current, hcurrent, hkept⟩ := lawful.kept hseen
  have hid : ManualReviewQueue.id current = review.id :=
    hkept.static (Row.static_id .manualReviewQueue)
  obtain ⟨resolvedAt, hwrites⟩ := h.reviewWrites
  refine ⟨Row.merge (t := .manualReviewQueue) review (resolved review decision resolvedAt) current,
    ?_, hid, by simp [Row.merge, Row.column, resolved, hstatus]⟩
  rw [commit_rows, hwrites, List.foldl_cons, List.foldl_nil, Db.apply_update_self, Db.mem_updated]
  exact ⟨current, hcurrent, (if_pos hid).symm⟩

end Resolve

/-- No transaction takes a resolved review back. -/
theorem Transaction.resolved_kept (h : Transaction app sight L ws) {loaded new : ManualReviewQueue}
    (hmem : .update .manualReviewQueue loaded new ∈ ws) {current : ManualReviewQueue}
    (hcurrent : current.status = .resolved) :
    ManualReviewQueue.status (Row.merge (t := .manualReviewQueue) loaded new current) = .resolved := by
  have hother : ∀ {ts}, Names ws ts → Table.manualReviewQueue ∉ ts → False := fun htables hne =>
    htables.ne hne _ hmem rfl
  cases h with
  | parks h =>
      obtain @⟨candidateIdentityId, reason, entry, now, rid, -, -, -, hentry⟩ := h
      rcases List.mem_append.mp hmem with hmem | hmem
      · obtain ⟨_, _, heq⟩ | ⟨loaded', new', rfl, -, heq⟩ := Upsert.mem_writes hmem
        · cases heq
        · cases heq
          obtain ⟨-, -, rfl⟩ := hentry
          simpa [Row.merge, Row.column, Row.stamp] using hcurrent
      · cases entry <;> simp [Resolve.queuedReceipt] at hmem
  | resolves h =>
      obtain ⟨resolvedAt, hwrites⟩ := h.reviewWrites
      have hclaim : .update .manualReviewQueue loaded new ∈
          ws.filter fun w => w.table = .manualReviewQueue :=
        List.mem_filter.mpr ⟨hmem, decide_eq_true rfl⟩
      rw [hwrites, List.mem_singleton] at hclaim
      cases hclaim
      simp [Row.merge, Row.column, Resolve.resolved, h.seen.2]
  | creates h => exact (hother h.tables (by decide)).elim
  | edits h => exact (hother h.tables (by decide)).elim
  | rejects h => exact (hother h.tables (by decide)).elim
  | links h => exact (hother h.tables (by decide)).elim
  | interprets h => exact (hother h.tables (by decide)).elim
  | scores h => exact (hother h.tables (by decide)).elim
  | acts h => exact (hother h.tables (by decide)).elim
  | deadLetters h => exact (hother h.tables (by decide)).elim
  | revives h => exact (hother h.tables (by decide)).elim
  | escalates h => exact (hother h.tables (by decide)).elim

/-- The reviews whose decisions a transaction receipts are resolved by it. -/
theorem Transaction.receipt_concludes (lawful : sight.Lawful) (h : Transaction app sight L ws)
    {receipt : Receipt} (hreceipt : receipt ∈ inserted .receipts ws)
    (haction : receipt.actionType = .reviewResolved) :
    ∃ row ∈ (L.commit ws).db .manualReviewQueue, ManualReviewQueue.id row = receipt.entityId ∧
      ManualReviewQueue.status row = .resolved := by
  have hother : ∀ {actions}, Records ws actions → ActionType.reviewResolved ∉ actions → False :=
    fun hrecords hne => hrecords.ne hreceipt hne haction
  cases h with
  | resolves h =>
      obtain ⟨decided, hdecided, hentity, -⟩ := h.decisionReceipt
      have hmem : receipt ∈ (inserted .receipts ws).filter fun receipt =>
          Receipt.actionType receipt = .reviewResolved :=
        List.mem_filter.mpr ⟨hreceipt, decide_eq_true haction⟩
      rw [hdecided, List.mem_singleton] at hmem
      subst hmem
      rw [hentity]
      exact h.concludes lawful
  | creates h => exact (hother h.records (by decide)).elim
  | edits h => exact (hother h.records (by decide)).elim
  | rejects h => exact (hother h.records (by decide)).elim
  | links h => exact (hother h.records (by decide)).elim
  | parks h => exact (hother h.records (by decide)).elim
  | interprets h => exact (hother h.records (by decide)).elim
  | scores h => exact (hother h.records (by decide)).elim
  | acts h => exact (hother h.records (by decide)).elim
  | deadLetters h => exact (hother h.records (by decide)).elim
  | revives h => exact (hother h.records (by decide)).elim
  | escalates h => exact (hother h.records (by decide)).elim

/-- **A receipt of a decision names a review that is resolved**, along every history. -/
theorem History.concluded (lawful : sight.Lawful) (h : History app sight L) {receipt : Receipt}
    (hreceipt : receipt ∈ L.db .receipts) (haction : receipt.actionType = .reviewResolved) :
    ∃ row ∈ L.db .manualReviewQueue, ManualReviewQueue.id row = receipt.entityId ∧
      ManualReviewQueue.status row = .resolved := by
  induction h with
  | empty => exact absurd hreceipt List.not_mem_nil
  | @commit L ws _ htransaction _ ih =>
      change receipt ∈ ws.foldl Db.apply L.db .receipts at hreceipt
      rw [Db.receipts_foldl, List.mem_append] at hreceipt
      rcases hreceipt with hreceipt | hreceipt
      · obtain ⟨row, hrow, hid, hstatus⟩ := ih hreceipt
        obtain ⟨row', hrow', hid', hstatus'⟩ := Db.exists_of_kept (t := .manualReviewQueue)
          (P := fun row => ManualReviewQueue.status row = .resolved)
          (fun loaded new hmem current => htransaction.resolved_kept hmem) hrow hstatus
        exact ⟨row', hrow', hid'.trans hid, hstatus'⟩
      · exact htransaction.receipt_concludes lawful hreceipt haction

theorem Db.identities_foldl (ws : List Write) (db : Db) :
    ws.foldl Db.apply db .identities = db .identities ++ inserted .identities ws := by
  have hstatic : Row.Static (t := .identities) id := fun _ _ _ => rfl
  simpa using Db.map_foldl_apply hstatic ws db

/-! ### Programs that commit last -/

section Statements

variable {X Q A : Type}

theorem uncommitted_find (t : Table) (p : Row t → Bool) :
    (find t p : Program Db Write X Q A (Option (Row t))).Uncommitted := fun _ => trivial

theorem uncommitted_insert (t : Table) (x : X) (row : Uuid → Time → Row t) :
    (insert t x row : Program Db Write X Q A (Row t)).Uncommitted := by
  intro id r
  cases r <;> trivial

theorem uncommitted_save (t : Table) (x : X) (loaded new : Row t) :
    (save t x loaded new : Program Db Write X Q A Unit).Uncommitted := by
  intro r
  cases r <;> trivial

end Statements

namespace Resolve

theorem uncommitted_upsertIdentityLink (eventId identityId : Uuid) (matchConfidence : Decimal)
    (matchRule : MatchRule) :
    (upsertIdentityLink eventId identityId matchConfidence matchRule).Uncommitted := by
  refine (uncommitted_find _ _).bind fun link => ?_
  cases link with
  | none => exact (uncommitted_insert _ _ _).bind fun _ => trivial
  | some link => exact uncommitted_save _ _ _ _

theorem final_commitNow_ret {α : Type} (a : α) :
    (commitNow.bind fun _ => .ret a : Prog α).Final := .inl ⟨a, rfl⟩

theorem final_mergeInto (review : ManualReviewQueue) (decision : String) (identityId : Uuid) :
    (mergeInto review decision identityId).Final := by
  refine (uncommitted_find _ _).bind_final fun target => ?_
  cases target with
  | none => trivial
  | some target =>
      exact (uncommitted_upsertIdentityLink _ _ _ _).bind_final fun _ =>
        (uncommitted_insert _ _ _).bind_final fun _ => final_commitNow_ret _

theorem final_createNew (review : ManualReviewQueue) (decision : String) :
    (createNew review decision).Final :=
  (uncommitted_find _ _).bind_final fun _ => (uncommitted_insert _ _ _).bind_final fun _ =>
    (uncommitted_insert _ _ _).bind_final fun _ =>
      (uncommitted_upsertIdentityLink _ _ _ _).bind_final fun _ =>
        (uncommitted_insert _ _ _).bind_final fun _ => final_commitNow_ret _

end Resolve

/-! ### Rulings -/

/-- What a reviewer asks for. -/
structure Ruling where
  decision : String
  identityId : Option Uuid
  known : decision = "merge_into" ∨ decision = "create_new"

/-- The calls of `resolve_review` on a review. -/
def rulings (reviewId : Uuid) : Service Ruling Db Write Error Question Reply
    (Except Resolve.ReviewError Resolve.ResolvedReview) where
  program ruling := Resolve.resolveReview reviewId ruling.decision ruling.identityId

namespace Ruling

/-- The writes carry out a ruling on the review. -/
structure Carries (reviewId : Uuid) (L : Ledger Db Write) (decision : String)
    (review : ManualReviewQueue) (target : Uuid) (ws : List Write) : Prop where
  resolves : Resolve.Resolves still L decision review target ws
  review : review.id = reviewId
  applicable : Applicable ws L.db

/-- What a call may commit. -/
def Commits (reviewId : Uuid) (s : Session Write Reply) (L : Ledger Db Write) : Prop :=
  Ready s L ∧ ∃ decision review target, Carries reviewId L decision review target s.pending

/-- The review is as it was found, or one ruling has been committed. -/
def Decides (reviewId : Uuid) (L₀ L : Ledger Db Write) : Prop :=
  L = L₀ ∨ ∃ decision review target ws, Carries reviewId L₀ decision review target ws ∧ L = L₀.commit ws

/-- What a call leaves behind: it declines, without an id of its own, or it has decided. -/
def Ends (reviewId : Uuid) (L₀ : Ledger Db Write) (ruling : Ruling) :
    Post Db Write Error Reply (Except Resolve.ReviewError Resolve.ResolvedReview)
  | .ok (.ok answer), s, L => ∃ review target ws,
      Carries reviewId L₀ ruling.decision review target ws ∧ L = L₀.commit ws ∧
        insertIds ws ⊆ s.own ∧ answer = ⟨target, review.id, review.eventId⟩
  | .ok (.error _), s, _ => s.own = []
  | .error _, _, _ => False

variable {reviewId : Uuid} {L₀ : Ledger Db Write} {decision : String} {review : ManualReviewQueue}
  {target : Uuid}

/-- Nobody rules on a review that has been ruled on. -/
theorem Carries.not_commits (h : Carries reviewId L₀ decision review target ws)
    (hdistinct : L₀.db.Distinct) (s : Session Write Reply) : ¬ Commits reviewId s (L₀.commit ws) := by
  rintro ⟨-, decision', review', target', h'⟩
  obtain ⟨hreview', hpending'⟩ := h'.resolves.pending
  obtain ⟨resolvedAt, hsets⟩ := h.resolves.sets hdistinct
  have hrow := hdistinct.foldl h.applicable
  have heq : review' = Resolve.resolved review decision resolvedAt :=
    hrow.eq_of_id (t := .manualReviewQueue) hreview' hsets.new_mem
      (h'.review.trans h.review.symm : review'.id = review.id)
  rw [heq] at hpending'
  cases hpending'

theorem Decides.commit (hdistinct : L₀.db.Distinct) {s : Session Write Reply}
    (h : Decides reviewId L₀ L) (hs : Commits reviewId s L) :
    Decides reviewId L₀ (L.commit s.pending) := by
  obtain rfl | ⟨decision, review, target, ws, hcarries, rfl⟩ := h
  · obtain ⟨-, decision, review, target, hcarries⟩ := hs
    exact .inr ⟨decision, review, target, s.pending, hcarries, rfl⟩
  · exact absurd hs (hcarries.not_commits hdistinct s)

/-- A pending review has not been ruled on. -/
theorem Decides.eq_of_pending (h : Decides reviewId L₀ L) (hdistinct : L₀.db.Distinct)
    (hreview : review ∈ L.db .manualReviewQueue) (hpending : review.status = .pending)
    (hid : review.id = reviewId) : L = L₀ := by
  obtain heq | ⟨decision, review', target, ws, hcarries, rfl⟩ := h
  · exact heq
  · obtain ⟨resolvedAt, hsets⟩ := hcarries.resolves.sets hdistinct
    have heq : review = Resolve.resolved review' decision resolvedAt :=
      (hdistinct.foldl hcarries.applicable).eq_of_id (t := .manualReviewQueue) hreview hsets.new_mem
        (hid.trans hcarries.review.symm : review.id = review'.id)
    rw [heq] at hpending
    cases hpending

/-- Whoever commits a ruling holds the review's row. -/
theorem Carries.locks (h : Carries reviewId L decision review target ws) :
    ∃ w ∈ ws, Key.row .manualReviewQueue reviewId ∈ Db.locks w := by
  obtain ⟨resolvedAt, hwrites⟩ := h.resolves.reviewWrites
  have hmem : .update .manualReviewQueue review (Resolve.resolved review decision resolvedAt) ∈
      ws.filter fun w => w.table = .manualReviewQueue := by
    rw [hwrites]
    exact List.mem_singleton_self _
  refine ⟨_, List.mem_of_mem_filter hmem, ?_⟩
  rw [← h.review]
  exact List.mem_cons_self ..

/-- A session that has claimed the review shuts the other calls out. -/
theorem excludes (ruling : Ruling) {resolvedAt : Time} (hid : review.id = reviewId) :
    Excludes (among (rulings reviewId) (Commits reviewId) (fun _ _ _ => True) ruling)
      (.update .manualReviewQueue review (Resolve.resolved review decision resolvedAt)) := by
  intro s L L' hclaim hrely
  refine amid_induct hrely (fun L' => L' = L) rfl ?_
  rintro L₁ L₂ rfl ⟨other, ⟨-, decision, review', target, hcarries⟩, hlocks, -, rfl⟩
  obtain ⟨w, hw, hlock⟩ := hcarries.locks
  refine absurd ?_ (hlocks w hw _ hlock _ hclaim)
  rw [← hid]
  exact List.mem_cons_self ..

/-- What follows the claim, alone. -/
theorem wp_claimed {ruling : Ruling} {s : Session Write Reply} {mergeTarget : Option Uuid}
    {resolvedAt : Time} {A : Question → Reply → Prop} (hpending : s.pending =
      [.update .manualReviewQueue review (Resolve.resolved review ruling.decision resolvedAt)])
    (hown : s.own = []) (hreview : review ∈ L.db .manualReviewQueue)
    (hstatus : review.status = .pending) (hid : review.id = reviewId)
    (hmerge : mergeTarget.isSome ↔ ruling.decision = "merge_into") :
    wp (alone A (Commits reviewId)) (match mergeTarget with
      | some identityId => Resolve.mergeInto review ruling.decision identityId
      | none => Resolve.createNew review ruling.decision)
      (fun r s' L' => (∃ error, r = .ok (.error error)) ∧ s'.own = [] ∨
        ∃ target ws, Carries reviewId L ruling.decision review target ws ∧ L' = L.commit ws ∧
          r = .ok (.ok ⟨target, review.id, review.eventId⟩)) s L := by
  have hready : Ready s L := Resolve.ready_claimed hpending L
  have howes : ∀ target, Owes (alone A (Commits reviewId)) s fun L ws =>
      Resolve.Resolves still L ruling.decision review target ws :=
    fun target s' L' _ hready hresolves =>
      ⟨hready, ruling.decision, review, target, hresolves, hid, hready.toApplicable⟩
  have hresolved : ∀ target s' L₁ ws, Before (alone A (Commits reviewId)) s.own L L₁ →
      Resolve.Resolves still L₁ ruling.decision review target ws → Applicable ws L₁.db →
      (fun r s' L' => (∃ error, r = .ok (.error error)) ∧ s'.own = [] ∨
        ∃ target ws, Carries reviewId L ruling.decision review target ws ∧ L' = L.commit ws ∧
          r = .ok (.ok ⟨target, review.id, review.eventId⟩) :
        Post Db Write Error Reply (Except Resolve.ReviewError Resolve.ResolvedReview))
        (.ok (.ok ⟨target, review.id, review.eventId⟩)) s' (L₁.commit ws) := by
    intro target s' L₁ ws hbefore hresolves happ
    obtain rfl := before_alone.mp hbefore
    exact .inr ⟨target, ws, ⟨hresolves, hid, happ⟩, rfl, rfl⟩
  have hraced : ∀ {P : Prop}, Raced (alone A (Commits reviewId) : Rules Db Write Question Reply) → P :=
    fun h => absurd h not_raced_alone
  cases mergeTarget with
  | some identityId =>
      refine Resolve.wp_mergeInto fair_alone hready hpending hreview hstatus (hmerge.mp rfl)
        (fun _ hu => hu) howes (fun s' L' error hown' _ _ => .inl ⟨⟨error, rfl⟩, hown'.trans hown⟩)
        (fun s' L₁ ws _ hbefore => hresolved identityId s' L₁ ws hbefore) fun _ _ _ => hraced
  | none =>
      have hne : ruling.decision ≠ "merge_into" := fun h => by simpa using hmerge.mpr h
      exact Resolve.wp_createNew fair_alone hready hpending hreview hstatus hne (fun _ hu => hu) howes
        (fun s' L₁ ws target _ hbefore => hresolved target s' L₁ ws hbefore) fun _ _ _ => hraced

/-- A call among others declines or decides. -/
theorem wp_ruling (hdistinct : L₀.db.Distinct) (ruling : Ruling) (h : Decides reviewId L₀ L) :
    wp (among (rulings reviewId) (Commits reviewId) (fun _ _ _ => True) ruling)
      ((rulings reviewId).program ruling) (Ends reviewId L₀ ruling) {} L := by
  have hkeep : ∀ {own L'}, Before (among (rulings reviewId) (Commits reviewId) (fun _ _ _ => True)
      ruling) own L L' → Decides reviewId L₀ L' := by
    intro own L' hbefore
    induction hbefore with
    | refl => exact h
    | tail _ hlast ih =>
        obtain ⟨s, -, hrely⟩ := hlast
        refine amid_induct hrely (Decides reviewId L₀) ih ?_
        rintro L₁ L₂ hdecides ⟨other, hcommits, -, -, rfl⟩
        exact hdecides.commit hdistinct hcommits
  refine Resolve.wp_resolveReview_claim rfl (fun s' L' error _ hown _ _ _ => hown) ?_
  intro s' L' mergeTarget review resolvedAt hpending hown _ hbefore hreview hstatus hid hmerge _
  obtain rfl := (hkeep hbefore).eq_of_pending hdistinct hreview hstatus hid
  have hfinal : (match mergeTarget with
      | some identityId => Resolve.mergeInto review ruling.decision identityId
      | none => Resolve.createNew review ruling.decision).Final := by
    cases mergeTarget with
    | some identityId => exact Resolve.final_mergeInto _ _ _
    | none => exact Resolve.final_createNew _ _
  refine wp_mono ?_ ((excludes ruling hid).wp (fun _ _ _ => trivial) hfinal
    (by rw [hpending]; exact List.mem_singleton_self _)
    (wp_claimed hpending hown hreview hstatus hid hmerge))
  rintro r s'' L'' ⟨⟨⟨error, rfl⟩, hown⟩ | ⟨target, ws, hcarries, rfl, rfl⟩, hends⟩
  · exact hown
  · refine ⟨review, target, ws, hcarries, rfl, ?_, rfl⟩
    obtain heq | ⟨s₁, ⟨hready, -⟩, heq, rfl⟩ := hends
    · have hlog := congrArg Ledger.log heq
      simp [Ledger.commit] at hlog
    · obtain ⟨-, rfl⟩ := commit_inj heq
      exact hready.own

/-- What a call returns stays true. -/
theorem Ends.stable (hdistinct : L₀.db.Distinct) {ruling : Ruling}
    {r : Except Error (Except Resolve.ReviewError Resolve.ResolvedReview)} {s : Session Write Reply}
    {L L' : Ledger Db Write} (h : Ends reviewId L₀ ruling r s L)
    (hamid : amid (Commits reviewId) s.close L L') : Ends reviewId L₀ ruling r s L' := by
  obtain error | error | answer := r
  · exact h
  · exact h
  · obtain ⟨review, target, ws, hcarries, rfl, hown, rfl⟩ := h
    obtain rfl : L' = L₀.commit ws := by
      refine amid_induct hamid (fun L' => L' = L₀.commit ws) rfl ?_
      rintro L₁ L₂ rfl ⟨other, hcommits, -⟩
      exact absurd hcommits (hcarries.not_commits hdistinct other)
    exact ⟨review, target, ws, hcarries, rfl, hown, rfl⟩

/-- Among calls on one review, every one that has ended has declined or decided. -/
theorem sound (hdistinct : L₀.db.Distinct) {config : Config Ruling Db Write Error Question Reply
      (Except Resolve.ReviewError Resolve.ResolvedReview)}
    (h : Reachable (rulings reviewId) L₀ config) :
    config.Sound (rulings reviewId) (Decides reviewId L₀) (Commits reviewId) (fun _ _ _ => True)
      (Ends reviewId L₀) :=
  h.sound (fun _ _ hL hs => hL.commit hdistinct hs) (fun ruling _ hL => wp_ruling hdistinct ruling hL)
    (fun _ _ _ _ _ h hamid => h.stable hdistinct hamid) (.inl rfl)

/-! ### Whose ruling it is -/

/-- The session has claimed the review and written the receipt of this ruling. -/
structure Owed (ruling : Ruling) (s : Session Write Reply) : Prop where
  claim : ∃ review resolvedAt, .update .manualReviewQueue review
    (Resolve.resolved review ruling.decision resolvedAt) ∈ s.pending
  receipt : ∃ receipt : Receipt, .insert .receipts receipt ∈ s.pending ∧ receipt.id ∈ s.own ∧
    receipt.actionType = .reviewResolved ∧
      (ruling.decision = "merge_into" → receipt.identityId = ruling.identityId)

/-- The last three statements of both ways to decide. -/
theorem wp_conclude {ruling : Ruling} {s : Session Write Reply} {α : Type} {answer : α}
    (hclaim : ∃ review resolvedAt, .update .manualReviewQueue review
      (Resolve.resolved review ruling.decision resolvedAt) ∈ s.pending)
    (hmerge : ruling.decision = "merge_into" → some target = ruling.identityId) :
    wp (anyhow ruling.Owed) ((writeReceipt .reviewResolved review.id .manualReview
      (.reviewResolved ruling.decision review.id) (some review.eventId) (some target)).bind fun _ =>
        commitNow.bind fun _ => .ret answer) (fun _ _ _ => True) s L := by
  obtain ⟨claimed, resolvedAt, hclaim⟩ := hclaim
  intro L₁ _ id _ _ L₂ _ now _
  refine ⟨fun b hb => ?_, fun w b hb _ _ => ?_, fun w b _ _ _ => ⟨trivial, trivial⟩⟩
  · cases hb
  · cases hb
    intro L₃ _
    refine ⟨⟨⟨claimed, resolvedAt, List.mem_append_left _ hclaim⟩, _,
      List.mem_append_right _ (List.mem_singleton_self _), List.mem_cons_self .., rfl, hmerge⟩, trivial⟩

/-- Whoever interferes, a call commits its own ruling. -/
theorem wp_owed (ruling : Ruling) (L : Ledger Db Write) :
    wp (anyhow ruling.Owed) ((rulings reviewId).program ruling) (fun _ _ _ => True) {} L := by
  refine Resolve.wp_resolveReview_claim rfl (fun _ _ _ _ _ _ _ _ => trivial) ?_
  intro s L' mergeTarget review resolvedAt hpending _ _ _ _ _ _ hmerge htarget
  have hclaim : ∀ {s' : Session Write Reply}, Grows s s' → ∃ review resolvedAt,
      .update .manualReviewQueue review (Resolve.resolved review ruling.decision resolvedAt) ∈
        s'.pending := fun hgrows =>
    ⟨review, resolvedAt, hgrows.pending.subset (by rw [hpending]; exact List.mem_singleton_self _)⟩
  cases mergeTarget with
  | some identityId =>
      have htarget := htarget (hmerge.mp rfl)
      have hfind : wp (anyhow ruling.Owed) (Resolve.findIdentity identityId) (fun r s₁ _ =>
          Grows s s₁ ∧ ∀ found, r = .ok (some found) → found.id = identityId) s L' := by
        intro L₁ _ now _ _
        refine ⟨.begin s now, fun found hfound => ?_⟩
        simp only [Except.ok.injEq] at hfound
        exact of_decide_eq_true (List.find?_some hfound :)
      refine wp_then hfind (fun found s₁ L₁ h₁ => ?_) fun _ _ _ _ => trivial
      cases found with
      | none => trivial
      | some found =>
          rw [← h₁.2 found rfl] at htarget
          exact (Resolve.uncommitted_upsertIdentityLink _ _ _ _).wp_bind_anyhow
            fun _ s₂ L₂ h₂ => wp_conclude (hclaim (h₁.1.trans h₂)) fun _ => htarget
  | none =>
      have hne : ruling.decision ≠ "merge_into" := fun h => by simpa using hmerge.mpr h
      refine (uncommitted_find _ _).wp_bind_anyhow fun event s₁ L₁ h₁ => ?_
      refine (uncommitted_insert _ _ _).wp_bind_anyhow fun identity s₂ L₂ h₂ => ?_
      refine (uncommitted_insert _ _ _).wp_bind_anyhow fun _ s₃ L₃ h₃ => ?_
      refine (Resolve.uncommitted_upsertIdentityLink _ _ _ _).wp_bind_anyhow fun _ s₄ L₄ h₄ => ?_
      exact wp_conclude (hclaim (((h₁.trans h₂).trans h₃).trans h₄)) (absurd · hne)

/-- The commit of a ruling: the ruling carried out is the one of the call, and the receipt is its own. -/
theorem Owed.carried {ruling : Ruling} {s : Session Write Reply} (h : ruling.Owed s)
    (hcarries : Carries reviewId L decision review target s.pending) :
    ruling.decision = decision ∧ (decision = "merge_into" → ruling.identityId = some target) ∧
      ∃ id ∈ s.own, id ∈ insertIds s.pending := by
  obtain ⟨⟨claimed, resolvedAt, hclaim⟩, receipt, hinsert, hown, haction, hmerge⟩ := h
  have hdecision : ruling.decision = decision := by
    obtain ⟨resolvedAt', hwrites⟩ := hcarries.resolves.reviewWrites
    have hmem : .update .manualReviewQueue claimed
        (Resolve.resolved claimed ruling.decision resolvedAt) ∈
          s.pending.filter fun w => w.table = .manualReviewQueue :=
      List.mem_filter.mpr ⟨hclaim, decide_eq_true rfl⟩
    rw [hwrites, List.mem_singleton] at hmem
    simp only [Write.update.injEq, heq_eq_eq, true_and] at hmem
    exact Option.some_injective _ (congrArg ManualReviewQueue.resolution hmem.2)
  refine ⟨hdecision, fun hinto => ?_, receipt.id, hown, mem_insertIds.mpr ⟨_, _, hinsert, rfl⟩⟩
  obtain ⟨decided, hdecided, -, hidentity⟩ := hcarries.resolves.decisionReceipt
  have hmem : receipt ∈ (inserted .receipts s.pending).filter fun receipt =>
      Receipt.actionType receipt = .reviewResolved :=
    List.mem_filter.mpr ⟨mem_inserted.mpr hinsert, decide_eq_true haction⟩
  rw [hdecided, List.mem_singleton] at hmem
  rw [← hmerge (hdecision.trans hinto), hmem, hidentity]

end Ruling

end DemandSignal
