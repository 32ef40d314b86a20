import DemandSignal.Guarantees.Queries

/-!
# Worklists are shown in full

A list of dead letters or of reviews shows every entry once, in its order. A page that is cut leaves
out no pending review as long as it shows a resolved one.
-/

namespace DemandSignal

open Txn

variable {app : App} {sight : Sight} {L M : Ledger Db Write} {db : Db}

namespace DeadLetter

instance : Std.Total older := ⟨fun dlq dlq' => by unfold older; simp only [Time, Uuid] at *; omega⟩

instance : IsTrans DeadLetterQueue older :=
  ⟨fun dlq dlq' dlq'' h h' => by unfold older at *; simp only [Time, Uuid] at *; omega⟩

theorem mem_listed {resolved : Bool} {dlq : DeadLetterQueue} :
    dlq ∈ listed resolved db ↔ dlq ∈ db .deadLetterQueue ∧ dlq.resolved = resolved := by
  rw [listed, List.mem_insertionSort, List.mem_filter, decide_eq_true_eq]

theorem nodup_listed (hdistinct : db.Distinct) (resolved : Bool) : (listed resolved db).Nodup :=
  (List.perm_insertionSort older _).nodup_iff.mpr
    ((hdistinct.nodup_ids .deadLetterQueue).of_map.filter _)

/-- An open dead letter is the only one of its event. -/
theorem nodup_events (hdistinct : db.Distinct) :
    ((listed false db).map DeadLetterQueue.eventId).Nodup := by
  refine List.Nodup.map_on (fun dlq hdlq dlq' hdlq' hevent => ?_) (nodup_listed hdistinct false)
  obtain ⟨hmem, hopen⟩ := mem_listed.mp hdlq
  obtain ⟨hmem', hopen'⟩ := mem_listed.mp hdlq'
  have hkey : ∀ dlq : DeadLetterQueue, dlq.resolved = false →
      Key.unresolvedEvent dlq.eventId ∈ Row.indexed (t := .deadLetterQueue) dlq := fun dlq hdlq => by
    simp [Row.indexed, hdlq]
  exact hdistinct.eq_of_indexed (t := .deadLetterQueue) hmem hmem' (hkey dlq hopen)
    (hevent ▸ hkey dlq' hopen')

end DeadLetter

namespace ManualReview

instance : Std.Total byId := ⟨fun review review' => Nat.le_total review.id review'.id⟩

instance : IsTrans ManualReviewQueue byId := ⟨fun _ _ _ h h' => Nat.le_trans h h'⟩

instance : Std.Total pendingFirst := ⟨fun review review' => by
  unfold pendingFirst
  cases review.status <;> cases review'.status <;> simp <;> exact Nat.le_total ..⟩

instance : IsTrans ManualReviewQueue pendingFirst := ⟨fun review review' review'' h h' => by
  obtain ⟨hpending, hresolved⟩ | ⟨hsame, hle⟩ := h <;>
    obtain ⟨hpending', hresolved'⟩ | ⟨hsame', hle'⟩ := h'
  · rw [hresolved] at hpending'
    cases hpending'
  · exact .inl ⟨hpending, hsame' ▸ hresolved⟩
  · exact .inl ⟨hsame.trans hpending', hresolved'⟩
  · exact .inr ⟨hsame.trans hsame', Nat.le_trans hle hle'⟩⟩

theorem mem_listed {status : String} {review : ManualReviewQueue} :
    review ∈ listed status db ↔ review ∈ db .manualReviewQueue ∧ statusText review.status = status := by
  rw [listed, List.mem_insertionSort, List.mem_filter, decide_eq_true_eq]

theorem nodup_listed (hdistinct : db.Distinct) (status : String) : (listed status db).Nodup :=
  (List.perm_insertionSort byId _).nodup_iff.mpr
    ((hdistinct.nodup_ids .manualReviewQueue).of_map.filter _)

variable {pending resolved : List ManualReviewQueue} {review : ManualReviewQueue}

theorem pairwise_shownPage (pending resolved : List ManualReviewQueue) :
    (shownPage pending resolved).Pairwise pendingFirst :=
  (List.pairwise_insertionSort pendingFirst _).sublist (List.take_sublist _ _)

theorem mem_of_mem_shownPage (h : review ∈ shownPage pending resolved) :
    review ∈ pending ∨ review ∈ resolved := by
  have hmem := List.mem_of_mem_take h
  rw [List.mem_insertionSort, List.mem_append, List.mem_map] at hmem
  obtain hmem | ⟨other, hother, rfl⟩ := hmem
  · exact .inl hmem
  · cases hfound : pending.find? fun loaded => loaded.id = other.id with
    | none => exact .inr hother
    | some loaded => exact .inl (List.mem_of_find?_eq_some hfound)

/-- What is cut comes after what is shown. -/
theorem shownPage_cut (hmem : review ∈ pending) (hstatus : review.status = .pending)
    (hcut : review ∉ shownPage pending resolved) :
    (shownPage pending resolved).length = 100 ∧
      ∀ shown ∈ shownPage pending resolved, shown.status = .pending := by
  unfold shownPage at hcut ⊢
  simp only at hcut ⊢
  generalize hrows : (pending ++ resolved.map fun review => (pending.find? fun loaded =>
    loaded.id = review.id).getD review).insertionSort pendingFirst = rows at hcut ⊢
  have hrow : review ∈ rows := by
    rw [← hrows, List.mem_insertionSort]
    exact List.mem_append_left _ hmem
  have hsorted : (rows.take 100 ++ rows.drop 100).Pairwise pendingFirst := by
    rw [List.take_append_drop, ← hrows]
    exact List.pairwise_insertionSort pendingFirst _
  rw [← List.take_append_drop 100 rows, List.mem_append] at hrow
  have hdropped := hrow.resolve_left hcut
  have hlong := List.length_pos_of_mem hdropped
  rw [List.length_drop] at hlong
  refine ⟨by rw [List.length_take]; omega, fun shown hshown => ?_⟩
  obtain ⟨hpending, -⟩ | ⟨hsame, -⟩ := (List.pairwise_append.mp hsorted).2.2 shown hshown review hdropped
  · exact hpending
  · exact hsame.trans hstatus

end ManualReview

/-! ### What is listed -/

/-- The list of the dead letters of an earlier moment, each of which is still there. -/
structure DeadLetter.Lists (L : Ledger Db Write) (resolved : Bool) (M : Ledger Db Write)
    (entries : List DeadLetterQueue) : Prop where
  earlier : Extends M L
  nodup : entries.Nodup
  sorted : entries.Pairwise DeadLetter.older
  mem_iff : ∀ dlq, dlq ∈ entries ↔ dlq ∈ M.db .deadLetterQueue ∧ dlq.resolved = resolved
  outstanding : resolved = false → entries.length = letterDocket.outstanding (M.db .receipts) ∧
    (entries.map DeadLetterQueue.eventId).Nodup
  later : ∀ dlq ∈ entries, ∃ now ∈ L.db .deadLetterQueue, Row.id (t := .deadLetterQueue) now = dlq.id ∧
    Row.Later (t := .deadLetterQueue) dlq now

/-- The list of the reviews of an earlier moment. -/
structure ManualReview.Lists (L : Ledger Db Write) (status : String) (M : Ledger Db Write)
    (entries : List ManualReviewQueue) : Prop where
  earlier : Extends M L
  nodup : entries.Nodup
  sorted : entries.Pairwise ManualReview.byId
  mem_iff : ∀ review, review ∈ entries ↔
    review ∈ M.db .manualReviewQueue ∧ ManualReview.statusText review.status = status
  outstanding : status = "pending" →
    entries.length = reviewDocket.outstanding (M.db .receipts)
  later : ∀ review ∈ entries, ∃ now ∈ L.db .manualReviewQueue,
    Row.id (t := .manualReviewQueue) now = review.id ∧ Row.Later (t := .manualReviewQueue) review now

/-- A page of reviews, whose pending ones were listed at an earlier moment. -/
structure ManualReview.Pages (L M : Ledger Db Write) (entries : List ManualReviewQueue) : Prop where
  earlier : Extends M L
  sorted : entries.Pairwise ManualReview.pendingFirst
  length_le : entries.length ≤ 100
  cut : ∀ review ∈ M.db .manualReviewQueue, ManualReviewQueue.status review = .pending →
    review ∉ entries → entries.length = 100 ∧ ∀ shown ∈ entries, shown.status = .pending
  later : ∀ review ∈ entries, ∃ now ∈ L.db .manualReviewQueue,
    Row.id (t := .manualReviewQueue) now = review.id ∧ Row.Later (t := .manualReviewQueue) review now

theorem History.letters_listed (lawful : sight.Lawful) (h : History app sight L) (hextends : Extends M L)
    (resolved : Bool) : DeadLetter.Lists L resolved M (DeadLetter.listed resolved M.db) := by
  have hM : History app sight M := h.of_extends hextends
  refine ⟨hextends, DeadLetter.nodup_listed hM.distinct resolved, List.pairwise_insertionSort _ _,
    fun dlq => DeadLetter.mem_listed, ?_, fun dlq hdlq =>
      h.later lawful hextends (DeadLetter.mem_listed.mp hdlq).1⟩
  rintro rfl
  have hkept : letterDocket.Kept M.db := hM.docket rfl fun htransaction happ hkept =>
    htransaction.keeps_letters lawful happ hkept
  refine ⟨?_, DeadLetter.nodup_events hM.distinct⟩
  rw [← hkept.outstanding hM.distinct, DeadLetter.listed, List.length_insertionSort]
  apply congrArg List.length
  refine List.filter_congr fun dlq _ => ?_
  cases hresolved : DeadLetterQueue.resolved dlq <;> simp [letterDocket, revivals, hresolved]

theorem History.reviews_listed (lawful : sight.Lawful) (h : History app sight L) (hextends : Extends M L)
    (status : String) : ManualReview.Lists L status M (ManualReview.listed status M.db) := by
  have hM : History app sight M := h.of_extends hextends
  refine ⟨hextends, ManualReview.nodup_listed hM.distinct status, List.pairwise_insertionSort _ _,
    fun review => ManualReview.mem_listed, ?_, fun review hreview =>
      h.later lawful hextends (ManualReview.mem_listed.mp hreview).1⟩
  rintro rfl
  have hkept : reviewDocket.Kept M.db := hM.docket rfl fun htransaction happ hkept =>
    htransaction.keeps_reviews lawful happ hkept
  rw [← hkept.outstanding hM.distinct, ManualReview.listed, List.length_insertionSort]
  apply congrArg List.length
  refine List.filter_congr fun review _ => ?_
  cases hstatus : ManualReviewQueue.status review <;>
    simp [reviewDocket, hstatus, ManualReview.statusText]

theorem History.reviews_paged (lawful : sight.Lawful) (h : History app sight L) {M' : Ledger Db Write}
    (hextends : Extends M M') (hextends' : Extends M' L) :
    ManualReview.Pages L M (ManualReview.shownPage (ManualReview.listed "pending" M.db)
      (ManualReview.listed "resolved" M'.db)) := by
  refine ⟨hextends.trans hextends', ManualReview.pairwise_shownPage _ _, ?_, ?_, ?_⟩
  · exact List.length_take_le ..
  · intro review hreview hstatus hcut
    exact ManualReview.shownPage_cut (ManualReview.mem_listed.mpr ⟨hreview, by rw [hstatus]; rfl⟩)
      hstatus hcut
  · intro review hreview
    obtain hmem | hmem := ManualReview.mem_of_mem_shownPage hreview
    · exact h.later lawful (hextends.trans hextends') (ManualReview.mem_listed.mp hmem).1
    · exact h.later lawful hextends' (ManualReview.mem_listed.mp hmem).1

/-- A parked event, and the page that shows its review. -/
def leaf : List (Action (Request ⊕ Query)) :=
  [.spawn (.inl engagement), .spawn (.inr .reviewPage)] ++ List.replicate 14 (.step 0) ++
    List.replicate 3 (.step 1)

/-- A page of one review. -/
def single : Query × View → Bool
  | (.reviewPage, .reviews entries) => entries.length = 1
  | _ => false

end DemandSignal
