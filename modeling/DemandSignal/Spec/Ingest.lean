import DemandSignal.Spec.Transactions

/-!
# What ingest does

One rule for each function of `app/services/ingest.py`.
-/

namespace DemandSignal

open Txn Program

variable {rules : Rules Db Write Question Reply} {sight : Sight} {s : Session Write Reply}
  {L : Ledger Db Write}

theorem wp_writeReceipt (fair : Fair rules sight) (hs : Ready s L) {actionType : ActionType}
    {entityId : Uuid} {entityType : EntityType} {metadata : Meta} {eventId identityId : Option Uuid}
    {status : ReceiptStatus} {post : Post Db Write Error Reply Receipt}
    (h : ∀ s' L' id now, Proceeds rules s L now [.insert .receipts (receipt actionType entityId
        entityType metadata eventId identityId status id now)] s' L' → id ∈ s'.own →
      post (.ok (receipt actionType entityId entityType metadata eventId identityId status id now))
        s' L') :
    wp rules (writeReceipt actionType entityId entityType metadata eventId identityId status) post s
      L :=
  wp_insert_unindexed fair hs (fun _ _ => rfl) (fun _ _ => rfl)
    fun s' L' id now hproceeds hown _ => h s' L' id now hproceeds hown

namespace Ingest

variable {app : App} {model : EventIn} {payload : Json.Fields}

/-- The event a payload's pair leads to. -/
theorem wp_findHeld (fair : Fair rules sight) (hs : s.pending = [])
    {post : Post Db Write Error Reply (Option Event)}
    (hsome : ∀ s' L' now event, Proceeds rules s L now [] s' L' → rules.Permits s L' .read →
      event ∈ L'.db .events → Holds app model event → post (.ok (some event)) s' L')
    (hnone : ∀ s' L', Rests s [] s' → s'.rollbacks = s.rollbacks → Before rules s.own L L' →
      (∀ dedupeKey ∈ computeDedupeKey app (.str model.source) (.str model.externalEventId),
        L'.db.holds .events (.eventDedupeKey dedupeKey) = false) → post (.ok none) s' L') :
    wp rules (findExisting (computeDedupeKey app (.str model.source) (.str model.externalEventId)))
      post s L := by
  unfold findExisting
  generalize hkey : computeDedupeKey app (.str model.source) (.str model.externalEventId) = dedupeKey
    at hnone
  cases dedupeKey with
  | none => exact hnone s L ⟨hs, by simp, fun _ hu => hu⟩ rfl (.refl L) (by simp)
  | some dedupeKey =>
      refine wp_find fair (.of_idle hs L) (by simp [hs]) (fun s' L' now event hproceeds hpermit hfind => ?_)
        fun s' L' now hproceeds hnone' => ?_
      · have hp := List.find?_some hfind
        simp only [Bool.and_eq_true, decide_eq_true_eq] at hp
        exact hsome s' L' now event hproceeds hpermit (List.mem_of_find?_eq_some hfind)
          ⟨hp.2, by rw [hp.1, hkey]⟩
      · refine hnone s' L' (hproceeds.rests hs) hproceeds.rollbacks hproceeds.before ?_
        rintro _ ⟨⟩
        rw [Db.holds_eq_false]
        intro event hevent hmem
        refine hnone' event hevent ?_
        simp only [Row.keys, List.mem_cons, reduceCtorEq, false_or, Row.indexed] at hmem
        split at hmem <;> simp_all

theorem wp_createEvent (fair : Fair rules sight) (hs : s.pending = [])
    (hvalid : Schemas.validate app payload = .ok model)
    (hcreates : ∀ id, Owes rules s fun _ ws => Creates app model payload id ws)
    (hedits : ∀ existing, Owes rules s fun L ws => Edits app sight L model payload existing ws)
    {post : Post Db Write Error Reply (Event × IngestStatus)}
    (hduplicate : ∀ s' L' event, Rests s [] s' → Before rules s.own L L' → event ∈ L'.db .events →
      Holds app model event → event.payloadHash = computePayloadHash app payload →
      post (.ok (event, .duplicate)) s' L')
    (hlost : ∀ s' L' event, Raced rules → Rests s [] s' → Before rules s.own L L' →
      event ∈ L'.db .events → Holds app model event →
      (∃ s₁, s₁.rollbacks = s.rollbacks + 1 ∧ rules.Permits s₁ L' .read) →
      post (.ok (event, .duplicate)) s' L')
    (hcreated : ∀ s' L₁ L' id ws event, Rests s [] s' → Before rules s.own L L₁ →
      Creates app model payload id ws → Applicable ws L₁.db → Before rules s.own (L₁.commit ws) L' →
      (L'.db .events).find? (fun event => event.id = id) = some event → id ∈ s'.own → id ∉ s.own →
      insertIds ws ⊆ s'.own → post (.ok (event, .created)) s' L')
    (hedited : ∀ s' L₁ L' existing ws event, Rests s [] s' → Before rules s.own L L₁ →
      Edits app sight L₁ model payload existing ws → Applicable ws L₁.db →
      Before rules s.own (L₁.commit ws) L' →
      (L'.db .events).find? (fun event => event.id = existing.id) = some event →
      insertIds ws ⊆ s'.own → post (.ok (event, .edit)) s' L')
    (hdata : acceptable model payload = false → ∀ s' L', Rests s [] s' → Before rules s.own L L' →
      Differs app model payload L'.db → post (.error .dataError) s' L')
    (hraced : ∀ x s' L', Raced rules → post (.error x) s' L') :
    wp rules (createEvent app model payload) post s L := by
  unfold createEvent
  simp only [bind_eq, pure_eq, wp_bind]
  refine wp_findHeld fair hs (fun s₁ L₁ now₁ existing h₁ _ hexisting hholds => ?_)
    fun s₁ L₁ hrests hrollbacks hbefore hfree => ?_
  · simp only [Post.andThen_ok]
    by_cases hhash : existing.payloadHash = computePayloadHash app payload
    · rw [if_pos hhash]
      exact hduplicate s₁ L₁ existing (h₁.rests hs) h₁.before hexisting hholds hhash
    · rw [if_neg hhash]
      by_cases haccept : acceptable model payload = true
      · rw [if_pos haccept, wp_bind]
        have hseen := fair.now (fun db => existing ∈ db .events) L₁ hexisting
        have hhas : L₁.db.Has .events existing.id := ⟨existing, hexisting, rfl⟩
        refine wp_save_of_ne fair h₁.ready (by decide) (fun _ => rfl) fun s₂ L₂ now₂ h₂ => ?_
        have hseen := h₂.before.sight fair hseen
        have hhas := h₂.before.has fair hhas
        obtain ⟨rfl, h₂⟩ := h₁.trans h₂
        simp only [Post.andThen_ok, wp_bind]
        refine wp_writeReceipt fair h₂.ready fun s₃ L₃ rid now₃ h₃ _ => ?_
        have hseen := h₃.before.sight fair hseen
        have hhas := h₃.before.has fair hhas
        obtain ⟨rfl, h₃⟩ := h₂.trans h₃
        simp only [Post.andThen_ok, wp_bind]
        refine wp_commitNow fair h₃.ready (hedits existing) h₃.own (by rw [h₃.pending, hs]; rfl)
          (fun L₄ h₄ => .intro hvalid haccept (h₄.sight fair hseen) hholds hhash)
          fun L₄ h₄ hT happ => ?_
        simp only [Post.andThen_ok, wp_bind]
        refine wp_refresh fair (.of_idle rfl _) (by simp [Session.close])
          ((h₄.has fair hhas).foldl _) fun s₅ L₅ now₅ current h₅ hfind => ?_
        exact hedited s₅ L₄ L₅ existing _ current (h₃.rests_close.trans (h₅.rests rfl))
          (h₃.before.trans (h₄.mono h₃.own)) hT happ (h₅.before.mono h₃.own) hfind
          fun u hu => h₅.own (h₃.ready.own u (by rw [h₃.pending, hs]; exact hu))
      · rw [if_neg haccept]
        exact hdata (by simpa using haccept) s₁ L₁ (h₁.rests hs) h₁.before
          (.inr ⟨existing, hexisting, hholds, hhash⟩)
  · simp only [Post.andThen_ok]
    by_cases haccept : acceptable model payload = true
    · rw [if_pos haccept, wp_bind]
      refine wp_tryInsert_seen fair (.of_idle hrests.pending _) (fun _ _ => rfl)
        (by simp [hrests.pending]) ?_ (fun _ _ _ _ _ => trivial)
        (fun s₂ L₂ id now₂ h₂ hid hnew => ?_)
        fun s₂ L₂ now₂ h₂ hrace => ?_
      · intro id now key hkey
        simp only [created, Row.indexed] at hkey
        split at hkey
        · next heq =>
          rw [List.mem_singleton] at hkey
          subst hkey
          exact hfree _ heq
        · cases hkey
      · simp only [Post.andThen_ok, wp_bind]
        refine wp_writeReceipt fair h₂.ready fun s₃ L₃ rid now₃ h₃ _ => ?_
        obtain ⟨rfl, h₃'⟩ := h₂.trans h₃
        simp only [Post.andThen_ok, wp_bind]
        refine wp_commitNow fair h₃.ready (hcreates id) (fun _ hu => h₃'.own (hrests.own hu))
          (by rw [h₃'.pending, hrests.pending]; rfl) (fun L₄ h₄ => .intro hvalid haccept)
          fun L₄ h₄ hT happ => ?_
        simp only [Post.andThen_ok, wp_bind]
        refine wp_refresh fair (.of_idle rfl _) (by simp [Session.close])
          (Db.has_of_insert (List.mem_cons_self ..)) fun s₅ L₅ now₅ current h₅ hfind => ?_
        have hown₃ : s.own ⊆ s₃.own := fun _ hu => h₃'.own (hrests.own hu)
        exact hcreated s₅ L₄ L₅ id _ current
          ((hrests.trans h₃'.rests_close).trans (h₅.rests rfl))
          ((hbefore.trans (h₃'.before.mono hrests.own)).trans (h₄.mono hown₃)) hT happ
          (h₅.before.mono hown₃) hfind (h₅.own (h₃.own hid)) (fun hu => hnew (hrests.own hu))
          fun u hu => h₅.own (h₃.ready.own u (by rw [h₃'.pending, hrests.pending]; exact hu))
      · simp only [Post.andThen_ok, wp_bind]
        refine wp_rollbackNow fun L₃ h₃ => ?_
        have hrests₃ : Rests s [] s₂.undo :=
          hrests.trans ⟨rfl, by simpa [Session.undo] using h₂.replies, h₂.own⟩
        have hbefore₃ : Before rules s.own L L₃ :=
          (hbefore.trans (h₂.before.mono hrests.own)).trans
            (h₃.mono fun _ hu => h₂.own (hrests.own hu))
        simp only [Post.andThen_ok, wp_bind]
        refine wp_findHeld fair rfl (fun s₄ L₄ now₄ event h₄ hpermit hevent hholds => ?_)
          fun s₄ L₄ hrests₄ _ hbefore₄ _ => ?_
        · exact hlost s₄ L₄ event hrace (hrests₃.trans (h₄.rests rfl))
            (hbefore₃.trans (h₄.before.mono hrests₃.own)) hevent hholds
            ⟨s₂.undo, by simp [Session.undo, h₂.rollbacks, hrollbacks], hpermit⟩
        · exact hraced _ s₄ L₄ hrace
    · rw [if_neg haccept]
      exact hdata (by simpa using haccept) s₁ L₁ hrests hbefore (.inl hfree)

/-- The row of a rejected payload is invalid, so no unique index holds its key. -/
theorem rejectedEvent_spec {reason : String} {receivedAt : Time} {row : Uuid → Time → Event}
    (h : rejectedEvent app payload reason receivedAt = some row) (id : Uuid) (now : Time) :
    (row id now).id = id ∧ (row id now).isValid = false ∧ (row id now).isEdit = false ∧
      (row id now).createdAt = now := by
  simp only [rejectedEvent] at h
  split at h
  · split at h
    · cases h
      exact ⟨rfl, rfl, rfl, rfl⟩
    · cases h
  · cases h

/-- The database takes the columns of the record: text where it wants text, and a time or nothing to
go by where it wants a time. -/
def recordable (app : App) (payload : Json.Fields) (reason : String) : Bool :=
  (match Json.get payload "received_at" with
    | .null => true
    | .str _ => true
    | _ => false) && (rejectedEvent app payload reason 0).isSome

theorem rejectedEvent_isSome (app : App) (payload : Json.Fields) (reason : String)
    (receivedAt receivedAt' : Time) : (rejectedEvent app payload reason receivedAt).isSome =
      (rejectedEvent app payload reason receivedAt').isSome := by
  simp only [rejectedEvent]
  split
  · split <;> rfl
  · rfl

theorem wp_rejectedReceivedAt (fair : Fair rules sight) (hs : s.pending = [])
    {post : Post Db Write Error Reply (Option Time)} {reason : String}
    (h : ∀ L' receivedAt, Before rules s.own L L' →
      (receivedAt.bind (rejectedEvent app payload reason)).isSome = recordable app payload reason →
      post (.ok receivedAt) s L') :
    wp rules (rejectedReceivedAt app payload) post s L := by
  have hsome : ∀ receivedAt, ((some receivedAt).bind (rejectedEvent app payload reason)).isSome =
      (true && (rejectedEvent app payload reason 0).isSome) :=
    fun receivedAt => rejectedEvent_isSome app payload reason receivedAt 0
  have hclock : recordable app payload reason = (true && (rejectedEvent app payload reason 0).isSome) →
      wp rules (utcNow.bind fun t => .ret (some t)) post s L := by
    intro hrecordable
    rw [wp_bind]
    exact wp_utcNow fair (.of_idle hs L) fun L' t hbefore _ _ =>
      h L' (some t) hbefore (by rw [hrecordable, hsome])
  unfold rejectedReceivedAt
  simp only [bind_eq, pure_eq]
  split
  · next hnull => exact hclock (by rw [recordable, hnull])
  · next text htext =>
    have hrecordable : recordable app payload reason =
        (true && (rejectedEvent app payload reason 0).isSome) := by rw [recordable, htext]
    split
    · exact h L _ (.refl L) (by rw [hrecordable, hsome])
    · exact hclock hrecordable
  · next hnull htext =>
    refine h L _ (.refl L) ?_
    rw [Option.bind_none, Option.isSome_none, recordable]
    split
    · exact absurd ‹_› hnull
    · exact absurd ‹_› (htext _)
    · rfl

theorem wp_persistInvalidEvent (fair : Fair rules sight) (hs : s.pending = []) {reason : String}
    (hrejects : Owes rules s fun _ ws => Rejects app ws) {post : Post Db Write Error Reply Event}
    (hok : ∀ s' L₁ L' ws event, Rests s [] s' → Before rules s.own L L₁ →
      recordable app payload reason = true → Refuses app payload reason ws → Applicable ws L₁.db →
      Before rules s.own (L₁.commit ws) L' → post (.ok event) s' L')
    (hdata : recordable app payload reason = false → ∀ L', Before rules s.own L L' →
      post (.error .dataError) s L') :
    wp rules (persistInvalidEvent app payload reason) post s L := by
  unfold persistInvalidEvent
  simp only [bind_eq, wp_bind]
  refine wp_rejectedReceivedAt fair hs fun L₁ receivedAt h₁
    (hrecordable : (receivedAt.bind (rejectedEvent app payload reason)).isSome =
      recordable app payload reason) => ?_
  simp only [Post.andThen_ok]
  cases hrow : receivedAt.bind (rejectedEvent app payload reason) with
  | none =>
      rw [hrow] at hrecordable
      exact hdata hrecordable.symm L₁ h₁
  | some row =>
      rw [hrow] at hrecordable
      obtain ⟨receivedAt, -, hrow⟩ := Option.bind_eq_some_iff.mp hrow
      have hspec := rejectedEvent_spec hrow
      simp only [wp_bind]
      refine wp_insert_unindexed fair (.of_idle hs _) (fun id now => (hspec id now).1)
        (fun id now => by simp [Row.indexed, (hspec id now).2.1]) fun s₂ L₂ id now₂ h₂ _ _ => ?_
      simp only [Post.andThen_ok, wp_bind]
      refine wp_writeReceipt fair h₂.ready fun s₃ L₃ rid now₃ h₃ _ => ?_
      obtain ⟨rfl, h₃⟩ := h₂.trans h₃
      simp only [Post.andThen_ok, wp_bind]
      have hid : Row.id (t := .events) (row id now₃) = id := (hspec id now₃).1
      have hrefuses : Refuses app payload reason [.insert .events (row id now₃),
          .insert .receipts (receipt .eventRejected id .event (.eventRejected reason) (some id) none
            .error rid now₃)] := .intro hrow
      refine wp_commitNow fair h₃.ready hrejects h₃.own rfl (fun L₄ h₄ => ?_) fun L₄ h₄ hT happ => ?_
      · rw [h₃.pending, hs, hid]
        exact hrefuses.rejects
      · rw [h₃.pending, hs, hid] at happ ⊢
        simp only [Post.andThen_ok]
        refine wp_refresh fair (.of_idle rfl _) (by simp [Session.close])
          (Db.has_of_insert (List.mem_cons_self ..)) fun s₅ L₅ now₅ current h₅ _ => ?_
        exact hok s₅ L₄ L₅ _ current (h₃.rests_close.trans (h₅.rests rfl))
          ((h₁.trans h₃.before).trans (h₄.mono h₃.own)) hrecordable.symm hrefuses happ (h₅.before.mono h₃.own)

end Ingest

end DemandSignal
