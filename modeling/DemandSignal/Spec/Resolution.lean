import DemandSignal.Spec.Ingest

/-!
# What resolution does

One rule for each function of `app/services/resolve.py`.
-/

namespace DemandSignal

open Txn Program

namespace Resolve

variable {rules : Rules Db Write Question Reply} {sight : Sight} {s : Session Write Reply}
  {L : Ledger Db Write} {app : App}

/-! ### Links and reviews -/

theorem wp_upsertIdentityLink (fair : Fair rules sight) (hs : Ready s L)
    (huntouched : ∀ w ∈ s.pending, w.table ≠ .identityLinks) {eventId identityId : Uuid}
    {matchConfidence : Decimal} {matchRule : MatchRule} {post : Post Db Write Error Reply Unit}
    (hok : ∀ s' L' now link, Proceeds rules s L now (link.writes now) s' L' →
      LinksBy sight L' eventId identityId matchConfidence matchRule link → post (.ok ()) s' L')
    (hraced : ∀ x s' L', Raced rules → post (.error x) s' L') :
    wp rules (upsertIdentityLink eventId identityId matchConfidence matchRule) post s L := by
  unfold upsertIdentityLink findLink
  simp only [bind_eq, pure_eq, wp_bind]
  refine wp_find fair hs huntouched (fun s₁ L₁ now₁ link h₁ _ hfind => ?_)
    fun s₁ L₁ now₁ h₁ hnone => ?_
  · simp only [Post.andThen_ok]
    have hlink : link ∈ L₁.db .identityLinks := List.mem_of_find?_eq_some hfind
    have hevent : IdentityLink.eventId link = eventId := by simpa using List.find?_some hfind
    refine wp_save_of_ne fair h₁.ready (by decide) (fun _ => rfl) fun s₂ L₂ now₂ h₂ => ?_
    obtain ⟨rfl, h₂'⟩ := h₁.trans h₂
    exact hok s₂ L₂ now₂ (.updated link _) h₂'
      ⟨h₂.before.sight fair (fair.now _ _ hlink), hevent, rfl⟩
  · simp only [Post.andThen_ok, wp_bind]
    have hnone : Unlinked eventId L₁.db := fun link hlink => by simpa using hnone link hlink
    refine wp_insert fair h₁.ready (fun _ _ => rfl) (by rwa [h₁.pending, List.append_nil]) ?_
      (fun _ _ _ _ _ => trivial) (fun s₂ L₂ id now₂ h₂ _ _ => ?_) (hraced _)
    · intro id now key hkey
      rw [Row.indexed, List.mem_singleton] at hkey
      rw [Db.holds_eq_false]
      intro link hlink hmem
      simp only [hkey, Row.keys, Row.indexed, List.mem_cons, reduceCtorEq, Key.linkEvent.injEq,
        List.not_mem_nil, or_false, false_or] at hmem
      exact hnone link hlink hmem.symm
    · obtain ⟨rfl, h₂'⟩ := h₁.trans h₂
      simp only [Post.andThen_ok]
      exact hok s₂ L₂ now₂ (.created _) (by simpa using h₂')
        ⟨h₂.before.sight fair (fair.now (Unlinked eventId) _ hnone), rfl⟩

theorem wp_queueReview (fair : Fair rules sight) (hs : s.pending = []) {eventId : Uuid}
    {candidateIdentityId : Option Uuid} {reason : String}
    {post : Post Db Write Error Reply ManualReviewQueue}
    (hok : ∀ s' L' now rid (entry : Upsert .manualReviewQueue),
      Proceeds rules s L now (entry.writes now ++ queuedReceipt eventId reason rid now entry) s' L' →
      QueuesBy sight L' eventId candidateIdentityId reason entry → post (.ok entry.row) s' L')
    (hraced : ∀ x s' L', Raced rules → post (.error x) s' L') :
    wp rules (queueReview eventId candidateIdentityId reason) post s L := by
  unfold queueReview
  simp only [bind_eq, pure_eq, wp_bind]
  refine wp_find fair (.of_idle hs L) (by simp [hs]) (fun s₁ L₁ now₁ review h₁ _ hfind => ?_)
    fun s₁ L₁ now₁ h₁ hnone => ?_
  · simp only [Post.andThen_ok, wp_bind]
    have hreview : review ∈ L₁.db .manualReviewQueue := List.mem_of_find?_eq_some hfind
    have hevent : ManualReviewQueue.eventId review = eventId := by simpa using List.find?_some hfind
    refine wp_save_of_ne fair h₁.ready (by decide) (fun _ => rfl) fun s₂ L₂ now₂ h₂ => ?_
    obtain ⟨rfl, h₂'⟩ := h₁.trans h₂
    exact hok s₂ L₂ now₂ 0 (.updated review _) (by simpa [queuedReceipt] using h₂')
      ⟨h₂.before.sight fair (fair.now _ _ hreview), hevent, rfl⟩
  · simp only [Post.andThen_ok, wp_bind]
    have hnone : ∀ review ∈ L₁.db .manualReviewQueue, ¬ ManualReviewQueue.eventId review = eventId :=
      fun review hreview => by simpa using hnone review hreview
    refine wp_insert fair h₁.ready (fun _ _ => rfl) (by simp [h₁.pending, hs]) ?_
      (fun _ _ _ _ _ => trivial) (fun s₂ L₂ id now₂ h₂ _ _ => ?_) (hraced _)
    · intro id now key hkey
      rw [Row.indexed, List.mem_singleton] at hkey
      rw [Db.holds_eq_false]
      intro review hreview hmem
      simp only [hkey, Row.keys, Row.indexed, List.mem_cons, reduceCtorEq, Key.reviewEvent.injEq,
        List.not_mem_nil, or_false, false_or] at hmem
      exact hnone review hreview hmem.symm
    · obtain ⟨rfl, h₂'⟩ := h₁.trans h₂
      simp only [Post.andThen_ok, wp_bind]
      refine wp_writeReceipt fair h₂.ready fun s₃ L₃ rid now₃ h₃ _ => ?_
      obtain ⟨rfl, h₃'⟩ := h₂'.trans h₃
      refine hok s₃ L₃ now₃ rid (.created _) (by rw [Upsert.writes_created]; exact h₃') ⟨?_, rfl⟩
      exact h₃.before.sight fair (h₂.before.sight fair
        (fair.now (fun db => ∀ review ∈ db .manualReviewQueue, ¬ ManualReviewQueue.eventId review = eventId)
          _ hnone))

theorem wp_park (fair : Fair rules sight) (hs : s.pending = []) {event : Event}
    {candidateIdentityId : Option Uuid} {reason : String} (hevent : Sees sight L event)
    (hunlinked : sight (Unlinked event.id) L)
    (hproposes : Proposes app sight L (fieldsOf event) candidateIdentityId reason)
    (howes : Owes rules s fun L ws => Parks app sight L event ws)
    {post : Post Db Write Error Reply Resolution}
    (hparked : ∀ s' L₁ L' ws reviewId, Rests s [] s' → Before rules s.own L L₁ →
      Parks app sight L₁ event ws → Applicable ws L₁.db → Before rules s.own (L₁.commit ws) L' →
      post (.ok (.queuedReview reviewId)) s' L')
    (hraced : ∀ x s' L', Raced rules → post (.error x) s' L') :
    wp rules (park event.id candidateIdentityId reason) post s L := by
  unfold park
  simp only [bind_eq, pure_eq, wp_bind]
  refine wp_queueReview fair hs (fun s₁ L₁ now₁ rid entry h₁ hentry => ?_) hraced
  have hevent := h₁.before.sight fair hevent
  have hunlinked := h₁.before.sight fair hunlinked
  have hproposes := hproposes.mono fun P => h₁.before.sight fair
  simp only [Post.andThen_ok, wp_bind]
  refine wp_commitNow fair h₁.ready howes h₁.own (by rw [h₁.pending, hs, List.nil_append])
    (fun L₂ h₂ => .intro (h₂.sight fair hevent) (h₂.sight fair hunlinked)
      (hproposes.mono fun P => h₂.sight fair) (hentry.mono fun P => h₂.sight fair)) fun L₂ h₂ hT happ => ?_
  simp only [Post.andThen_ok, wp_bind]
  obtain ⟨row, hrow, hkept⟩ := (hentry.mono fun P => h₂.sight fair).exists_kept fair.toLawful
    (entry.writes now₁ ++ queuedReceipt event.id reason rid now₁ entry) (by simp [Upsert.writes])
  have hhas : Db.Has (L₂.commit (entry.writes now₁ ++ queuedReceipt event.id reason rid now₁ entry)).db
      .manualReviewQueue entry.row.id :=
    ⟨row, hrow, (hkept.static (Row.static_id _)).trans (Upsert.By.kept hentry fun _ => rfl).symm⟩
  refine wp_refresh fair (.of_idle rfl _) (by simp [Session.close]) hhas
    fun s₃ L₃ now₃ current h₃ _ => ?_
  exact hparked s₃ L₂ L₃ _ _ (h₁.rests_close.trans (h₃.rests rfl))
    (h₁.before.trans (h₂.mono h₁.own)) hT happ (h₃.before.mono h₁.own)

/-! ### The rules -/

theorem wp_linkViaExact (fair : Fair rules sight) (hs : s.pending = []) {event : Event}
    {matchRule : MatchRule} {p : Identity → Bool} {create : Uuid → Time → Identity}
    (hevent : Sees sight L event) (hunlinked : sight (Unlinked event.id) L)
    (hfinds : ∀ identity, p identity → (rule app (fieldsOf event)).Finds matchRule identity)
    (hmints : ∀ id now, (rule app (fieldsOf event)).mints (fieldsOf event) id now =
      some (matchRule, create id now))
    (hid : ∀ id now, (create id now).id = id)
    (hmisses : ∀ db : Db, (∀ identity ∈ db .identities, ¬ p identity) →
      (rule app (fieldsOf event)).Misses app (fieldsOf event) db)
    (hfree : ∀ (db : Db) id now, (∀ identity ∈ db .identities, ¬ p identity) →
      ∀ key ∈ Row.indexed (t := .identities) (create id now), db.holds .identities key = false)
    (howes : ∀ identityId, Owes rules s fun L ws => Links app sight L event identityId ws)
    {post : Post Db Write Error Reply Resolution}
    (hlinked : ∀ s' L₁ L' ws identityId expired, Rests s [] s' → Before rules s.own L L₁ →
      Links app sight L₁ event identityId ws → Applicable ws L₁.db →
      Before rules s.own (L₁.commit ws) L' → (expired = true → Raced rules) →
      post (.ok (.linked identityId expired)) s' L')
    (hraced : ∀ x s' L', Raced rules → post (.error x) s' L') :
    wp rules (linkViaExact event matchRule (find .identities p) create) post s L := by
  -- the last two statements of both ways to an existing identity
  have hfound : ∀ s₁ L₁ now₁ identity expired, Rests s [] s₁ → Before rules s.own L L₁ →
      Sees sight L₁ event → sight (Unlinked event.id) L₁ →
      (L₁.db .identities).find? p = some identity → (expired = true → Raced rules) →
      Ready s₁ L₁ → s₁.start = some now₁ →
      wp rules ((upsertIdentityLink event.id identity.id certain matchRule).bind fun _ =>
        commitNow.bind fun _ => .ret (.linked identity.id expired)) post s₁ L₁ := by
    intro s₁ L₁ now₁ identity expired hrests hbefore hevent hunlinked hfind hexpired hready hstart
    have hidentity := fair.now (fun db => identity ∈ db .identities) L₁
      (List.mem_of_find?_eq_some hfind)
    rw [wp_bind]
    refine wp_upsertIdentityLink fair hready (by simp [hrests.pending])
      (fun s₂ L₂ now₂ link h₂ hlink => ?_) hraced
    have hevent := h₂.before.sight fair hevent
    have hunlinked := h₂.before.sight fair hunlinked
    have hidentity := h₂.before.sight fair hidentity
    have hown₂ : s.own ⊆ s₂.own := fun _ hu => h₂.own (hrests.own hu)
    simp only [Post.andThen_ok, wp_bind]
    refine wp_commitNow fair h₂.ready (howes identity.id) hown₂
      (by rw [h₂.pending, hrests.pending, List.nil_append])
      (fun L₃ h₃ => .found (h₃.sight fair hevent) (h₃.sight fair hunlinked)
        (h₃.sight fair hidentity) (hfinds identity (List.find?_some hfind))
        (hlink.mono fun P => h₃.sight fair)) fun L₃ h₃ hT happ => ?_
    exact hlinked _ L₃ _ _ identity.id expired (hrests.trans h₂.rests_close)
      ((hbefore.trans (h₂.before.mono hrests.own)).trans (h₃.mono hown₂)) hT happ (.refl _) hexpired
  unfold linkViaExact
  simp only [bind_eq, pure_eq, wp_bind]
  refine wp_find fair (.of_idle hs L) (by simp [hs]) (fun s₁ L₁ now₁ identity h₁ _ hfind => ?_)
    fun s₁ L₁ now₁ h₁ hnone => ?_
  · simp only [Post.andThen_ok]
    exact hfound s₁ L₁ now₁ identity false (h₁.rests hs) h₁.before (h₁.before.sight fair hevent)
      (h₁.before.sight fair hunlinked) hfind (by simp) h₁.ready h₁.start
  · have hevent := h₁.before.sight fair hevent
    have hunlinked := h₁.before.sight fair hunlinked
    have hmisses := fair.now
      (fun db => (rule app (fieldsOf event)).Misses app (fieldsOf event) db) L₁ (hmisses L₁.db hnone)
    simp only [Post.andThen_ok, wp_bind]
    refine wp_tryInsert_seen fair h₁.ready hid (by simp [h₁.pending, hs])
      (fun id now => hfree L₁.db id now hnone) (fun _ _ _ _ _ => trivial)
      (fun s₂ L₂ id now₂ h₂ _ _ => ?_)
      fun s₂ L₂ now₂ h₂ hrace => ?_
    · have hevent := h₂.before.sight fair hevent
      have hunlinked := h₂.before.sight fair hunlinked
      have hmisses := h₂.before.sight fair hmisses
      have hcreated : Row.id (t := .identities) (create id now₂) = id := hid id now₂
      obtain ⟨rfl, h₂'⟩ := h₁.trans h₂
      simp only [Post.andThen_ok, wp_bind]
      refine wp_writeReceipt fair h₂.ready fun s₃ L₃ rid now₃ h₃ _ => ?_
      have hevent := h₃.before.sight fair hevent
      have hunlinked := h₃.before.sight fair hunlinked
      have hmisses := h₃.before.sight fair hmisses
      obtain ⟨rfl, h₃'⟩ := h₂'.trans h₃
      simp only [Post.andThen_ok, wp_bind]
      refine wp_upsertIdentityLink fair h₃.ready ?_ (fun s₄ L₄ now₄ link h₄ hlink => ?_) hraced
      · rw [h₃'.pending, hs]
        simp [Write.table]
      have hevent := h₄.before.sight fair hevent
      have hunlinked := h₄.before.sight fair hunlinked
      have hmisses := h₄.before.sight fair hmisses
      obtain ⟨rfl, h₄'⟩ := h₃'.trans h₄
      simp only [Post.andThen_ok, wp_bind]
      rw [hid] at hlink
      refine wp_commitNow fair h₄.ready (howes id) h₄'.own
        (by rw [h₄'.pending, hs, hcreated]; rfl)
        (fun L₅ h₅ => .minted (h₅.sight fair hevent) (h₅.sight fair hunlinked)
          (h₅.sight fair hmisses) (hmints id now₄)
          (hlink.mono fun P => h₅.sight fair)) fun L₅ h₅ hT happ => ?_
      rw [Post.andThen_ok, hid]
      exact hlinked _ L₅ _ _ id false h₄'.rests_close (h₄'.before.trans (h₅.mono h₄'.own)) hT happ
        (.refl _) (by simp)
    · simp only [Post.andThen_ok, wp_bind]
      refine wp_rollbackNow fun L₃ h₃ => ?_
      have hevent := h₃.sight fair (h₂.before.sight fair hevent)
      have hunlinked := h₃.sight fair (h₂.before.sight fair hunlinked)
      have hrests₃ : Rests s [] s₂.undo :=
        ⟨rfl, by simp [Session.undo, h₂.replies, h₁.replies], fun _ hu => h₂.own (h₁.own hu)⟩
      have hbefore₃ : Before rules s.own L L₃ :=
        (h₁.before.trans (h₂.before.mono h₁.own)).trans (h₃.mono hrests₃.own)
      simp only [Post.andThen_ok, wp_bind]
      refine wp_find fair (.of_idle rfl _) (by simp [Session.undo])
        (fun s₄ L₄ now₄ identity h₄ _ hfind => ?_) fun s₄ L₄ now₄ h₄ _ => ?_
      · simp only [Post.andThen_ok]
        exact hfound s₄ L₄ now₄ identity true (hrests₃.trans (h₄.rests rfl))
          (hbefore₃.trans (h₄.before.mono hrests₃.own)) (h₄.before.sight fair hevent)
          (h₄.before.sight fair hunlinked) hfind (fun _ => hrace) h₄.ready h₄.start
      · exact hraced _ s₄ L₄ hrace

theorem wp_resolveByName (fair : Fair rules sight) (hs : s.pending = []) {event : Event}
    {name : String} (hevent : Sees sight L event) (hunlinked : sight (Unlinked event.id) L)
    (hrule : rule app (fieldsOf event) = .fuzzyName name)
    (hlinks : ∀ identityId, Owes rules s fun L ws => Links app sight L event identityId ws)
    (hparks : Owes rules s fun L ws => Parks app sight L event ws)
    {post : Post Db Write Error Reply Resolution}
    (hlinked : ∀ s' L₁ L' ws identityId expired, Rests s [] s' → Before rules s.own L L₁ →
      Links app sight L₁ event identityId ws → Applicable ws L₁.db →
      Before rules s.own (L₁.commit ws) L' → (expired = true → Raced rules) →
      post (.ok (.linked identityId expired)) s' L')
    (hparked : ∀ s' L₁ L' ws reviewId, Rests s [] s' → Before rules s.own L L₁ →
      Parks app sight L₁ event ws → Applicable ws L₁.db → Before rules s.own (L₁.commit ws) L' →
      post (.ok (.queuedReview reviewId)) s' L')
    (hraced : ∀ x s' L', Raced rules → post (.error x) s' L') :
    wp rules (resolveByName app event name (companyName (fieldsOf event))) post s L := by
  unfold resolveByName findFuzzyCandidate
  simp only [bind_eq, pure_eq, wp_bind]
  refine wp_findAll fair (.of_idle hs L) (by simp [hs]) fun s₁ L₁ now₁ h₁ => ?_
  have hevent := h₁.before.sight fair hevent
  have hunlinked := h₁.before.sight fair hunlinked
  simp only [Post.andThen_ok, wp]
  cases hcandidate : fuzzyCandidate app name (companyName (fieldsOf event)) (named L₁.db) with
  | none =>
    have hmisses : (rule app (fieldsOf event)).Misses app (fieldsOf event) L₁.db := by
      rw [hrule]
      exact hcandidate
    have hmisses := fair.now
      (fun db => (rule app (fieldsOf event)).Misses app (fieldsOf event) db) L₁ hmisses
    unfold named at hcandidate
    simp only [hcandidate, wp_bind]
    refine wp_insert_unindexed fair h₁.ready (fun _ _ => rfl) (fun _ _ => rfl)
      fun s₂ L₂ id now₂ h₂ _ _ => ?_
    have hevent := h₂.before.sight fair hevent
    have hunlinked := h₂.before.sight fair hunlinked
    have hmisses := h₂.before.sight fair hmisses
    obtain ⟨rfl, h₂'⟩ := h₁.trans h₂
    simp only [Post.andThen_ok, wp_bind]
    refine wp_writeReceipt fair h₂.ready fun s₃ L₃ rid now₃ h₃ _ => ?_
    have hevent := h₃.before.sight fair hevent
    have hunlinked := h₃.before.sight fair hunlinked
    have hmisses := h₃.before.sight fair hmisses
    obtain ⟨rfl, h₃'⟩ := h₂'.trans h₃
    simp only [Post.andThen_ok, wp_bind]
    refine wp_upsertIdentityLink fair h₃.ready ?_ (fun s₄ L₄ now₄ link h₄ hlink => ?_) hraced
    · rw [h₃'.pending, hs]
      simp [Write.table]
    have hevent := h₄.before.sight fair hevent
    have hunlinked := h₄.before.sight fair hunlinked
    have hmisses := h₄.before.sight fair hmisses
    obtain ⟨rfl, h₄'⟩ := h₃'.trans h₄
    simp only [Post.andThen_ok, wp_bind]
    refine wp_commitNow fair h₄.ready (hlinks id) h₄'.own (by rw [h₄'.pending, hs]; rfl)
      (fun L₅ h₅ => .minted (h₅.sight fair hevent) (h₅.sight fair hunlinked)
        (h₅.sight fair hmisses) (by rw [hrule]; rfl) (hlink.mono fun P => h₅.sight fair)) fun L₅ h₅ hT happ => ?_
    simp only [Post.andThen_ok, wp_bind]
    refine wp_refresh fair (.of_idle rfl _) (by simp [Session.close])
      (Db.has_of_insert (List.mem_cons_self ..)) fun s₆ L₆ now₆ current h₆ hfind => ?_
    have hcurrent := List.find?_some hfind
    have hid : Row.id current = id := of_decide_eq_true hcurrent
    rw [Post.andThen_ok, hid]
    exact hlinked s₆ L₅ L₆ _ id false (h₄'.rests_close.trans (h₆.rests rfl))
      (h₄'.before.trans (h₅.mono h₄'.own)) hT happ (h₆.before.mono h₄'.own) (by simp)
  | some candidate =>
    have hproposes : Proposes app sight L₁ (fieldsOf event) _ _ :=
      .candidate hrule (fair.now _ _ hcandidate)
    unfold named at hcandidate
    simp only [hcandidate]
    refine wp_park fair (by rw [h₁.pending, hs]; rfl) hevent hunlinked hproposes
      (hparks.mono h₁.own) (fun s' L₂ L' ws reviewId hrests hbefore hT happ hafter => ?_) hraced
    exact hparked s' L₂ L' ws reviewId ((h₁.rests hs).trans hrests)
      (h₁.before.trans (hbefore.mono h₁.own)) hT happ (hafter.mono h₁.own)

theorem wp_resolveIdentity (fair : Fair rules sight) (hs : s.pending = []) {event : Event}
    (hevent : Sees sight L event)
    (hlinks : ∀ identityId, Owes rules s fun L ws => Links app sight L event identityId ws)
    (hparks : Owes rules s fun L ws => Parks app sight L event ws)
    {post : Post Db Write Error Reply Resolution}
    (hfound : ∀ s' L' identityId, Rests s [] s' → Before rules s.own L L' →
      Linked event.id identityId L'.db → post (.ok (.linked identityId false)) s' L')
    (hlinked : ∀ s' L₁ L' ws identityId expired, Rests s [] s' → Before rules s.own L L₁ →
      Links app sight L₁ event identityId ws → Applicable ws L₁.db →
      Before rules s.own (L₁.commit ws) L' → (expired = true → Raced rules) →
      post (.ok (.linked identityId expired)) s' L')
    (hparked : ∀ s' L₁ L' ws reviewId, Rests s [] s' → Before rules s.own L L₁ →
      Parks app sight L₁ event ws → Applicable ws L₁.db → Before rules s.own (L₁.commit ws) L' →
      post (.ok (.queuedReview reviewId)) s' L')
    (hraced : ∀ x s' L', Raced rules → post (.error x) s' L') :
    wp rules (resolveIdentity app event) post s L := by
  unfold resolveIdentity findLink
  simp only [bind_eq, pure_eq, wp_bind]
  refine wp_find fair (.of_idle hs L) (by simp [hs]) (fun s₁ L₁ now₁ link h₁ _ hfind => ?_)
    fun s₁ L₁ now₁ h₁ hnone => ?_
  · exact hfound s₁ L₁ _ (h₁.rests hs) h₁.before
      ⟨link, List.mem_of_find?_eq_some hfind, by simpa using List.find?_some hfind, rfl⟩
  have hunlinked : Unlinked event.id L₁.db := fun link hlink => by simpa using hnone link hlink
  have hunlinked := fair.now _ _ hunlinked
  have hevent := h₁.before.sight fair hevent
  have hs₁ : s₁.pending = [] := by rw [h₁.pending, hs]; rfl
  have hlinks₁ := fun identityId => (hlinks identityId).mono h₁.own
  have hlinked₁ : ∀ s' L₂ L' ws identityId expired, Rests s₁ [] s' → Before rules s₁.own L₁ L₂ →
      Links app sight L₂ event identityId ws → Applicable ws L₂.db →
      Before rules s₁.own (L₂.commit ws) L' → (expired = true → Raced rules) →
      post (.ok (.linked identityId expired)) s' L' :=
    fun s' L₂ L' ws identityId expired hrests hbefore hT happ hafter hexpired =>
      hlinked s' L₂ L' ws identityId expired ((h₁.rests hs).trans hrests)
        (h₁.before.trans (hbefore.mono h₁.own)) hT happ (hafter.mono h₁.own) hexpired
  have hparked₁ : ∀ s' L₂ L' ws reviewId, Rests s₁ [] s' → Before rules s₁.own L₁ L₂ →
      Parks app sight L₂ event ws → Applicable ws L₂.db → Before rules s₁.own (L₂.commit ws) L' →
      post (.ok (.queuedReview reviewId)) s' L' :=
    fun s' L₂ L' ws reviewId hrests hbefore hT happ hafter =>
      hparked s' L₂ L' ws reviewId ((h₁.rests hs).trans hrests)
        (h₁.before.trans (hbefore.mono h₁.own)) hT happ (hafter.mono h₁.own)
  simp only [Post.andThen_ok]
  split
  · next email hrule =>
    refine wp_linkViaExact fair hs₁ hevent hunlinked (fun identity hp => ?_) (fun id now => ?_)
      (fun _ _ => rfl) (fun db hnone => ?_) (fun db id now hnone key hkey => ?_) hlinks₁ hlinked₁ hraced
    · rw [show rule app (fieldsOf event) = _ from hrule]
      exact ⟨rfl, by simpa using hp⟩
    · rw [show rule app (fieldsOf event) = _ from hrule]
      rfl
    · rw [show rule app (fieldsOf event) = _ from hrule]
      exact fun identity hidentity => by simpa using hnone identity hidentity
    · simp only [Row.indexed, Option.toList_some, List.map_cons, List.map_nil, Option.toList_none,
        List.append_nil, List.mem_singleton] at hkey
      rw [hkey, Db.holds_eq_false]
      intro identity hidentity hmem
      simp only [Row.keys, Row.indexed, List.mem_cons, List.mem_append, List.mem_map,
        Option.mem_toList, reduceCtorEq, Key.identityEmail.injEq, exists_eq_right, and_false,
        exists_false, or_false, false_or] at hmem
      exact hnone identity hidentity (by simpa using hmem)
  · next phone hrule =>
    refine wp_linkViaExact fair hs₁ hevent hunlinked (fun identity hp => ?_) (fun id now => ?_)
      (fun _ _ => rfl) (fun db hnone => ?_) (fun db id now hnone key hkey => ?_) hlinks₁ hlinked₁ hraced
    · rw [show rule app (fieldsOf event) = _ from hrule]
      exact ⟨rfl, by simpa using hp⟩
    · rw [show rule app (fieldsOf event) = _ from hrule]
      rfl
    · rw [show rule app (fieldsOf event) = _ from hrule]
      exact fun identity hidentity => by simpa using hnone identity hidentity
    · simp only [Row.indexed, Option.toList_some, List.map_cons, List.map_nil, Option.toList_none,
        List.nil_append, List.mem_singleton] at hkey
      rw [hkey, Db.holds_eq_false]
      intro identity hidentity hmem
      simp only [Row.keys, Row.indexed, List.mem_cons, List.mem_append, List.mem_map,
        Option.mem_toList, reduceCtorEq, Key.identityPhone.injEq, exists_eq_right, and_false,
        exists_false, false_or] at hmem
      exact hnone identity hidentity (by simpa using hmem)
  · next name hrule =>
    exact wp_resolveByName fair hs₁ hevent hunlinked hrule hlinks₁ (hparks.mono h₁.own) hlinked₁
      hparked₁ hraced
  · next hrule =>
    exact wp_park fair hs₁ hevent hunlinked (.nobody hrule)
      (hparks.mono h₁.own) hparked₁ hraced

/-! ### Reviews -/

/-- Nobody claims a review that no pending row has the id of. -/
theorem wp_claimReview (hs : s.pending = []) {reviewId : Uuid}
    {decision : String} {resolvedAt : Time}
    {post : Post Db Write Error Reply (Option ManualReviewQueue)}
    (hclaimed : ∀ L' now review, rules.rely s L L' → s.StartsAt now →
      review ∈ L'.db .manualReviewQueue → review.status = .pending → review.id = reviewId →
      post (.ok (some review))
        ((s.begin now).add (.update .manualReviewQueue review (resolved review decision resolvedAt)))
        L')
    (hnone : ∀ L' now, rules.rely s L L' → s.StartsAt now →
      (∀ review ∈ L'.db .manualReviewQueue, ManualReviewQueue.id review = reviewId →
        ManualReviewQueue.status review ≠ .pending) →
      post (.ok none) (s.begin now) L') :
    wp rules (claimReview reviewId decision resolvedAt) post s L := by
  intro L' hrely now hnow
  have hview : ∀ db : Db, s.view db = db := fun db => by simp [Session.view, hs]
  simp only [hview]
  cases hfind : (L'.db .manualReviewQueue).find? fun review =>
      decide (review.id = reviewId) && decide (review.status = .pending) with
  | none =>
      refine ⟨fun b hb _ => ?_, fun w b hw => by simp at hw, fun w b hw => by simp at hw⟩
      cases hb
      refine hnone L' now hrely hnow fun review hreview hid => ?_
      have hother := List.find?_eq_none.mp hfind review hreview
      simp only [Bool.and_eq_true, decide_eq_true_eq, not_and] at hother
      exact hother hid
  | some review =>
      have hp := List.find?_some hfind
      simp only [Bool.and_eq_true, decide_eq_true_eq] at hp
      refine ⟨fun b hb => by simp at hb, fun w b hw _ _ => ?_, fun w b hw hrefuse => ?_⟩
      · cases hw
        exact hclaimed L' now review hrely hnow (List.mem_of_find?_eq_some hfind) hp.2 hp.1
      · cases hw
        have hrefuse : Db.refuses L'.db (.update .manualReviewQueue review
          (resolved review decision resolvedAt)) = true := hrefuse
        rw [Db.refuses, List.any_eq_true] at hrefuse
        obtain ⟨key, hkey, hheld⟩ := hrefuse
        have hkey : key ∈ Row.keys (t := .manualReviewQueue) review := hkey
        simp [hkey] at hheld

/-- A claim alone can be committed anywhere. -/
theorem ready_claimed {review : ManualReviewQueue} {decision : String} {resolvedAt : Time}
    (hpending : s.pending =
      [.update .manualReviewQueue review (resolved review decision resolvedAt)])
    (L : Ledger Db Write) : Ready s L := by
  have hclaim := (Ready.of_idle (s := { s with pending := [] }) rfl L).add_update
    (Write.tame_update (t := .manualReviewQueue) (by decide) review
      (resolved review decision resolvedAt))
  exact ⟨by rw [hpending]; exact hclaim.toApplicable, by rw [hpending]; exact hclaim.own⟩

/-- Why a review may be declined before it is claimed: the target of a merge, or no pending row. -/
def Declines (rules : Rules Db Write Question Reply) (own : List Uuid) (L : Ledger Db Write)
    (reviewId : Uuid) (decision : String) : Prop :=
  decision = "merge_into" ∨ ∃ L₁, Before rules own L L₁ ∧
    ∀ review ∈ L₁.db .manualReviewQueue, ManualReviewQueue.id review = reviewId →
      ManualReviewQueue.status review ≠ .pending

/-- A call of `resolve_review` declines without a statement of its own to undo, or it claims the review
and goes on from there. -/
theorem wp_resolveReview_claim (hs : s.pending = []) {reviewId : Uuid} {decision : String}
    {identityId : Option Uuid} {post : Post Db Write Error Reply (Except ReviewError ResolvedReview)}
    (hdeclined : ∀ s' L' error, s'.pending = [] → s'.own = s.own → s'.replies = s.replies →
      Before rules s.own L L' → Declines rules s.own L reviewId decision →
      post (.ok (.error error)) s' L')
    (hclaimed : ∀ s' L' mergeTarget review resolvedAt,
      s'.pending = [.update .manualReviewQueue review (resolved review decision resolvedAt)] →
      s'.own = s.own → s'.replies = s.replies → Before rules s.own L L' →
      review ∈ L'.db .manualReviewQueue → review.status = .pending → review.id = reviewId →
      (mergeTarget.isSome ↔ decision = "merge_into") →
      (decision = "merge_into" → mergeTarget = identityId) →
      wp rules (match mergeTarget with
        | some identityId => mergeInto review decision identityId
        | none => createNew review decision) post s' L') :
    wp rules (resolveReview reviewId decision identityId) post s L := by
  have hclaim : ∀ s₁ L₁ mergeTarget, s₁.pending = [] → s₁.own = s.own → s₁.replies = s.replies →
      Before rules s.own L L₁ → (mergeTarget.isSome ↔ decision = "merge_into") →
      (decision = "merge_into" → mergeTarget = identityId) →
      wp rules (claimAndLink reviewId decision mergeTarget) post s₁ L₁ := by
    intro s₁ L₁ mergeTarget hpending hown hreplies hbefore hmerge htarget
    have hlater : ∀ {L' L''}, Before rules s.own L L' → rules.rely s₁ L' L'' →
        Before rules s.own L L'' := by
      intro L' L'' hbefore hrely
      refine hbefore.trans ?_
      rw [← hown]
      exact .of_rely hrely
    unfold claimAndLink
    simp only [bind_eq, pure_eq, wp_bind]
    intro L₂ hrely₂ resolvedAt _
    have hbefore₂ := hlater hbefore hrely₂
    simp only [wp_ret, Post.andThen_ok, wp_bind]
    refine wp_claimReview hpending (fun L₃ now review hrely₃ _ hreview hstatus hid => ?_)
      fun L₃ now hrely₃ _ hnone => ?_
    · simp only [Post.andThen_ok]
      exact hclaimed _ L₃ mergeTarget review resolvedAt
        (by simp [Session.add, Session.begin, hpending]) hown hreplies (hlater hbefore₂ hrely₃)
        hreview hstatus hid hmerge htarget
    · have hbefore₃ := hlater hbefore₂ hrely₃
      simp only [Post.andThen_ok, wp_bind]
      intro L₄ hrely₄ now₄ _ _
      have hbefore₄ : Before rules s.own L L₄ := by
        refine hbefore₃.trans ?_
        rw [← hown]
        exact .of_rely (s := s₁.begin now) hrely₄
      simp only [wp_ret, Post.andThen_ok]
      split <;> exact hdeclined _ L₄ _ hpending hown hreplies hbefore₄ (.inr ⟨L₃, hbefore₃, hnone⟩)
  unfold resolveReview findIdentity
  simp only [bind_eq, pure_eq]
  by_cases hdecision : decision = "merge_into"
  · rw [if_pos hdecision]
    cases identityId with
    | none => exact hdeclined s L _ hs rfl rfl (.refl L) (.inl hdecision)
    | some identityId =>
        simp only [wp_bind]
        intro L₁ hrely₁ now _ _
        have hbefore₁ : Before rules s.own L L₁ := .of_rely hrely₁
        simp only [wp_ret, Post.andThen_ok]
        split
        · exact hdeclined (s.begin now) L₁ _ hs rfl rfl hbefore₁ (.inl hdecision)
        · exact hclaim (s.begin now) L₁ (some identityId) hs rfl rfl hbefore₁ (by simp [hdecision])
            fun _ => rfl
  · rw [if_neg hdecision]
    exact hclaim s L none hs rfl rfl (.refl L) (by simp [hdecision]) (absurd · hdecision)

theorem wp_mergeInto (fair : Fair rules sight) {s₀ : Session Write Reply}
    {review : ManualReviewQueue} {decision : String} {resolvedAt : Time} {identityId : Uuid}
    (hs : Ready s L) (hpending : s.pending =
      [.update .manualReviewQueue review (resolved review decision resolvedAt)])
    (hreview : sight (fun db => review ∈ db .manualReviewQueue) L)
    (hstatus : review.status = .pending) (hdecision : decision = "merge_into")
    (hown : s₀.own ⊆ s.own)
    (howes : ∀ identityId, Owes rules s₀ fun L ws => Resolves sight L decision review identityId ws)
    {post : Post Db Write Error Reply (Except ReviewError ResolvedReview)}
    (hrefused : ∀ s' L' error, s'.own = s.own → s'.replies = s.replies → Before rules s.own L L' →
      post (.ok (.error error)) s' L')
    (hresolved : ∀ s' L₁ ws, Rests s [] s' → Before rules s.own L L₁ →
      Resolves sight L₁ decision review identityId ws → Applicable ws L₁.db →
      post (.ok (.ok ⟨identityId, review.id, review.eventId⟩)) s' (L₁.commit ws))
    (hraced : ∀ x s' L', Raced rules → post (.error x) s' L') :
    wp rules (mergeInto review decision identityId) post s L := by
  unfold mergeInto findIdentity
  simp only [bind_eq, pure_eq, wp_bind]
  intro L₁ hrely₁ now₁ hnow₁ _
  have huntouched : ∀ w ∈ s.pending, w.table ≠ .identities := by simp [hpending, Write.table]
  simp only [wp_ret, view_of_untouched huntouched, Post.andThen_ok]
  have h₁ : Proceeds rules s L now₁ [] (s.begin now₁) L₁ :=
    ⟨continues_begin hnow₁, .of_rely hrely₁, (fair.ready s L L₁ hrely₁ hs).begin⟩
  cases hfind : (L₁.db .identities).find? fun identity => decide (identity.id = identityId) with
  | none => exact hrefused _ L₁ _ rfl rfl h₁.before
  | some target =>
      obtain rfl : target.id = identityId := by simpa using List.find?_some hfind
      have hreview := h₁.before.sight fair hreview
      have htarget := fair.now (fun db => target ∈ db .identities) L₁ (List.mem_of_find?_eq_some hfind)
      simp only [wp_bind]
      refine wp_upsertIdentityLink fair h₁.ready (by simp [h₁.pending, hpending, Write.table])
        (fun s₂ L₂ now₂ link h₂ hlink => ?_) hraced
      have hreview := h₂.before.sight fair hreview
      have htarget := h₂.before.sight fair htarget
      obtain ⟨rfl, h₂⟩ := h₁.trans h₂
      simp only [Post.andThen_ok, wp_bind]
      refine wp_writeReceipt fair h₂.ready fun s₃ L₃ rid now₃ h₃ _ => ?_
      have hreview := h₃.before.sight fair hreview
      have htarget := h₃.before.sight fair htarget
      have hlink := hlink.mono fun P => h₃.before.sight fair
      obtain ⟨rfl, h₃⟩ := h₂.trans h₃
      simp only [Post.andThen_ok, wp_bind]
      refine wp_commitNow fair h₃.ready (howes _) (fun _ hu => h₃.own (hown hu))
        (by rw [h₃.pending, hpending]; rfl)
        (fun L₄ h₄ => .merged ⟨h₄.sight fair hreview, hstatus⟩ hdecision (h₄.sight fair htarget)
          (hlink.mono fun P => h₄.sight fair)) fun L₄ h₄ hT happ => ?_
      exact hresolved _ L₄ _ h₃.rests_close (h₃.before.trans (h₄.mono h₃.own)) hT happ

theorem wp_createNew (fair : Fair rules sight) {s₀ : Session Write Reply}
    {review : ManualReviewQueue} {decision : String} {resolvedAt : Time}
    (hs : Ready s L) (hpending : s.pending =
      [.update .manualReviewQueue review (resolved review decision resolvedAt)])
    (hreview : sight (fun db => review ∈ db .manualReviewQueue) L)
    (hstatus : review.status = .pending) (hdecision : decision ≠ "merge_into")
    (hown : s₀.own ⊆ s.own)
    (howes : ∀ identityId, Owes rules s₀ fun L ws => Resolves sight L decision review identityId ws)
    {post : Post Db Write Error Reply (Except ReviewError ResolvedReview)}
    (hresolved : ∀ s' L₁ ws identityId, Rests s [] s' → Before rules s.own L L₁ →
      Resolves sight L₁ decision review identityId ws → Applicable ws L₁.db →
      post (.ok (.ok ⟨identityId, review.id, review.eventId⟩)) s' (L₁.commit ws))
    (hraced : ∀ x s' L', Raced rules → post (.error x) s' L') :
    wp rules (createNew review decision) post s L := by
  unfold createNew
  simp only [bind_eq, pure_eq, wp_bind]
  refine wp_select fair hs fun s₁ L₁ now₁ h₁ _ => ?_
  have hreview := h₁.before.sight fair hreview
  simp only [Post.andThen_ok, wp_bind]
  refine wp_insert_unindexed fair h₁.ready (fun _ _ => rfl) (fun _ _ => rfl)
    fun s₂ L₂ id now₂ h₂ _ _ => ?_
  have hreview := h₂.before.sight fair hreview
  obtain ⟨rfl, h₂⟩ := h₁.trans h₂
  simp only [Post.andThen_ok, wp_bind]
  refine wp_writeReceipt fair h₂.ready fun s₃ L₃ rid now₃ h₃ _ => ?_
  have hreview := h₃.before.sight fair hreview
  obtain ⟨rfl, h₃⟩ := h₂.trans h₃
  simp only [Post.andThen_ok, wp_bind]
  refine wp_upsertIdentityLink fair h₃.ready ?_ (fun s₄ L₄ now₄ link h₄ hlink => ?_) hraced
  · rw [h₃.pending, hpending]
    simp [Write.table]
  have hreview := h₄.before.sight fair hreview
  obtain ⟨rfl, h₄⟩ := h₃.trans h₄
  simp only [Post.andThen_ok, wp_bind]
  refine wp_writeReceipt fair h₄.ready fun s₅ L₅ rid' now₅ h₅ _ => ?_
  have hreview := h₅.before.sight fair hreview
  have hlink := hlink.mono fun P => h₅.before.sight fair
  obtain ⟨rfl, h₅⟩ := h₄.trans h₅
  simp only [Post.andThen_ok, wp_bind]
  refine wp_commitNow fair h₅.ready (howes id) (fun _ hu => h₅.own (hown hu))
    (by rw [h₅.pending, hpending, List.nil_append, List.append_assoc, List.append_assoc]; rfl)
    (fun L₆ h₆ => .created ⟨h₆.sight fair hreview, hstatus⟩ hdecision rfl rfl ⟨rfl, rfl⟩
      (hlink.mono fun P => h₆.sight fair)) fun L₆ h₆ hT happ => ?_
  exact hresolved _ L₆ _ _ h₅.rests_close (h₅.before.trans (h₆.mono h₅.own)) hT happ

theorem wp_resolveReview (fair : Fair rules sight) (hs : s.pending = []) {reviewId : Uuid}
    {decision : String} {identityId : Option Uuid}
    (howes : ∀ review identityId, Owes rules s fun L ws =>
      Resolves sight L decision review identityId ws)
    {post : Post Db Write Error Reply (Except ReviewError ResolvedReview)}
    (hrefused : ∀ s' L' error, s'.replies = s.replies → Before rules s.own L L' →
      post (.ok (.error error)) s' L')
    (hresolved : ∀ s' L₁ ws review target, Rests s [] s' → Before rules s.own L L₁ →
      Resolves sight L₁ decision review target ws → Applicable ws L₁.db → review.id = reviewId →
      (decision = "merge_into" → identityId = some target) →
      post (.ok (.ok ⟨target, review.id, review.eventId⟩)) s' (L₁.commit ws))
    (hraced : ∀ x s' L', Raced rules → post (.error x) s' L') :
    wp rules (resolveReview reviewId decision identityId) post s L := by
  refine wp_resolveReview_claim hs (fun s' L' error _ _ hreplies hbefore _ =>
    hrefused s' L' error hreplies hbefore) ?_
  intro s₁ L₁ mergeTarget review resolvedAt hpending hown hreplies hbefore hreview hstatus hid hmerge
    htarget
  have hready : Ready s₁ L₁ := ready_claimed hpending L₁
  have hsub : s.own ⊆ s₁.own := by rw [hown]; exact fun _ hu => hu
  have hresolved₁ : ∀ target, (decision = "merge_into" → identityId = some target) →
      ∀ s' L₂ ws, Rests s₁ [] s' → Before rules s₁.own L₁ L₂ →
      Resolves sight L₂ decision review target ws → Applicable ws L₂.db →
      post (.ok (.ok ⟨target, review.id, review.eventId⟩)) s' (L₂.commit ws) := by
    intro target htarget s' L₂ ws hrests hbefore' hT happ
    refine hresolved s' L₂ ws review target ⟨hrests.pending, ?_, fun _ hu => hrests.own (hsub hu)⟩
      (hbefore.trans (hbefore'.mono hsub)) hT happ hid htarget
    rw [hrests.replies, hreplies]
  cases mergeTarget with
  | some target =>
      exact wp_mergeInto fair hready hpending (fair.now _ _ hreview) hstatus (hmerge.mp rfl) hsub
        (howes review)
        (fun s' L' error _ hquiet hbefore' => hrefused s' L' error (hquiet.trans hreplies)
          (hbefore.trans (hbefore'.mono hsub)))
        (hresolved₁ target fun h => (htarget h).symm) hraced
  | none =>
      have hne : decision ≠ "merge_into" := fun h => by simpa using hmerge.mpr h
      exact wp_createNew fair hready hpending (fair.now _ _ hreview) hstatus hne hsub (howes review)
        (fun s' L' ws target => hresolved₁ target (absurd · hne) s' L' ws) hraced

end Resolve

end DemandSignal
