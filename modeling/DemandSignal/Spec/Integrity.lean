import DemandSignal.Spec.Candidates
import DemandSignal.Spec.History

/-!
# References between tables

The foreign keys of the tables, and the entity a receipt is about. The rows that a transaction writes
cite rows that are there once it is committed.
-/

namespace DemandSignal

open Txn

/-- The table of an entity. -/
def EntityType.table : EntityType → Table
  | .event => .events
  | .identity => .identities
  | .manualReview => .manualReviewQueue
  | .interpretation => .interpretations
  | .score => .scores
  | .lead => .leads
  | .route => .routes
  | .attributionTouch => .attributionTouches
  | .deadLetter => .deadLetterQueue

/-- The foreign keys of a row. A receipt also names its entity, without a constraint. -/
def Row.refs : {t : Table} → Row t → List (Table × Uuid)
  | .events, _ | .identities, _ => []
  | .identityLinks, (row : IdentityLink) => [(.identities, row.identityId), (.events, row.eventId)]
  | .manualReviewQueue, (row : ManualReviewQueue) =>
      (.events, row.eventId) :: row.candidateIdentityId.toList.map (Table.identities, ·)
  | .interpretations, (row : Interpretation) => [(.events, row.eventId)]
  | .scores, (row : Score) => [(.events, row.eventId), (.identities, row.identityId)]
  | .leads, (row : Lead) => [(.identities, row.identityId), (.events, row.sourceEventId)]
  | .routes, (row : Route) => [(.leads, row.leadId)]
  | .attributionTouches, (row : AttributionTouch) =>
      [(.identities, row.identityId), (.events, row.firstTouchEventId), (.events, row.lastTouchEventId)]
  | .receipts, (row : Receipt) =>
      (row.entityType.table, row.entityId) :: (row.eventId.toList.map (Table.events, ·) ++
        row.identityId.toList.map (Table.identities, ·))
  | .deadLetterQueue, (row : DeadLetterQueue) => [(.events, row.eventId)]

def Write.refs : Write → List (Table × Uuid)
  | .insert _ row => row.refs
  | .update _ _ new => new.refs

@[simp]
theorem Row.refs_stamp {t : Table} (row : Row t) (now : Time) : (row.stamp now).refs = row.refs := by
  cases t <;> rfl

theorem Row.column_eq {α : Type} [DecidableEq α] (loaded new current : α) :
    Row.column loaded new current = current ∨ Row.column loaded new current = new := by
  unfold Row.column
  split
  · exact .inl rfl
  · exact .inr rfl

/-- An `UPDATE` brings in no reference but those of the new row. -/
theorem Row.refs_merge {t : Table} {loaded new current : Row t} {ref : Table × Uuid}
    (h : ref ∈ (Row.merge loaded new current).refs) : ref ∈ current.refs ∨ ref ∈ new.refs := by
  cases t with
  | events | identities => cases h
  | identityLinks =>
      simp only [refs, merge, List.mem_cons, List.not_mem_nil, or_false] at h ⊢
      rcases column_eq (IdentityLink.identityId loaded) (IdentityLink.identityId new)
        (IdentityLink.identityId current) with hcolumn | hcolumn <;> rw [hcolumn] at h <;> tauto
  | manualReviewQueue =>
      simp only [refs, merge, List.mem_cons] at h ⊢
      rcases column_eq (ManualReviewQueue.candidateIdentityId loaded)
        (ManualReviewQueue.candidateIdentityId new)
        (ManualReviewQueue.candidateIdentityId current) with hcolumn | hcolumn <;>
        rw [hcolumn] at h <;> tauto
  | interpretations | routes | receipts | deadLetterQueue => exact .inl h
  | scores =>
      simp only [refs, merge, List.mem_cons, List.not_mem_nil, or_false] at h ⊢
      rcases column_eq (Score.identityId loaded) (Score.identityId new)
        (Score.identityId current) with hcolumn | hcolumn <;> rw [hcolumn] at h <;> tauto
  | leads =>
      simp only [refs, merge, List.mem_cons, List.not_mem_nil, or_false] at h ⊢
      rcases column_eq (Lead.sourceEventId loaded) (Lead.sourceEventId new)
        (Lead.sourceEventId current) with hcolumn | hcolumn <;> rw [hcolumn] at h <;> tauto
  | attributionTouches =>
      simp only [refs, merge, List.mem_cons, List.not_mem_nil, or_false] at h ⊢
      rcases h with h | h | h
      · exact .inl (.inl h)
      · rcases column_eq (AttributionTouch.firstTouchEventId loaded)
          (AttributionTouch.firstTouchEventId new)
          (AttributionTouch.firstTouchEventId current) with hcolumn | hcolumn <;>
          rw [hcolumn] at h <;> tauto
      · rcases column_eq (AttributionTouch.lastTouchEventId loaded)
          (AttributionTouch.lastTouchEventId new)
          (AttributionTouch.lastTouchEventId current) with hcolumn | hcolumn <;>
          rw [hcolumn] at h <;> tauto

/-! ### Databases -/

namespace Db

/-- The rows that are referred to are there. -/
def Vouches (db : Db) (refs : List (Table × Uuid)) : Prop := ∀ ref ∈ refs, db.Has ref.1 ref.2

@[simp]
theorem vouches_nil (db : Db) : db.Vouches [] := by simp [Vouches]

@[simp]
theorem vouches_cons {db : Db} {ref : Table × Uuid} {refs : List (Table × Uuid)} :
    db.Vouches (ref :: refs) ↔ db.Has ref.1 ref.2 ∧ db.Vouches refs := by simp [Vouches]

/-- No reference dangles. -/
def Referential (db : Db) : Prop := ∀ (t : Table) (row : Row t), row ∈ db t → db.Vouches row.refs

/-- The writes refer to rows that are there when they are done. -/
def Cites (db : Db) (ws : List Write) : Prop :=
  ∀ w ∈ ws, Vouches (ws.foldl Db.apply db) w.refs

/-- A reference of a row after writes is an old one, or one that a write brings in. -/
theorem ref_of_foldl {ws : List Write} {db : Db} {t : Table} {row : Row t} {ref : Table × Uuid}
    (hrow : row ∈ ws.foldl Db.apply db t) (href : ref ∈ row.refs) :
    (∃ row' ∈ db t, ref ∈ Row.refs row') ∨ ∃ w ∈ ws, ref ∈ w.refs := by
  induction ws generalizing db with
  | nil => exact .inl ⟨row, hrow, href⟩
  | cons w ws ih =>
      rcases ih hrow with ⟨row', hrow', href'⟩ | ⟨w', hw', href'⟩
      · by_cases htable : w.table = t
        · cases w with
          | insert t' new =>
              obtain rfl : t' = t := htable
              rw [apply_insert_self] at hrow'
              rcases List.mem_append.mp hrow' with hrow' | hrow'
              · exact .inl ⟨row', hrow', href'⟩
              · rw [List.mem_singleton] at hrow'
                subst hrow'
                exact .inr ⟨_, List.mem_cons_self .., href'⟩
          | update t' loaded new =>
              obtain rfl : t' = t := htable
              rw [apply_update_self, mem_updated] at hrow'
              obtain ⟨current, hcurrent, rfl⟩ := hrow'
              split at href'
              · rcases Row.refs_merge href' with href' | href'
                · exact .inl ⟨current, hcurrent, href'⟩
                · exact .inr ⟨_, List.mem_cons_self .., href'⟩
              · exact .inl ⟨current, hcurrent, href'⟩
        · rw [apply_of_ne _ htable] at hrow'
          exact .inl ⟨row', hrow', href'⟩
      · exact .inr ⟨w', List.mem_cons_of_mem _ hw', href'⟩

theorem Referential.foldl {db : Db} {ws : List Write} (h : db.Referential) (hws : db.Cites ws) :
    Referential (ws.foldl Db.apply db) := by
  intro t row hrow ref href
  rcases ref_of_foldl hrow href with ⟨row', hrow', href'⟩ | ⟨w, hw, href'⟩
  · exact (h t row' hrow' ref href').foldl ws
  · exact hws w hw ref href'

end Db

/-! ### Histories -/

/-- No reference dangles, now or before. -/
def Intact (L : Ledger Db Write) : Prop := ∀ L₀, Extends L₀ L → L₀.db.Referential

variable {app : App} {sight : Sight} {L : Ledger Db Write} {ws : List Write}

theorem intact_empty : Intact emptyLedger := by
  intro L₀ hextends t row hrow
  have hnone : ∀ {L : Ledger Db Write}, Extends L₀ L → L = emptyLedger → L₀ = emptyLedger := by
    intro L hextends heq
    cases Relation.ReflTransGen.cases_tail hextends with
    | inl h => exact h.symm.trans heq
    | inr h =>
        obtain ⟨L₁, -, ws, rfl⟩ := h
        simp [Ledger.commit, emptyLedger] at heq
  rw [hnone hextends rfl] at hrow
  cases t <;> cases hrow

namespace Intact

theorem commit (h : Intact L) (hws : L.db.Cites ws) : Intact (L.commit ws) := by
  intro L₀ hextends
  rcases hextends.of_commit with rfl | hextends
  · exact (h L .refl).foldl hws
  · exact h L₀ hextends

/-- What a row that was seen referred to is there. -/
theorem seen (h : Intact L) (lawful : sight.Lawful) {t : Table} {row : Row t}
    (hrow : sight (fun db => row ∈ db t) L) : L.db.Vouches row.refs := by
  intro ref href
  obtain ⟨L₀, hextends, hrow⟩ := lawful.since _ L hrow
  exact hextends.has (h L₀ hextends t row hrow ref href)

end Intact

theorem Sight.Lawful.has {sight : Sight} (lawful : sight.Lawful) {t : Table} {row : Row t}
    (h : sight (fun db => row ∈ db t) L) : L.db.Has t row.id := by
  obtain ⟨row', hrow', hkept⟩ := lawful.kept h
  exact ⟨row', hrow', hkept.static (Row.static_id t)⟩

/-! ### The rows a transaction writes -/

theorem refs_of_mem_saved {t : Table} {loaded new : Row t} {now : Time} {w : Write}
    (h : w ∈ saved t loaded new now) : w.refs = new.refs := by
  rw [(table_of_mem_saved h).1]
  exact Row.refs_stamp new now

theorem vouches_receipt {db : Db} {action : ActionType} {entityId : Uuid} {entityType : EntityType}
    {metadata : Meta} {eventId identityId : Option Uuid} {status : ReceiptStatus} {id : Uuid}
    {now : Time} (hentity : db.Has entityType.table entityId)
    (hevent : ∀ u ∈ eventId, db.Has .events u) (hidentity : ∀ u ∈ identityId, db.Has .identities u) :
    db.Vouches (Write.refs (.insert .receipts
      (receipt action entityId entityType metadata eventId identityId status id now))) := by
  intro ref href
  simp only [Write.refs, Row.refs, receipt, List.mem_cons, List.mem_append, List.mem_map,
    Option.mem_toList] at href
  obtain rfl | ⟨u, hu, rfl⟩ | ⟨u, hu, rfl⟩ := href
  · exact hentity
  · exact hevent u hu
  · exact hidentity u hu

namespace Upsert

variable {t : Table} {u : Upsert t}

theorem refs_of_mem_inserts {w : Write} (h : w ∈ u.inserts) : w.refs = u.row.refs := by
  cases u with
  | created row =>
      rw [List.mem_singleton.mp h]
      rfl
  | updated loaded new => cases h

theorem refs_of_mem_writes {now : Time} {w : Write} (h : w ∈ u.writes now) : w.refs = u.row.refs := by
  rcases List.mem_append.mp h with h | h
  · exact refs_of_mem_inserts h
  · exact refs_of_mem_saved h

/-- The row of an upsert is there once it is committed. -/
theorem By.has (lawful : sight.Lawful) {p : Row t → Prop} {fresh : Uuid → Row t}
    {edit : Row t → Row t} (h : u.By sight L p fresh edit)
    (hedit : ∀ row : Row t, (edit row).id = row.id) (hws : u.inserts ⊆ ws) :
    (L.commit ws).db.Has t u.row.id := by
  obtain ⟨row, hrow, hkept⟩ := h.exists_kept lawful ws hws
  exact ⟨row, hrow, (hkept.static (Row.static_id t)).trans (h.kept hedit).symm⟩

end Upsert

/-! ### Transactions -/

theorem Db.has_some {db : Db} {t : Table} {u : Uuid} (h : db.Has t u) : ∀ v ∈ some u, db.Has t v := by
  rintro v ⟨⟩
  exact h

/-- The first row of a transaction is there when it is committed. -/
theorem Db.has_head (db : Db) (ws : List Write) {t : Table} (row : Row t) :
    Db.Has ((.insert t row :: ws).foldl Db.apply db) t row.id :=
  Db.has_of_insert (List.mem_cons_self ..)

theorem Sees.has (lawful : sight.Lawful) {event : Event} (h : Sees sight L event) :
    L.db.Has .events event.id := lawful.has h

theorem Ingest.Creates.cites {model : EventIn} {payload : Json.Fields} {id : Uuid}
    (h : Ingest.Creates app model payload id ws) : L.db.Cites ws := by
  obtain ⟨-, -⟩ := h
  intro w hw
  rcases List.mem_cons.mp hw with rfl | hw
  · exact Db.vouches_nil _
  · rw [List.mem_singleton] at hw
    subst hw
    exact vouches_receipt (Db.has_head ..) (Db.has_some (Db.has_head ..)) (by simp)

theorem Ingest.Rejects.cites (h : Ingest.Rejects app ws) : L.db.Cites ws := by
  obtain @⟨_, _, _, row, id, _, now, hrow⟩ := h
  have hid : Row.id (t := .events) (row id now) = id := (Ingest.rejectedEvent_spec hrow id now).1
  intro w hw
  rcases List.mem_cons.mp hw with rfl | hw
  · exact Db.vouches_nil _
  · have hevent := Db.has_head L.db [w] (t := .events) (row id now)
    rw [List.mem_singleton] at hw
    subst hw
    rw [hid] at hevent
    exact vouches_receipt hevent (Db.has_some hevent) (by simp)

theorem Ingest.Edits.cites (lawful : sight.Lawful) {model : EventIn} {payload : Json.Fields}
    {existing : Event} (h : Ingest.Edits app sight L model payload existing ws) : L.db.Cites ws := by
  have hevent := (lawful.has h.seen).foldl ws
  obtain ⟨-, -, -, -, -⟩ := h
  intro w hw
  rcases List.mem_append.mp hw with hw | hw
  · rw [refs_of_mem_saved hw]
    exact Db.vouches_nil _
  · rw [List.mem_singleton] at hw
    subst hw
    exact vouches_receipt hevent (Db.has_some hevent) (by simp)

/-- A link cites its event and its identity. -/
theorem Resolve.LinksBy.cites {eventId identityId : Uuid} {matchConfidence : Decimal}
    {matchRule : MatchRule} {link : Upsert .identityLinks}
    (h : Resolve.LinksBy sight L eventId identityId matchConfidence matchRule link) {db : Db}
    (hevent : db.Has .events eventId) (hidentity : db.Has .identities identityId) {now : Time}
    {w : Write} (hw : w ∈ link.writes now) : db.Vouches w.refs := by
  rw [Upsert.refs_of_mem_writes hw]
  cases link with
  | created row =>
      rw [Upsert.row, h.2]
      simp [Row.refs, hevent, hidentity]
  | updated loaded new =>
      obtain ⟨-, hloaded, rfl⟩ := h
      simp [Row.refs, hloaded, hevent, hidentity]

theorem Resolve.Links.cites (lawful : sight.Lawful) {event : Event} {identityId : Uuid}
    (h : Resolve.Links app sight L event identityId ws) : L.db.Cites ws := by
  cases h with
  | found hevent _ hidentity _ hlink =>
      exact fun w hw => hlink.cites ((lawful.has hevent).foldl _) ((lawful.has hidentity).foldl _) hw
  | @minted identity matchRule link now _ rid hevent _ _ hmints hlink =>
      obtain ⟨rfl, -⟩ := Resolve.Rule.mints_spec hmints
      have hnew := fun ws => Db.has_head L.db ws (t := .identities) identity
      intro w hw
      rcases List.mem_cons.mp hw with rfl | hw
      · exact Db.vouches_nil _
      rcases List.mem_cons.mp hw with rfl | hw
      · exact vouches_receipt (hnew _) (Db.has_some ((lawful.has hevent).foldl _))
          (Db.has_some (hnew _))
      · exact hlink.cites ((lawful.has hevent).foldl _) (hnew _) hw

/-- The identity of a new link is there. -/
theorem Resolve.Links.has (lawful : sight.Lawful) {event : Event} {identityId : Uuid}
    (h : Resolve.Links app sight L event identityId ws) :
    (L.commit ws).db.Has .identities identityId := by
  cases h with
  | found _ _ hidentity => exact (lawful.has hidentity).foldl _
  | minted _ _ _ hmints =>
      obtain ⟨rfl, -⟩ := Resolve.Rule.mints_spec hmints
      exact Db.has_head ..

theorem Resolve.Proposes.has (lawful : sight.Lawful) {fields : IdentityFields}
    {candidateIdentityId : Option Uuid} {reason : String}
    (h : Resolve.Proposes app sight L fields candidateIdentityId reason) :
    ∀ u ∈ candidateIdentityId, L.db.Has .identities u := by
  cases h with
  | nobody => simp
  | @candidate name identity _ hcandidate =>
      obtain ⟨L₀, hextends, hcandidate⟩ := lawful.since _ L hcandidate
      rw [Resolve.fuzzyCandidate_eq_best] at hcandidate
      have hmem : identity ∈ L₀.db .identities :=
        List.mem_of_mem_filter (Search.isBest_of_best hcandidate).mem
      have hhas : L.db.Has .identities identity.id := hextends.has ⟨identity, hmem, rfl⟩
      unfold Resolve.proposal
      split
      · exact Db.has_some hhas
      · split
        · simp
        · exact Db.has_some hhas

theorem Resolve.Parks.cites (lawful : sight.Lawful) {event : Event}
    (h : Resolve.Parks app sight L event ws) : L.db.Cites ws := by
  obtain @⟨candidateIdentityId, reason, entry, now, rid, hevent, -, hproposes, hentry⟩ := h
  have hhas := (Sees.has lawful hevent).foldl
  have hcandidate := hproposes.has lawful
  intro w hw
  rcases List.mem_append.mp hw with hw | hw
  · have hrefs : Row.refs entry.row = (.events, event.id) ::
        candidateIdentityId.toList.map (Table.identities, ·) := by
      cases entry with
      | created row => rw [Upsert.row, hentry.2, Row.refs]
      | updated loaded new =>
          obtain ⟨-, hloaded, rfl⟩ := hentry
          simp only [Upsert.row, Row.refs, hloaded]
    rw [Upsert.refs_of_mem_writes hw, hrefs, Db.vouches_cons]
    refine ⟨hhas _, fun ref href => ?_⟩
    simp only [List.mem_map, Option.mem_toList] at href
    obtain ⟨u, hu, rfl⟩ := href
    exact (hcandidate u hu).foldl _
  · cases entry with
    | updated loaded new => cases hw
    | created row =>
        rw [Resolve.queuedReceipt, List.mem_singleton] at hw
        subst hw
        rw [Upsert.writes_created]
        exact vouches_receipt (Db.has_head L.db _ (t := .manualReviewQueue) row)
          (Db.has_some (hhas _)) (by simp)

theorem Resolve.Resolves.has (lawful : sight.Lawful) {decision : String}
    {review : ManualReviewQueue} {identityId : Uuid}
    (h : Resolve.Resolves sight L decision review identityId ws) :
    (L.commit ws).db.Has .identities identityId := by
  cases h with
  | merged _ _ htarget => exact (lawful.has htarget).foldl _
  | created _ _ hid =>
      rw [← hid]
      exact Db.has_of_insert (List.mem_cons_of_mem _ (List.mem_cons_self ..))

theorem Resolve.Resolves.cites (lawful : sight.Lawful) (hintact : Intact L) {decision : String}
    {review : ManualReviewQueue} {identityId : Uuid}
    (h : Resolve.Resolves sight L decision review identityId ws) : L.db.Cites ws := by
  have hcited := fun (hseen : sight (fun db => review ∈ db .manualReviewQueue) L) =>
    hintact.seen lawful hseen
  have hreviewEvent := fun (hseen : sight (fun db => review ∈ db .manualReviewQueue) L) =>
    hcited hseen (.events, review.eventId) (List.mem_cons_self ..)
  cases h with
  | @merged resolvedAt target link rid now hpending _ htarget hlink =>
      have hevent := (hreviewEvent hpending.1).foldl
      have hidentity := (lawful.has htarget).foldl
      intro w hw
      rcases List.mem_cons.mp hw with rfl | hw
      · exact fun ref href => (hcited hpending.1 ref href).foldl _
      rcases List.mem_append.mp hw with hw | hw
      · exact hlink.cites (hevent _) (hidentity _) hw
      · rw [List.mem_singleton] at hw
        subst hw
        exact vouches_receipt ((lawful.has hpending.1).foldl _) (Db.has_some (hevent _))
          (Db.has_some (hidentity _))
  | @created resolvedAt identity _ rid link rid' now hpending _ hid _ _ hlink =>
      have hevent := (hreviewEvent hpending.1).foldl
      have hnew : ∀ w ws, Db.Has ((w :: .insert .identities identity :: ws).foldl Db.apply L.db)
          .identities identityId := fun w ws => by
        rw [← hid]
        exact Db.has_head (L.db.apply w) ws identity
      intro w hw
      rcases List.mem_cons.mp hw with rfl | hw
      · exact fun ref href => (hcited hpending.1 ref href).foldl _
      rcases List.mem_cons.mp hw with rfl | hw
      · exact Db.vouches_nil _
      rcases List.mem_cons.mp hw with rfl | hw
      · exact vouches_receipt (hnew _ _) (Db.has_some (hevent _)) (Db.has_some (hnew _ _))
      rcases List.mem_append.mp hw with hw | hw
      · exact hlink.cites (hevent _) (hnew _ _) hw
      · rw [List.mem_singleton] at hw
        subst hw
        exact vouches_receipt ((lawful.has hpending.1).foldl _) (Db.has_some (hevent _))
          (Db.has_some (hnew _ _))

theorem Interpret.Interprets.cites (lawful : sight.Lawful) {event : Event}
    {fields : Interpret.Classified} {interpretation : Interpretation}
    (h : Interpret.Interprets sight L event fields interpretation ws) : L.db.Cites ws := by
  obtain @⟨row, rid, now, hevent, -, hrow⟩ := h
  have hhas := (Sees.has lawful hevent).foldl
  have hrowHas : ∀ rest, (L.commit (row.writes now ++ rest)).db.Has .interpretations row.row.id :=
    fun rest => hrow.has lawful (fun _ => rfl) fun w hw => by simp [Upsert.writes, hw]
  intro w hw
  rcases List.mem_append.mp hw with hw | hw
  · have hrefs : Row.refs row.row = [(.events, event.id)] := by
      cases row with
      | created new => rw [Upsert.row, hrow.2, Row.refs, Interpret.Classified.fresh]
      | updated loaded new =>
          obtain ⟨-, hloaded, rfl⟩ := hrow
          simp only [Upsert.row, Row.refs, Interpret.Classified.edit, hloaded]
    rw [Upsert.refs_of_mem_writes hw, hrefs, Db.vouches_cons]
    exact ⟨hhas _, Db.vouches_nil _⟩
  · rw [List.mem_singleton] at hw
    subst hw
    exact vouches_receipt (hrowHas _) (Db.has_some (hhas _)) (by simp)

theorem Interpret.DeadLetters.cites (lawful : sight.Lawful) {event : Event}
    (h : Interpret.DeadLetters sight L event ws) : L.db.Cites ws := by
  obtain @⟨dlq, stage, retryCount, simulated, rid, now, hevent, heventId, -, -⟩ := h
  have hhas := (Sees.has lawful hevent).foldl
  intro w hw
  rcases List.mem_cons.mp hw with rfl | hw
  · rw [Write.refs, Row.refs, heventId, Db.vouches_cons]
    exact ⟨hhas _, Db.vouches_nil _⟩
  · rw [List.mem_singleton] at hw
    subst hw
    exact vouches_receipt (Db.has_head ..) (Db.has_some (hhas _)) (by simp)

theorem Interpret.Revives.cites (lawful : sight.Lawful) (hintact : Intact L)
    {eventId identityId : Uuid} (hidentity : L.db.Has .identities identityId)
    (h : Interpret.Revives sight L eventId identityId ws) : L.db.Cites ws := by
  obtain @⟨dlq, stage, rid, now, hdlq, rfl, -⟩ := h
  have hcited := hintact.seen lawful hdlq
  have hevent : L.db.Has .events dlq.eventId := hcited (.events, dlq.eventId) (List.mem_cons_self ..)
  intro w hw
  rcases List.mem_append.mp hw with hw | hw
  · rw [refs_of_mem_saved hw]
    exact fun ref href => (hcited ref href).foldl _
  · rw [List.mem_singleton] at hw
    subst hw
    exact vouches_receipt ((lawful.has hdlq).foldl _) (Db.has_some (hevent.foldl _))
      (Db.has_some (hidentity.foldl _))

theorem Scoring.Scores.cites (lawful : sight.Lawful) {event : Event} {identityId : Uuid}
    {interpretation : Interpretation} {score : Score} (hidentity : L.db.Has .identities identityId)
    (h : Scoring.Scores app sight L event identityId interpretation score ws) : L.db.Cites ws := by
  obtain @⟨value, decision, features, row, upsert, rid, now, hevent, -, -, hrow, -, hread⟩ := h
  have hhas := (Sees.has lawful hevent).foldl
  have hrefs : ∀ w ∈ Scoring.upsertWrites upsert, w.refs = [(.events, event.id),
      (.identities, identityId)] := by
    intro w hw
    cases upsert with
    | created new =>
        rw [Scoring.upsertWrites, List.mem_singleton] at hw
        subst hw
        rw [Write.refs, hrow.2]
        rfl
    | updated loaded new =>
        rw [Scoring.upsertWrites, List.mem_singleton] at hw
        subst hw
        obtain ⟨-, hloaded, rfl⟩ := hrow
        simp only [Write.refs, Row.refs, Scoring.Columns.edit, hloaded]
  intro w hw
  rcases List.mem_append.mp hw with hw | hw
  · rw [hrefs w hw, Db.vouches_cons, Db.vouches_cons]
    exact ⟨hhas _, hidentity.foldl _, Db.vouches_nil _⟩
  · rw [List.mem_singleton] at hw
    subst hw
    refine vouches_receipt ?_ (Db.has_some (hhas _)) (Db.has_some (hidentity.foldl _))
    obtain ⟨L₀, hextends, hread⟩ := lawful.since _ L hread
    obtain ⟨row₀, hrow₀ | hrow₀, hkept⟩ := Db.mem_foldl_apply hread
    · exact (hextends.has ⟨row₀, hrow₀, (hkept.static (Row.static_id .scores)).symm⟩).foldl _
    · change Db.Has _ .scores (Row.id (t := .scores) score)
      rw [hkept.static (Row.static_id .scores)]
      exact Db.has_of_insert (List.mem_append_left _ (mem_inserted.mp hrow₀))

/-- An edit leaves the events of a touch alone. -/
theorem Attribute.editTouch_events (touch : AttributionTouch) (event : Event) (now : Time) :
    (editTouch touch event now).firstTouchEventId = touch.firstTouchEventId ∧
      (editTouch touch event now).lastTouchEventId = touch.lastTouchEventId := by
  simp only [editTouch]
  split <;> split <;> exact ⟨rfl, rfl⟩

theorem Attribute.extendTouch_events (touch : AttributionTouch) (event : Event) (now : Time) :
    ((extendTouch touch event now).firstTouchEventId = touch.firstTouchEventId ∨
        (extendTouch touch event now).firstTouchEventId = event.id) ∧
      ((extendTouch touch event now).lastTouchEventId = touch.lastTouchEventId ∨
        (extendTouch touch event now).lastTouchEventId = event.id) := by
  simp only [extendTouch]
  split <;> split <;> simp

/-- The references of the three rows of `act`. -/
theorem Act.Grounds.vouches (lawful : sight.Lawful) (hintact : Intact L) {event : Event}
    {identityId : Uuid} {score : Option Score} {lead : Upsert .leads} {route : Upsert .routes}
    {touch : Upsert .attributionTouches} {now assignedAt updatedAt : Time}
    (h : Act.Grounds app sight L event identityId score lead route touch now assignedAt updatedAt)
    (hidentity : L.db.Has .identities identityId) :
    L.db.Vouches (Row.refs lead.row) ∧ Row.refs route.row = [(.leads, Lead.id lead.row)] ∧
      L.db.Vouches (Row.refs touch.row) := by
  have hevent := Sees.has lawful h.seen
  refine ⟨?_, ?_, ?_⟩
  · have hled := h.led
    cases lead with
    | created row =>
        rw [Upsert.row, hled.2]
        simp [Row.refs, hidentity, hevent]
    | updated loaded new =>
        obtain ⟨-, hloaded, rfl⟩ := hled
        simp [Upsert.row, Row.refs, hloaded, hidentity, hevent]
  · have hrouted := h.routed
    cases route with
    | created row => rw [Upsert.row, hrouted.2, Row.refs]
    | updated loaded new =>
        obtain ⟨-, hloaded, rfl⟩ := hrouted
        simp only [Upsert.row, Row.refs, hloaded]
  · have htouched := h.touched
    cases touch with
    | created row =>
        rw [Upsert.row, htouched.2]
        simp [Row.refs, Attribute.newTouch, hidentity, hevent]
    | updated loaded new =>
        obtain ⟨hseen, -, rfl⟩ := htouched
        have hcited := hintact.seen lawful hseen
        simp only [Row.refs, Db.vouches_cons, Upsert.row] at hcited ⊢
        obtain ⟨hidentity, hfirst, hlast, hnil⟩ := hcited
        split
        · obtain ⟨heqFirst, heqLast⟩ := Attribute.editTouch_events loaded event updatedAt
          rw [(Attribute.editTouch_fixed loaded event updatedAt).2.1, heqFirst, heqLast]
          exact ⟨hidentity, hfirst, hlast, hnil⟩
        · obtain ⟨heqFirst, heqLast⟩ := Attribute.extendTouch_events loaded event updatedAt
          rw [(Attribute.extendTouch_fixed loaded event updatedAt).2.1]
          refine ⟨hidentity, ?_, ?_, hnil⟩
          · rcases heqFirst with heq | heq <;> rw [heq] <;> assumption
          · rcases heqLast with heq | heq <;> rw [heq] <;> assumption

theorem Act.Acts.cites (lawful : sight.Lawful) (hintact : Intact L) {event : Event}
    {identityId : Uuid} {score : Option Score} (hidentity : L.db.Has .identities identityId)
    (h : Act.Acts app sight L event identityId score ws) : L.db.Cites ws := by
  obtain @⟨lead, route, touch, leadRid, routeRid, touchRid, now, assignedAt, updatedAt, h⟩ := h
  obtain ⟨hlead, hroute, htouch⟩ := h.vouches lawful hintact hidentity
  obtain ⟨hleads, hroutes, htouches⟩ : lead.inserts ⊆ Act.writes event identityId
      (Act.decisionOf score) lead route touch leadRid routeRid touchRid now ∧ _ := Act.inserts_subset
  have hevent := fun ws => Db.has_some ((Sees.has lawful h.seen).foldl ws)
  have hidentity := fun ws => Db.has_some (hidentity.foldl ws)
  have hleadHas := h.led.has lawful (fun _ => rfl) hleads
  have hrouteHas := h.routed.has lawful (fun _ => rfl) hroutes
  have htouchHas := h.touched.has lawful (fun touch => by
    split
    · exact (Attribute.editTouch_fixed touch event updatedAt).1
    · exact (Attribute.extendTouch_fixed touch event updatedAt).1) htouches
  intro w hw
  simp only [Act.writes, List.append_assoc, List.mem_append, List.mem_cons, List.not_mem_nil,
    or_false] at hw
  have hleadRefs := fun ref href => (hlead ref href).foldl
  rcases hw with hw | hw | hw | hw | hw | hw | hw | rfl | rfl | rfl
  · rw [Upsert.refs_of_mem_inserts hw]
    exact fun ref href => hleadRefs ref href _
  · rw [refs_of_mem_saved hw]
    exact fun ref href => hleadRefs ref href _
  · rw [Upsert.refs_of_mem_inserts hw, hroute, Db.vouches_cons]
    exact ⟨hleadHas, Db.vouches_nil _⟩
  · rw [refs_of_mem_saved hw]
    exact fun ref href => hleadRefs ref href _
  · rw [refs_of_mem_saved hw, hroute, Db.vouches_cons]
    exact ⟨hleadHas, Db.vouches_nil _⟩
  · rw [Upsert.refs_of_mem_inserts hw]
    exact fun ref href => (htouch ref href).foldl _
  · rw [refs_of_mem_saved hw]
    exact fun ref href => (htouch ref href).foldl _
  · exact vouches_receipt hleadHas (hevent _) (hidentity _)
  · exact vouches_receipt hrouteHas (hevent _) (hidentity _)
  · exact vouches_receipt htouchHas (hevent _) (hidentity _)

theorem Escalation.Escalates.cites (lawful : sight.Lawful) (hintact : Intact L)
    (h : Escalation.Escalates sight L ws)
    (hidentities : ∀ receipt ∈ inserted .receipts ws, ∀ u ∈ Receipt.identityId receipt,
      L.db.Has .identities u) : L.db.Cites ws := by
  have hvouches : ∀ w ∈ ws, L.db.Vouches w.refs := by
    induction h with
    | nil => simp
    | @snoc ws route identityId detectedAt rid now h hroute _ _ ih =>
        have hlast := fun u hu => hidentities (receipt .escalated (Route.id route) .route
          (.escalated (Route.queue route) (Route.ruleMatched route) (Route.slaDeadline route)
            detectedAt) none (some identityId) .ok rid now)
          (mem_inserted.mpr (List.mem_append_right _ (List.mem_cons_of_mem _
            (List.mem_singleton_self _)))) u hu
        simp only [inserted_append, List.mem_append] at hidentities
        intro w hw
        simp only [List.mem_append, List.mem_cons, List.not_mem_nil, or_false] at hw
        rcases hw with hw | rfl | rfl
        · exact ih (fun receipt hreceipt => hidentities receipt (.inl hreceipt)) w hw
        · exact hintact.seen lawful hroute
        · exact vouches_receipt (lawful.has hroute) (by simp) hlast
  exact fun w hw ref href => (hvouches w hw ref href).foldl ws

end DemandSignal
