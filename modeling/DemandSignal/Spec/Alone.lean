import DemandSignal.Spec.Visits

/-!
# Tables after a transaction alone

A transaction that runs alone has seen the rows as they are, so what it leaves of each table is a
function of what it found: one row per value of a unique column is set, the others stay.
-/

namespace DemandSignal

open Txn

/-- One row is set, the rows with other values of the column stay. -/
def Sets {t : Table} {β : Type} (column : Row t → β) (new : Row t) (before after : List (Row t)) :
    Prop :=
  ∀ row, row ∈ after ↔ row = new ∨ row ∈ before ∧ column row ≠ column new

namespace Sets

variable {t : Table} {β : Type} {column : Row t → β} {new row : Row t} {before after : List (Row t)}

theorem new_mem (h : Sets column new before after) : new ∈ after := (h new).mpr (.inl rfl)

theorem eq_new (h : Sets column new before after) (hrow : row ∈ after)
    (hcolumn : column row = column new) : row = new := by
  obtain heq | ⟨-, hne⟩ := (h row).mp hrow
  · exact heq
  · exact absurd hcolumn hne

theorem mem_of_ne (h : Sets column new before after) (hrow : row ∈ before)
    (hcolumn : column row ≠ column new) : row ∈ after := (h row).mpr (.inr ⟨hrow, hcolumn⟩)

theorem of_ne (h : Sets column new before after) (hrow : row ∈ after)
    (hcolumn : column row ≠ column new) : row ∈ before := by
  obtain heq | ⟨hmem, -⟩ := (h row).mp hrow
  · exact absurd (congrArg column heq) hcolumn
  · exact hmem

theorem append (hnew : ∀ row ∈ before, column row ≠ column new) :
    Sets column new before (before ++ [new]) := by
  intro row
  rw [List.mem_append, List.mem_singleton, or_comm]
  exact or_congr_right ⟨fun h => ⟨h, hnew row h⟩, And.left⟩

/-- The column may be any that tells the new row's predecessor from the other rows. -/
theorem congr {γ : Type} {column' : Row t → γ} (h : Sets column new before after)
    (hcolumn : ∀ row ∈ before, column row = column new ↔ column' row = column' new) :
    Sets column' new before after := by
  intro row
  rw [h row]
  exact or_congr_right (and_congr_right fun hrow => not_congr (hcolumn row hrow))

end Sets

variable {app : App} {sight : Sight} {L : Ledger Db Write} {ws : List Write}

theorem not_shared_still : ¬ still.shared := id

/-- An `UPDATE` of a row that is as it was loaded. -/
theorem Db.Distinct.sets_updated {db : Db} (h : db.Distinct) {t : Table} {loaded new : Row t}
    (hloaded : loaded ∈ db t) (hid : new.id = loaded.id)
    (hmerge : Row.merge loaded new loaded = new) :
    Sets Row.id new (db t) (Db.updated loaded new (db t)) := by
  intro row
  rw [Db.mem_updated]
  constructor
  · rintro ⟨current, hcurrent, rfl⟩
    by_cases hsame : current.id = loaded.id
    · rw [if_pos hsame, h.eq_of_id hcurrent hloaded hsame, hmerge]
      exact .inl rfl
    · rw [if_neg hsame, hid]
      exact .inr ⟨hcurrent, hsame⟩
  · rintro (rfl | ⟨hrow, hne⟩)
    · exact ⟨loaded, hloaded, by rw [if_pos rfl, hmerge]⟩
    · rw [hid] at hne
      exact ⟨row, hrow, by rw [if_neg hne]⟩

theorem Upsert.sets_put {t : Table} {β : Type} {column : Row t → β} {value : β} {u : Upsert t}
    {fresh : Uuid → Row t} {edit : Row t → Row t}
    (h : u.By still L (fun row => column row = value) fresh edit) (hdistinct : L.db.Distinct)
    (hfresh : ∀ id, column (fresh id) = value) (hedit : ∀ row, column (edit row) = column row)
    (key : Key) (hkey : ∀ row : Row t, column row = value → key ∈ row.indexed) :
    column u.row = value ∧ Sets column u.row (L.db t) (u.put (L.db t)) := by
  cases u with
  | created row =>
      obtain ⟨hnone, heq⟩ := h
      have hcolumn : column row = value := by rw [heq, hfresh]
      exact ⟨hcolumn, .append fun other hother => by
        rw [Upsert.row_created, hcolumn]
        exact hnone other hother⟩
  | updated loaded new =>
      obtain ⟨hloaded, hvalue, rfl⟩ := h
      have hcolumn : column (edit loaded) = value := (hedit loaded).trans hvalue
      refine ⟨hcolumn, fun row => ?_⟩
      have hsame : ∀ other ∈ L.db t, column other = value → other = loaded := fun other hother ho =>
        hdistinct.eq_of_indexed hother hloaded (hkey other ho) (hkey loaded hvalue)
      rw [Upsert.row_updated, hcolumn, Upsert.put, List.mem_map]
      constructor
      · rintro ⟨other, hother, rfl⟩
        by_cases hid : other.id = loaded.id
        · rw [if_pos hid]
          exact .inl rfl
        · rw [if_neg hid]
          exact .inr ⟨hother, fun ho => hid (by rw [hsame other hother ho])⟩
      · rintro (rfl | ⟨hrow, hne⟩)
        · exact ⟨loaded, hloaded, if_pos rfl⟩
        · refine ⟨row, hrow, if_neg fun hid => hne ?_⟩
          rw [hdistinct.eq_of_id hrow hloaded hid, hvalue]

/-- An upsert on a unique column sets the row of its value. -/
theorem Upsert.By.sets {t : Table} {β : Type} {column : Row t → β} {value : β} {u : Upsert t}
    {fresh : Uuid → Row t} {edit : Row t → Row t}
    (h : u.By still L (fun row => column row = value) fresh edit) (hdistinct : L.db.Distinct)
    (hfresh : ∀ id, column (fresh id) = value) (hedit : ∀ row, column (edit row) = column row)
    (key : Key) (hkey : ∀ row : Row t, column row = value → key ∈ row.indexed)
    (hstamp : ∀ (row : Row t) now, row.stamp now = row)
    (hmerge : ∀ row, Row.merge row (edit row) row = edit row) {now : Time}
    (hws : (ws.filter fun w => w.table = t) = u.writes now) :
    column u.row = value ∧ Sets column u.row (L.db t) ((L.commit ws).db t) := by
  have hrows := Upsert.By.rows lawful_still not_shared_still hdistinct h hstamp hmerge hws
  rw [hrows]
  exact Upsert.sets_put h hdistinct hfresh hedit key hkey

/-! ### Links and reviews -/

namespace Resolve

theorem LinksBy.sets {eventId identityId : Uuid} {confidence : Decimal} {matchRule : MatchRule}
    {link : Upsert .identityLinks} (h : LinksBy still L eventId identityId confidence matchRule link)
    (hdistinct : L.db.Distinct) {now : Time}
    (hws : (ws.filter fun w => w.table = .identityLinks) = link.writes now) :
    IdentityLink.eventId link.row = eventId ∧ IdentityLink.identityId link.row = identityId ∧
      Sets IdentityLink.eventId link.row (L.db .identityLinks) ((L.commit ws).db .identityLinks) := by
  have hkey : ∀ row : Row .identityLinks, IdentityLink.eventId row = eventId →
      Key.linkEvent eventId ∈ Row.indexed row := by
    rintro row rfl
    exact List.mem_singleton_self _
  unfold LinksBy at h
  obtain ⟨hevent, hsets⟩ := Upsert.By.sets h hdistinct (fun _ => rfl) (fun _ => rfl) _ hkey
    (fun _ _ => rfl) (fun row => by simp [Row.merge]) hws
  refine ⟨hevent, ?_, hsets⟩
  cases link with
  | created row => rw [Upsert.row_created, h.2]
  | updated loaded new => rw [Upsert.row_updated, h.2.2]

/-- The event is linked to the identity, and no other link changes. -/
theorem LinksEvent.sets {eventId identityId : Uuid} {matchRule : MatchRule}
    (h : LinksEvent still L ws eventId identityId matchRule) (hdistinct : L.db.Distinct) :
    ∃ link : IdentityLink, link.eventId = eventId ∧ link.identityId = identityId ∧
      Sets IdentityLink.eventId link (L.db .identityLinks) ((L.commit ws).db .identityLinks) := by
  obtain ⟨link, now, hlink, hwrites⟩ := h
  exact ⟨link.row, hlink.sets hdistinct hwrites⟩

/-- The review row of a parked event: pending if it is new. -/
theorem Parks.sets {event : Event} (h : Parks app still L event ws) (hdistinct : L.db.Distinct) :
    ∃ entry : ManualReviewQueue, entry.eventId = event.id ∧
      ((∀ review ∈ L.db .manualReviewQueue, ManualReviewQueue.eventId review ≠ event.id) ∧
          entry.status = .pending ∨
        ∃ review ∈ L.db .manualReviewQueue, ManualReviewQueue.eventId review = event.id ∧
          entry.status = review.status) ∧
      Sets ManualReviewQueue.eventId entry (L.db .manualReviewQueue)
        ((L.commit ws).db .manualReviewQueue) := by
  obtain @⟨candidateIdentityId, reason, entry, now, rid, -, -, -, hentry⟩ := h
  have hkey : ∀ row : Row .manualReviewQueue, ManualReviewQueue.eventId row = event.id →
      Key.reviewEvent event.id ∈ Row.indexed row := by
    intro row hrow
    rw [Row.indexed, hrow]
    exact List.mem_singleton_self _
  have hws : ((entry.writes now ++ queuedReceipt event.id reason rid now entry).filter
      fun w => w.table = .manualReviewQueue) = entry.writes now := by
    rw [List.filter_append, Upsert.filter_writes]
    cases entry <;> simp [queuedReceipt, Write.table]
  unfold QueuesBy at hentry
  obtain ⟨hevent, hsets⟩ := Upsert.By.sets hentry hdistinct (fun _ => rfl) (fun _ => rfl) _ hkey
    (fun _ _ => rfl) (fun row => by simp [Row.merge]) hws
  refine ⟨entry.row, hevent, ?_, hsets⟩
  cases entry with
  | created row =>
      refine .inl ⟨hentry.1, ?_⟩
      rw [Upsert.row_created, hentry.2]
  | updated loaded new =>
      refine .inr ⟨loaded, hentry.1, hentry.2.1, ?_⟩
      rw [Upsert.row_updated, hentry.2.2]

theorem Resolves.pending {decision : String} {review : ManualReviewQueue} {identityId : Uuid}
    (h : Resolves still L decision review identityId ws) :
    review ∈ L.db .manualReviewQueue ∧ review.status = .pending := by
  cases h with
  | merged hpending => exact hpending
  | created hpending => exact hpending

/-- The claim is all that is written to the reviews. -/
theorem Resolves.reviewWrites {decision : String} {review : ManualReviewQueue} {identityId : Uuid}
    (h : Resolves sight L decision review identityId ws) :
    ∃ resolvedAt, (ws.filter fun w => w.table = .manualReviewQueue) =
      [.update .manualReviewQueue review (resolved review decision resolvedAt)] := by
  cases h with
  | @merged resolvedAt =>
      refine ⟨resolvedAt, ?_⟩
      rw [List.filter_cons_of_pos (by simp [Write.table]), List.filter_append,
        Upsert.filter_writes_of_ne _ _ (by decide), List.filter_cons_of_neg (by simp [Write.table])]
      rfl
  | @created resolvedAt =>
      refine ⟨resolvedAt, ?_⟩
      rw [List.filter_cons_of_pos (by simp [Write.table]), List.filter_cons_of_neg
        (by simp [Write.table]), List.filter_cons_of_neg (by simp [Write.table]),
        List.filter_append, Upsert.filter_writes_of_ne _ _ (by decide), List.filter_cons_of_neg
        (by simp [Write.table])]
      rfl

/-- The review is resolved, and no other review changes. -/
theorem Resolves.sets {decision : String} {review : ManualReviewQueue} {identityId : Uuid}
    (h : Resolves still L decision review identityId ws) (hdistinct : L.db.Distinct) :
    ∃ resolvedAt, Sets ManualReviewQueue.eventId (resolved review decision resolvedAt)
      (L.db .manualReviewQueue) ((L.commit ws).db .manualReviewQueue) := by
  have hpending := h.pending
  obtain ⟨resolvedAt, hwrites⟩ := h.reviewWrites
  refine ⟨resolvedAt, ?_⟩
  rw [commit_rows, hwrites, List.foldl_cons, List.foldl_nil, Db.apply_update_self]
  have hsets : Sets Row.id (t := .manualReviewQueue) (resolved review decision resolvedAt)
      (L.db .manualReviewQueue) (Db.updated review (resolved review decision resolvedAt) _) :=
    hdistinct.sets_updated hpending.1 rfl (by simp [Row.merge, resolved])
  refine hsets.congr fun row hrow => ⟨fun hid => ?_, fun hevent => ?_⟩
  · rw [hdistinct.eq_of_id (t := .manualReviewQueue) hrow hpending.1 hid]
    rfl
  · have hkey : Key.reviewEvent (ManualReviewQueue.eventId row) ∈
        Row.indexed (t := .manualReviewQueue) review := by
      rw [hevent]
      exact List.mem_singleton_self _
    rw [hdistinct.eq_of_indexed (t := .manualReviewQueue) hrow hpending.1
      (List.mem_singleton_self _) hkey]
    rfl

/-- An event is linked to an identity that is there, or to a new one. -/
theorem Links.identities {event : Event} {identityId : Uuid}
    (h : Links app still L event identityId ws) :
    (∃ identity ∈ L.db .identities, Identity.id identity = identityId ∧
        (L.commit ws).db .identities = L.db .identities) ∨
      ∃ identity : Identity, identity.id = identityId ∧
        (L.commit ws).db .identities = L.db .identities ++ [identity] := by
  cases h with
  | @found identity _ link now _ _ hidentity _ _ =>
      exact .inl ⟨identity, hidentity, rfl, commit_of_untouched fun w hw => by
        rw [Upsert.table_of_mem_writes hw]
        decide⟩
  | @minted identity matchRule link now _ rid _ _ _ hmints _ =>
      refine .inr ⟨identity, (Rule.mints_spec hmints).1, ?_⟩
      rw [commit_rows, List.filter_cons_of_pos (by simp [Write.table]), List.filter_cons_of_neg
        (by simp [Write.table]), Upsert.filter_writes_of_ne _ _ (by decide), List.foldl_cons,
        List.foldl_nil, Db.apply_insert_self]

end Resolve

/-! ### Events -/

/-- The new version of an event takes the place of the old one. -/
theorem Ingest.Edits.sets {model : EventIn} {payload : Json.Fields} {existing : Event}
    (h : Ingest.Edits app still L model payload existing ws) (hdistinct : L.db.Distinct) :
    Sets Event.id (Ingest.edited app existing model payload) (L.db .events)
      ((L.commit ws).db .events) := by
  rw [h.rows]
  exact hdistinct.sets_updated (t := .events) h.seen rfl (by simp [Row.merge, Ingest.edited])

/-- The columns an accepted payload gives its event. -/
structure Ingest.Carries (app : App) (model : EventIn) (payload : Json.Fields) (event : Event) : Prop
    extends Ingest.Holds app model event where
  payloadHash : event.payloadHash = Ingest.computePayloadHash app payload
  rawPayload : event.rawPayload = payload
  identityFields : event.identityFields = some model.identity
  receivedAt : event.receivedAt = model.receivedAt

/-- The ingested event is the new version; the other events stay. -/
theorem Accepted.sets {model : EventIn} {payload : Json.Fields} {event : Event}
    {status : Ingest.IngestStatus} {L' : Ledger Db Write}
    (h : Accepted app L model payload event status L') (hdistinct : L.db.Distinct) :
    Ingest.Carries app model payload event ∧ Sets Event.id event (L.db .events) (L'.db .events) := by
  cases h with
  | @created ws hcreates happ hevent =>
      obtain ⟨row, hinsert, hrows, now, hrow⟩ := hcreates.rows (L := L)
      have hsets : Sets Event.id row (L.db .events) ((L.commit ws).db .events) := by
        rw [hrows]
        exact .append fun old hold => (happ.id_ne (t := .events) (s := .events) hold hinsert).symm
      have hid : event.id = row.id := by rw [hrow]; rfl
      obtain rfl := hsets.eq_new hevent hid
      rw [hrow]
      exact ⟨⟨⟨rfl, rfl⟩, rfl, rfl, rfl, rfl⟩, by rw [← hrow]; exact hsets⟩
  | @edited existing ws hedits happ hevent hid =>
      have hsets := hedits.sets hdistinct
      obtain rfl := hsets.eq_new hevent hid
      obtain ⟨-, -, -, hholds, -⟩ := hedits
      exact ⟨⟨⟨hholds.isValid, hholds.dedupeKey⟩, rfl, rfl, rfl, rfl⟩, hsets⟩

/-! ### Interpretations, scores and dead letters -/

namespace Interpret

theorem Interprets.sets {event : Event} {fields : Classified} {interpretation : Interpretation}
    (h : Interprets still L event fields interpretation ws) (hdistinct : L.db.Distinct) :
    interpretation.eventId = event.id ∧ interpretation.label = fields.label ∧
      interpretation.confidence = fields.confidence ∧
      Sets Interpretation.eventId interpretation (L.db .interpretations)
        ((L.commit ws).db .interpretations) := by
  obtain @⟨interpretation, rid, now, -, -, hrow⟩ := h
  have hkey : ∀ row : Row .interpretations, Interpretation.eventId row = event.id →
      Key.interpretationEvent event.id ∈ Row.indexed row := by
    intro row hrow
    rw [Row.indexed, hrow]
    exact List.mem_singleton_self _
  have hws : ((interpretation.writes now ++
      [Write.insert .receipts (receipt .interpreted (Interpretation.id interpretation.row)
        .interpretation (.interpreted (Interpretation.label interpretation.row)
          (Interpretation.confidence interpretation.row)
          (Interpretation.wasSkipped interpretation.row)
          (Interpretation.promptVersion interpretation.row)) (some event.id) none .ok rid
        now)]).filter fun w => w.table = .interpretations) = interpretation.writes now := by
    rw [List.filter_append, Upsert.filter_writes, List.filter_cons_of_neg (by simp [Write.table])]
    exact List.append_nil _
  unfold InterpretsBy at hrow
  obtain ⟨hevent, hsets⟩ := Upsert.By.sets hrow hdistinct (fun _ => rfl) (fun _ => rfl) _ hkey
    (fun _ _ => rfl) (fun row => by simp [Row.merge, Classified.edit]) hws
  refine ⟨hevent, ?_, ?_, hsets⟩
  all_goals
    cases interpretation with
    | created row => rw [Upsert.row_created, hrow.2, Classified.fresh]
    | updated loaded new => rw [Upsert.row_updated, hrow.2.2, Classified.edit]

/-- A dead letter is one more row. -/
theorem DeadLetters.rows {event : Event} (h : DeadLetters sight L event ws) :
    ∃ dlq : DeadLetterQueue, Write.insert .deadLetterQueue dlq ∈ ws ∧ dlq.eventId = event.id ∧
      dlq.resolved = false ∧
      (L.commit ws).db .deadLetterQueue = L.db .deadLetterQueue ++ [dlq] := by
  obtain @⟨dlq, _, _, _, _, _, -, hevent, hopen, -⟩ := h
  refine ⟨dlq, List.mem_cons_self .., hevent, hopen, ?_⟩
  rw [commit_rows]
  simp [Write.table, Db.apply_insert_self]

/-- The replayed event's open dead letter is resolved, and no other changes. -/
theorem Revives.sets {eventId identityId : Uuid} (h : Revives still L eventId identityId ws)
    (hdistinct : L.db.Distinct) :
    ∃ dlq ∈ L.db .deadLetterQueue, DeadLetterQueue.eventId dlq = eventId ∧
      DeadLetterQueue.resolved dlq = false ∧
      Sets DeadLetterQueue.id ({ (dlq : DeadLetterQueue) with resolved := true } : DeadLetterQueue)
        (L.db .deadLetterQueue) ((L.commit ws).db .deadLetterQueue) := by
  obtain @⟨dlq, stage, rid, now, hdlq, hevent, hopen⟩ := h
  refine ⟨dlq, hdlq, hevent, hopen, ?_⟩
  have hne : ({ dlq with resolved := true } : DeadLetterQueue) ≠ dlq := by
    intro hsame
    have hresolved := congrArg DeadLetterQueue.resolved hsame
    rw [hopen] at hresolved
    cases hresolved
  rw [commit_rows, saved_of_ne (t := .deadLetterQueue) hne]
  simp only [List.singleton_append, Write.table, List.filter_cons, decide_true, if_true,
    List.filter_nil, reduceCtorEq, decide_false, Bool.false_eq_true, if_false, List.foldl_cons,
    List.foldl_nil, Db.apply_update_self]
  exact hdistinct.sets_updated (t := .deadLetterQueue) hdlq rfl (by simp [Row.merge])

end Interpret

namespace Scoring

/-- What the code makes of an interpretation, as columns of a score. -/
def columnsOf (app : App) (event : Event) (identityId : Uuid) (interpretation : Interpretation) :
    Option Columns :=
  (computeScore app.scoringPolicy interpretation.label interpretation.confidence event.source
    event.consent event.campaignId).map fun score =>
      ⟨identityId, score.1, score.2.2, app.scoringPolicy.policyVersion, score.2.1⟩

theorem upsertWrites_foldl {eventId : Uuid} {columns : Columns} {now : Time} {upsert : Upsert .scores}
    (h : ScoresBy still L eventId columns now upsert) (hdistinct : L.db.Distinct) :
    (upsertWrites upsert).foldl Db.apply L.db .scores = upsert.put (L.db .scores) := by
  cases upsert with
  | created row =>
      rw [upsertWrites, List.foldl_cons, List.foldl_nil, Db.apply_insert_self, Upsert.put]
  | updated loaded new =>
      rw [upsertWrites, List.foldl_cons, List.foldl_nil, Db.apply_update_self, Db.updated, Upsert.put]
      refine List.map_congr_left fun row hmem => ?_
      by_cases hid : Row.id row = Row.id loaded
      · rw [if_pos hid, if_pos hid, hdistinct.eq_of_id hmem h.1 hid, h.2.2]
        simp [Row.merge, Columns.edit]
      · rw [if_neg hid, if_neg hid]

/-- The score that the pipeline goes on with is the one that was written. -/
theorem Scores.upserted {event : Event} {identityId : Uuid} {interpretation : Interpretation}
    {score : Score} (h : Scores app still L event identityId interpretation score ws)
    (hdistinct : L.db.Distinct) :
    ∃ columns now upsert rid, columnsOf app event identityId interpretation = some columns ∧
      ScoresBy still L event.id columns now upsert ∧ score = upsert.row ∧ score.eventId = event.id ∧
      ws = upsertWrites upsert ++ [.insert .receipts (receipt .scored score.id .score
        (.scored score.score score.decision score.policyVersion) (some event.id) (some identityId) .ok
        rid now)] ∧
      Sets Score.eventId score (L.db .scores) ((L.commit ws).db .scores) := by
  obtain @⟨value, decision, features, _, upsert, rid, now, -, -, hscore, hrow, heventId, hread⟩ := h
  have hkey : ∀ row : Row .scores, Score.eventId row = event.id →
      Key.scoreEvent event.id ∈ Row.indexed row := by
    intro row hrow
    rw [Row.indexed, hrow]
    exact List.mem_singleton_self _
  have hput := upsertWrites_foldl hrow hdistinct
  have hby := hrow
  unfold ScoresBy at hby
  obtain ⟨hevent, hsets⟩ := Upsert.sets_put hby hdistinct (fun _ => rfl) (fun _ => rfl) _ hkey
  change score ∈ (upsertWrites upsert).foldl Db.apply L.db .scores at hread
  rw [hput] at hread
  obtain rfl : score = upsert.row := hsets.eq_new hread (heventId.trans hevent.symm)
  refine ⟨_, now, upsert, rid, by rw [columnsOf, hscore]; rfl, hrow, rfl, hevent, rfl, ?_⟩
  change Sets Score.eventId _ _ (List.foldl Db.apply L.db _ .scores)
  rw [List.foldl_append, List.foldl_cons, List.foldl_nil, Db.apply_of_ne _ (by intro h; cases h), hput]
  exact hsets

/-- The score of an event is set. -/
theorem Scores.sets {event : Event} {identityId : Uuid} {interpretation : Interpretation}
    {score : Score} (h : Scores app still L event identityId interpretation score ws)
    (hdistinct : L.db.Distinct) :
    score.eventId = event.id ∧
      Sets Score.eventId score (L.db .scores) ((L.commit ws).db .scores) := by
  obtain ⟨_, _, _, _, -, -, -, hevent, -, hsets⟩ := h.upserted hdistinct
  exact ⟨hevent, hsets⟩

end Scoring

/-! ### Leads, routes and touches -/

namespace Act

theorem LeadsBy.sets {event : Event} {identityId : Uuid} {now : Time} {lead : Upsert .leads}
    (h : LeadsBy still L event identityId now lead) (hdistinct : L.db.Distinct)
    (happ : Applicable ws L.db) (hinserts : lead.inserts ⊆ ws)
    (hws : (ws.filter fun w => w.table = .leads) = lead.writes now ++
      saved .leads lead.row ({ (lead.row : Lead) with status := .routed } : Lead) now) :
    ∃ final : Lead, final.id = Lead.id lead.row ∧ final.identityId = identityId ∧
      final.sourceEventId = event.id ∧ final.status = .routed ∧
      Sets Lead.identityId final (L.db .leads) ((L.commit ws).db .leads) := by
  cases lead with
  | created new =>
      obtain ⟨hnone, heq⟩ := h
      have hstatus : ({ (new : Lead) with status := .routed } : Lead) ≠ new := by
        intro hsame
        have hstatus := congrArg Lead.status hsame
        rw [heq] at hstatus
        cases hstatus
      have hidentity : Lead.identityId new = identityId := by rw [heq]
      let final : Lead := { (new : Lead) with status := .routed, updatedAt := now }
      refine ⟨final, rfl, hidentity, by simp only [final]; rw [heq], rfl, ?_⟩
      have hrows : (L.commit ws).db .leads = L.db .leads ++ [final] := by
        rw [commit_rows, hws, Upsert.writes_created, Upsert.row_created, saved_of_ne (t := .leads) hstatus,
          List.singleton_append, List.foldl_cons, List.foldl_cons, List.foldl_nil,
          Db.apply_update_self, Db.apply_insert_self, Db.updated, List.map_append, List.map_singleton,
          if_pos rfl]
        congr 1
        · refine (List.map_congr_left fun row hrow => if_neg fun hid => ?_).trans (List.map_id _)
          exact happ.id_ne (t := .leads) (s := .leads) hrow (hinserts (List.mem_singleton_self _))
            hid.symm
        · simp [Row.merge, Row.stamp, final]
      rw [hrows]
      refine .append fun row hrow => ?_
      change Lead.identityId row ≠ Lead.identityId new
      rw [hidentity]
      exact hnone row hrow
  | updated loaded new =>
      obtain ⟨hloaded, hidentity, rfl⟩ := h
      rw [Upsert.row_updated, saved_self (t := .leads) rfl, List.append_nil,
        Upsert.writes_updated] at hws
      have hcolumn : ∀ final : Lead, final.id = Lead.id loaded → final.identityId = identityId →
          ∀ row ∈ L.db .leads, Row.id row = Row.id (t := .leads) final ↔
            Lead.identityId row = final.identityId := by
        intro final hid hfinal row hrow
        constructor
        · intro hsame
          rw [hdistinct.eq_of_id (t := .leads) hrow hloaded (hsame.trans hid), hfinal, hidentity]
        · intro hsame
          have hkey : Key.leadIdentity (Lead.identityId row) ∈ Row.indexed (t := .leads) loaded := by
            rw [hsame, hfinal, ← hidentity]
            exact List.mem_singleton_self _
          rw [hdistinct.eq_of_indexed (t := .leads) hrow hloaded (List.mem_singleton_self _) hkey]
          exact hid.symm
      by_cases hsame : ({ (loaded : Lead) with sourceEventId := event.id, status := .routed } : Lead) =
          loaded
      · refine ⟨loaded, rfl, hidentity, by rw [← hsame], by rw [← hsame], ?_⟩
        rw [commit_rows, hws, saved_self (t := .leads) hsame, List.foldl_nil]
        intro row
        constructor
        · intro hrow
          by_cases hcol : Lead.identityId row = Lead.identityId loaded
          · refine .inl (hdistinct.eq_of_id (t := .leads) hrow hloaded ?_)
            exact (hcolumn loaded rfl hidentity row hrow).mpr hcol
          · exact .inr ⟨hrow, hcol⟩
        · rintro (rfl | ⟨hrow, -⟩)
          exacts [hloaded, hrow]
      · refine ⟨{ (loaded : Lead) with sourceEventId := event.id, status := .routed, updatedAt := now },
          rfl, hidentity, rfl, rfl, ?_⟩
        rw [commit_rows, hws, saved_of_ne (t := .leads) hsame, List.foldl_cons, List.foldl_nil,
          Db.apply_update_self]
        refine Sets.congr (hdistinct.sets_updated (t := .leads) hloaded rfl ?_)
          (hcolumn _ rfl hidentity)
        simp [Row.merge]

theorem RoutesBy.sets {leadId : Uuid} {rule : String × String × Int} {assignedAt : Time}
    {route : Upsert .routes} (h : RoutesBy still L leadId rule assignedAt route)
    (hdistinct : L.db.Distinct) {now : Time}
    (hws : (ws.filter fun w => w.table = .routes) = route.writes now) :
    Route.leadId route.row = leadId ∧ Route.queue route.row = rule.1 ∧
      Route.ruleMatched route.row = rule.2.1 ∧
      Sets Route.leadId route.row (L.db .routes) ((L.commit ws).db .routes) := by
  have hkey : ∀ row : Row .routes, Route.leadId row = leadId →
      Key.routeLead leadId ∈ Row.indexed row := by
    rintro row rfl
    exact List.mem_singleton_self _
  unfold RoutesBy at h
  obtain ⟨hlead, hsets⟩ := Upsert.By.sets h hdistinct (fun _ => rfl) (fun _ => rfl) _ hkey
    (fun _ _ => rfl) (fun row => by simp [Row.merge]) hws
  refine ⟨hlead, ?_, ?_, hsets⟩
  all_goals
    cases route with
    | created row => rw [Upsert.row_created, h.2]
    | updated loaded new => rw [Upsert.row_updated, h.2.2]

/-- The touch of an identity is its event's, or the one before with the event taken in. -/
def Touches (L : Ledger Db Write) (event : Event) (identityId : Uuid) (touch : AttributionTouch) :
    Prop :=
  (∀ old ∈ L.db .attributionTouches, AttributionTouch.identityId old ≠ identityId) ∧
      (∃ id now, touch = Attribute.newTouch event identityId id now) ∨
    ∃ old ∈ L.db .attributionTouches, AttributionTouch.identityId old = identityId ∧ ∃ updatedAt,
      touch = if event.isEdit then Attribute.editTouch old event updatedAt
        else Attribute.extendTouch old event updatedAt

theorem identityId_touch (touch : AttributionTouch) (event : Event) (updatedAt : Time) :
    (if event.isEdit then Attribute.editTouch touch event updatedAt
      else Attribute.extendTouch touch event updatedAt).identityId = touch.identityId := by
  unfold Attribute.editTouch Attribute.extendTouch
  split <;> dsimp only <;> split <;> split <;> rfl

theorem TouchesBy.sets {event : Event} {identityId : Uuid} {now updatedAt : Time}
    {touch : Upsert .attributionTouches} (h : TouchesBy still L event identityId now updatedAt touch)
    (hdistinct : L.db.Distinct) {now' : Time}
    (hws : (ws.filter fun w => w.table = .attributionTouches) = touch.writes now') :
    AttributionTouch.identityId touch.row = identityId ∧ Touches L event identityId touch.row ∧
      Sets AttributionTouch.identityId touch.row (L.db .attributionTouches)
        ((L.commit ws).db .attributionTouches) := by
  have hkey : ∀ row : Row .attributionTouches, AttributionTouch.identityId row = identityId →
      Key.touchIdentity identityId ∈ Row.indexed row := by
    rintro row rfl
    exact List.mem_singleton_self _
  unfold TouchesBy at h
  obtain ⟨hidentity, hsets⟩ := Upsert.By.sets h hdistinct (fun _ => rfl)
    (fun row => identityId_touch row event updatedAt) _ hkey (fun _ _ => rfl)
    (fun row => by
      unfold Attribute.editTouch Attribute.extendTouch
      split <;> dsimp only <;> split <;> split <;> simp [Row.merge]) hws
  refine ⟨hidentity, ?_, hsets⟩
  cases touch with
  | created row => exact .inl ⟨h.1, _, _, h.2⟩
  | updated loaded new => exact .inr ⟨loaded, h.1, h.2.1, updatedAt, h.2.2⟩

/-- What acting on an event makes of the lead, the route and the touch of its identity. -/
structure Leaves (app : App) (L : Ledger Db Write) (event : Event) (identityId : Uuid)
    (score : Option Score) (ws : List Write) (lead : Lead) (route : Route) (touch : AttributionTouch) :
    Prop where
  leads : Sets Lead.identityId lead (L.db .leads) ((L.commit ws).db .leads)
  leadIdentity : lead.identityId = identityId
  leadSource : lead.sourceEventId = event.id
  routes : Sets Route.leadId route (L.db .routes) ((L.commit ws).db .routes)
  routeLead : route.leadId = lead.id
  queue : route.queue =
    (applyRoutingRule (decisionOf score) (labelOf score) app.routingRules).1
  ruleMatched : route.ruleMatched =
    (applyRoutingRule (decisionOf score) (labelOf score) app.routingRules).2.1
  touches : Sets AttributionTouch.identityId touch (L.db .attributionTouches)
    ((L.commit ws).db .attributionTouches)
  touchIdentity : touch.identityId = identityId
  touched : Touches L event identityId touch

/-- What is returned of the rows that were left. -/
structure Tells (acted : Acted) (score : Option Score) (lead : Lead) (route : Route)
    (touch : AttributionTouch) : Prop where
  leadId : acted.leadId = lead.id
  routeId : acted.routeId = route.id
  queue : acted.queue = route.queue
  ruleMatched : acted.ruleMatched = route.ruleMatched
  slaDeadline : acted.slaDeadline = route.slaDeadline
  decision : acted.decision = decisionOf score
  touchId : acted.attributionTouchId = touch.id

theorem Performs.leaves {event : Event} {identityId : Uuid} {score : Option Score} {acted : Acted}
    (h : Performs app still L event identityId score acted ws) (hdistinct : L.db.Distinct)
    (happ : Applicable ws L.db) : ∃ lead route touch,
      Leaves app L event identityId score ws lead route touch ∧ Tells acted score lead route touch := by
  obtain @⟨lead, route, touch, leadRid, routeRid, touchRid, now, assignedAt, updatedAt, h⟩ := h
  obtain ⟨final, hid, hidentity, hsource, -, hleads⟩ :=
    h.led.sets hdistinct happ inserts_subset.1 writes_leads
  obtain ⟨hleadId, hqueue, hrule, hroutes⟩ := h.routed.sets hdistinct writes_routes
  obtain ⟨htouchIdentity, htouched, htouches⟩ := h.touched.sets hdistinct writes_touches
  exact ⟨final, route.row, touch.row, ⟨hleads, hidentity, hsource, hroutes, hleadId.trans hid.symm,
    hqueue, hrule, htouches, htouchIdentity, htouched⟩, hid.symm, rfl, rfl, rfl, rfl, rfl, rfl⟩

theorem Acts.leaves {event : Event} {identityId : Uuid} {score : Option Score}
    (h : Acts app still L event identityId score ws) (hdistinct : L.db.Distinct)
    (happ : Applicable ws L.db) :
    ∃ lead route touch, Leaves app L event identityId score ws lead route touch := by
  obtain ⟨h⟩ := h
  obtain ⟨lead, route, touch, hleaves, -⟩ := (Performs.intro h).leaves hdistinct happ
  exact ⟨lead, route, touch, hleaves⟩

end Act

end DemandSignal
