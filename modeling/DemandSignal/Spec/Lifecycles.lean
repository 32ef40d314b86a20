import DemandSignal.Spec.History

/-!
# Lifecycles

Rows are never deleted and move forward only: an edit, a resolution, a routing and an escalation are
never undone, whatever runs at the same time, and identities, receipts and refused events never change.
-/

namespace DemandSignal

open Txn

/-- What may become of a row. -/
def Row.Later : {t : Table} → (row later : Row t) → Prop
  | .events, (row : Event), (later : Event) =>
      later.source = row.source ∧ later.externalEventId = row.externalEventId ∧
        later.dedupeKey = row.dedupeKey ∧ later.isValid = row.isValid ∧
        later.invalidReason = row.invalidReason ∧ later.createdAt = row.createdAt ∧
        (row.isEdit = true → later.isEdit = true) ∧ (row.isValid = false → later = row)
  | .identities, row, later => later = row
  | .identityLinks, (row : IdentityLink), (later : IdentityLink) => later.eventId = row.eventId
  | .manualReviewQueue, (row : ManualReviewQueue), (later : ManualReviewQueue) =>
      later.eventId = row.eventId ∧ (row.status = .resolved → later.status = .resolved)
  | .interpretations, (row : Interpretation), (later : Interpretation) =>
      later.eventId = row.eventId ∧ later.createdAt = row.createdAt
  | .scores, (row : Score), (later : Score) =>
      later.eventId = row.eventId ∧ later.createdAt = row.createdAt
  | .leads, (row : Lead), (later : Lead) =>
      later.identityId = row.identityId ∧ later.createdAt = row.createdAt ∧
        (row.status = .routed → later.status = .routed)
  | .routes, (row : Route), (later : Route) =>
      later.leadId = row.leadId ∧ later.assignedAt = row.assignedAt ∧
        (row.escalated = true → later.escalated = true)
  | .attributionTouches, (row : AttributionTouch), (later : AttributionTouch) =>
      later.identityId = row.identityId ∧ later.createdAt = row.createdAt
  | .receipts, row, later => later = row
  | .deadLetterQueue, (row : DeadLetterQueue), (later : DeadLetterQueue) =>
      { later with resolved := row.resolved } = row ∧ (row.resolved = true → later.resolved = true)

theorem Row.Later.refl {t : Table} (row : Row t) : row.Later row := by
  cases t <;> simp [Row.Later]

theorem Row.Later.trans {t : Table} {row row' row'' : Row t} (h : row.Later row')
    (h' : row'.Later row'') : row.Later row'' := by
  cases t with
  | events =>
      obtain ⟨hsource, hexternal, hkey, hvalid, hreason, hcreated, hedit, hfixed⟩ := h
      obtain ⟨hsource', hexternal', hkey', hvalid', hreason', hcreated', hedit', hfixed'⟩ := h'
      refine ⟨hsource'.trans hsource, hexternal'.trans hexternal, hkey'.trans hkey,
        hvalid'.trans hvalid, hreason'.trans hreason, hcreated'.trans hcreated,
        fun hrow => hedit' (hedit hrow), fun hrow => ?_⟩
      exact (hfixed' (hvalid.trans hrow)).trans (hfixed hrow)
  | identities => exact Eq.trans h' h
  | identityLinks => exact Eq.trans h' h
  | manualReviewQueue => exact ⟨h'.1.trans h.1, fun hrow => h'.2 (h.2 hrow)⟩
  | interpretations => exact ⟨h'.1.trans h.1, h'.2.trans h.2⟩
  | scores => exact ⟨h'.1.trans h.1, h'.2.trans h.2⟩
  | leads => exact ⟨h'.1.trans h.1, h'.2.1.trans h.2.1, fun hrow => h'.2.2 (h.2.2 hrow)⟩
  | routes => exact ⟨h'.1.trans h.1, h'.2.1.trans h.2.1, fun hrow => h'.2.2 (h.2.2 hrow)⟩
  | attributionTouches => exact ⟨h'.1.trans h.1, h'.2.trans h.2⟩
  | receipts => exact Eq.trans h' h
  | deadLetterQueue =>
      obtain ⟨hsame, hresolved⟩ := h
      obtain ⟨hsame', hresolved'⟩ := h'
      refine ⟨?_, fun hrow => hresolved' (hresolved hrow)⟩
      rw [← hsame, ← hsame']

/-! ### Updates -/

/-- The update undoes no step of the row's life. -/
def Row.Raises : {t : Table} → (loaded new : Row t) → Prop
  | .manualReviewQueue, (loaded : ManualReviewQueue), (new : ManualReviewQueue) =>
      loaded.status = .resolved → new.status = .resolved
  | .leads, (loaded : Lead), (new : Lead) => loaded.status = .routed → new.status = .routed
  | .routes, (loaded : Route), (new : Route) => loaded.escalated = true → new.escalated = true
  | .deadLetterQueue, (loaded : DeadLetterQueue), (new : DeadLetterQueue) =>
      loaded.resolved = true → new.resolved = true
  | .events, _, _ | .identities, _, _ | .identityLinks, _, _ | .interpretations, _, _
  | .scores, _, _ | .attributionTouches, _, _ | .receipts, _, _ => True

/-- The tables whose rows have a life: a status or a flag that is set once. -/
def staged : List Table := [.manualReviewQueue, .leads, .routes, .deadLetterQueue]

theorem Row.raises_of_not_staged {t : Table} (h : t ∉ staged) (loaded new : Row t) :
    loaded.Raises new := by
  cases t <;> trivial

/-- Of two values of a column, one that is final stays, whatever was read. -/
theorem Row.column_final {α : Type} [DecidableEq α] {loaded new current final : α} (first : α)
    (htwo : ∀ a : α, a = first ∨ a = final) (hraises : loaded = final → new = final)
    (hcurrent : current = final) : Row.column loaded new current = final := by
  unfold Row.column
  split
  · exact hcurrent
  · next hne =>
      rcases htwo loaded with hloaded | hloaded
      · exact (htwo new).resolve_left fun hnew => hne (hnew.trans hloaded.symm)
      · exact hraises hloaded

theorem Row.later_merge {t : Table} {loaded new : Row t} (h : loaded.Raises new) (ht : t ≠ .events)
    (current : Row t) : current.Later (Row.merge loaded new current) := by
  have hflag : ∀ b : Bool, b = false ∨ b = true := by decide
  cases t with
  | events => exact absurd rfl ht
  | identities => rfl
  | identityLinks => rfl
  | manualReviewQueue =>
      refine ⟨rfl, Row.column_final .pending (fun status => ?_) h⟩
      cases status <;> simp
  | interpretations => exact ⟨rfl, rfl⟩
  | scores => exact ⟨rfl, rfl⟩
  | leads =>
      refine ⟨rfl, rfl, Row.column_final .new (fun status => ?_) h⟩
      cases status <;> simp
  | routes => exact ⟨rfl, rfl, Row.column_final false hflag h⟩
  | attributionTouches => exact ⟨rfl, rfl⟩
  | receipts => rfl
  | deadLetterQueue => exact ⟨rfl, Row.column_final false hflag h⟩

/-- Writes that undo nothing move every row forward. -/
theorem Db.exists_later {ws : List Write} {t : Table} (ht : t ≠ .events)
    (hws : ∀ loaded new : Row t, .update t loaded new ∈ ws → loaded.Raises new) {db : Db} {row : Row t}
    (hrow : row ∈ db t) : ∃ later ∈ ws.foldl Db.apply db t, later.id = row.id ∧ row.Later later := by
  induction ws generalizing db row with
  | nil => exact ⟨row, hrow, rfl, .refl row⟩
  | cons w ws ih =>
      have hstep : ∃ row' ∈ db.apply w t, row'.id = row.id ∧ row.Later row' := by
        by_cases htable : w.table = t
        · cases w with
          | insert t' new =>
              obtain rfl : t' = t := htable
              rw [Db.apply_insert_self]
              exact ⟨row, List.mem_append_left _ hrow, rfl, .refl row⟩
          | update t' loaded new =>
              obtain rfl : t' = t := htable
              rw [Db.apply_update_self]
              refine ⟨_, Db.mem_updated.mpr ⟨row, hrow, rfl⟩, ?_⟩
              split
              · exact ⟨Row.id_merge .., Row.later_merge (hws _ _ (List.mem_cons_self ..)) ht row⟩
              · exact ⟨rfl, .refl row⟩
        · rw [Db.apply_of_ne _ htable]
          exact ⟨row, hrow, rfl, .refl row⟩
      obtain ⟨row', hrow', hid, hlater⟩ := hstep
      obtain ⟨row'', hrow'', hid', hlater'⟩ :=
        ih (fun loaded new h => hws loaded new (List.mem_cons_of_mem _ h)) hrow'
      exact ⟨row'', hrow'', hid'.trans hid, hlater.trans hlater'⟩

/-! ### Transactions -/

variable {app : App} {sight : Sight} {L : Ledger Db Write} {ws : List Write}

theorem Names.raises {ts : List Table} (h : Names ws ts) (hts : ∀ t ∈ ts, t ∉ staged) {t : Table}
    {loaded new : Row t} (hw : .update t loaded new ∈ ws) : loaded.Raises new :=
  Row.raises_of_not_staged (hts t (h _ hw)) loaded new

/-- An upsert that keeps a final status raises it. -/
theorem Upsert.By.raises {t : Table} {p : Row t → Prop} {fresh : Uuid → Row t} {edit : Row t → Row t}
    {u : Upsert t} (h : u.By sight L p fresh edit) {now : Time}
    (hedit : ∀ row : Row t, row.Raises ((edit row).stamp now)) {loaded new : Row t}
    (hw : .update t loaded new ∈ u.writes now) : loaded.Raises new := by
  rcases Upsert.mem_writes hw with ⟨row, -, heq⟩ | ⟨loaded', new', rfl, -, heq⟩
  · cases heq
  · cases heq
    rw [h.2.2]
    exact hedit loaded

theorem Act.Acts.raises {event : Event} {identityId : Uuid} {score : Option Score}
    (h : Act.Acts app sight L event identityId score ws) {t : Table} {loaded new : Row t}
    (hw : .update t loaded new ∈ ws) : loaded.Raises new := by
  obtain @⟨lead, route, touch, leadRid, routeRid, touchRid, now, assignedAt, updatedAt, h⟩ := h
  by_cases ht : t ∈ staged
  · simp only [staged, List.mem_cons, List.not_mem_nil, or_false] at ht
    obtain rfl | rfl | rfl | rfl := ht
    · exact absurd ((Act.Acts.tables (.intro h)) _ hw) (by simp [Write.table])
    · have hfilter := List.mem_filter (p := fun w => w.table = .leads).mpr ⟨hw, decide_eq_true rfl⟩
      rw [Act.writes_leads] at hfilter
      rcases List.mem_append.mp hfilter with hw | hw
      · exact h.led.raises (fun _ _ => rfl) hw
      · cases (table_of_mem_saved hw).1
        exact fun _ => rfl
    · have hfilter := List.mem_filter (p := fun w => w.table = .routes).mpr ⟨hw, decide_eq_true rfl⟩
      rw [Act.writes_routes] at hfilter
      exact h.routed.raises (fun _ hrow => hrow) hfilter
    · exact absurd ((Act.Acts.tables (.intro h)) _ hw) (by simp [Write.table])
  · exact Row.raises_of_not_staged ht loaded new

theorem Escalation.Escalates.raises (h : Escalation.Escalates sight L ws) {t : Table}
    {loaded new : Row t} (hw : .update t loaded new ∈ ws) : loaded.Raises new := by
  induction h with
  | nil => cases hw
  | snoc _ _ _ _ ih =>
      simp only [List.mem_append, List.mem_cons, List.not_mem_nil, or_false] at hw
      rcases hw with hw | hw | hw
      · exact ih hw
      · cases hw
        exact fun _ => rfl
      · cases hw

theorem Resolve.Parks.raises {event : Event} (h : Resolve.Parks app sight L event ws) {t : Table}
    {loaded new : Row t} (hw : .update t loaded new ∈ ws) : loaded.Raises new := by
  obtain @⟨_, _, entry, _, _, -, -, -, hentry⟩ := h
  rcases List.mem_append.mp hw with hw | hw
  · obtain rfl : Table.manualReviewQueue = t := (Upsert.table_of_mem_writes hw).symm
    exact hentry.raises (fun _ hrow => hrow) hw
  · cases entry <;> simp [Resolve.queuedReceipt] at hw

theorem Resolve.Resolves.raises {decision : String} {review : ManualReviewQueue} {identityId : Uuid}
    (h : Resolve.Resolves sight L decision review identityId ws) {t : Table} {loaded new : Row t}
    (hw : .update t loaded new ∈ ws) : loaded.Raises new := by
  by_cases ht : t = .manualReviewQueue
  · subst ht
    have hnone : ∀ {u : Upsert .identityLinks} {now : Time},
        .update .manualReviewQueue loaded new ∈ u.writes now → False := fun hw =>
      absurd (Upsert.table_of_mem_writes hw) (by simp [Write.table])
    cases h <;> simp only [List.mem_append, List.mem_cons, List.not_mem_nil, or_false] at hw <;>
      rcases hw with hw | hw <;>
      first
        | (cases hw; exact fun _ => rfl)
        | (exfalso; simp at hw; exact hnone hw)
  · refine Row.raises_of_not_staged (fun hstaged => ?_) loaded new
    have hmem := h.tables _ hw
    simp only [staged, List.mem_cons, List.not_mem_nil, or_false, Write.table] at hstaged hmem
    rcases hstaged with rfl | rfl | rfl | rfl <;> simp at hmem ht

theorem Interpret.Revives.raises {eventId identityId : Uuid}
    (h : Interpret.Revives sight L eventId identityId ws) {t : Table} {loaded new : Row t}
    (hw : .update t loaded new ∈ ws) : loaded.Raises new := by
  obtain ⟨-, -, -⟩ := h
  rcases List.mem_append.mp hw with hw | hw
  · cases (table_of_mem_saved hw).1
    exact fun _ => rfl
  · simp at hw

/-- No transaction undoes a step. -/
theorem Transaction.raises (h : Transaction app sight L ws) {t : Table} {loaded new : Row t}
    (hw : .update t loaded new ∈ ws) : loaded.Raises new := by
  cases h with
  | creates h => exact h.tables.raises (by decide) hw
  | edits h => exact h.tables.raises (by decide) hw
  | rejects h => exact h.tables.raises (by decide) hw
  | links h => exact h.tables.raises (by decide) hw
  | parks h => exact h.raises hw
  | resolves h => exact h.raises hw
  | interprets h => exact h.tables.raises (by decide) hw
  | scores h => exact h.tables.raises (by decide) hw
  | acts h => exact h.raises hw
  | deadLetters h =>
      obtain ⟨-, -, -, -⟩ := h
      simp at hw
  | revives h => exact h.raises hw
  | escalates h => exact h.raises hw

/-- An edit is of an accepted event, and keeps its key. -/
theorem Ingest.Edits.later (lawful : sight.Lawful) (hhistory : History app sight L) {model : EventIn}
    {payload : Json.Fields} {existing : Event} (h : Ingest.Edits app sight L model payload existing ws)
    {event : Event} (hevent : event ∈ L.db .events) : ∃ later ∈ (L.commit ws).db .events,
      Event.id later = event.id ∧ Row.Later (t := .events) event later := by
  rw [h.rows]
  refine ⟨_, Db.mem_updated.mpr ⟨event, hevent, rfl⟩, ?_⟩
  split
  · next hid =>
      have hvalid : event.isValid = true := by
        obtain ⟨current, hcurrent, hkept⟩ := lawful.kept h.seen
        have hcurrentId : Event.id current = existing.id := hkept.static (Row.static_id .events)
        obtain rfl : current = event :=
          hhistory.distinct.eq_of_id (t := .events) hcurrent hevent (hcurrentId.trans hid.symm)
        have hstatic : Row.Static (t := .events) Event.isValid := fun _ _ _ => rfl
        have hsame : Event.isValid current = existing.isValid := hkept.static hstatic
        obtain @⟨rid, now, hvalid, haccept, hexisting, hholds, hnew⟩ := h
        exact hsame.trans hholds.isValid
      refine ⟨rfl, rfl, rfl, rfl, rfl, rfl, rfl, fun hedit => ?_, fun hinvalid => ?_⟩
      · exact Row.column_final false (by decide) (fun _ => rfl) hedit
      · rw [hvalid] at hinvalid
        cases hinvalid
  · exact ⟨rfl, .refl (t := .events) event⟩

theorem Transaction.later (lawful : sight.Lawful) (hhistory : History app sight L)
    (h : Transaction app sight L ws) {t : Table} {row : Row t} (hrow : row ∈ L.db t) :
    ∃ later ∈ (L.commit ws).db t, later.id = row.id ∧ row.Later later := by
  by_cases ht : t = .events
  · subst ht
    obtain ⟨model, payload, id, hcreates⟩ | hrejects | ⟨model, payload, existing, hedits⟩ | hsame :=
      h.events
    · obtain ⟨new, -, hrows, -⟩ := hcreates.rows (L := L)
      rw [hrows]
      exact ⟨row, List.mem_append_left _ hrow, rfl, .refl row⟩
    · obtain ⟨new, -, hrows, -⟩ := hrejects.rows (L := L)
      rw [hrows]
      exact ⟨row, List.mem_append_left _ hrow, rfl, .refl row⟩
    · exact hedits.later lawful hhistory hrow
    · rw [hsame]
      exact ⟨row, hrow, rfl, .refl row⟩
  · exact Db.exists_later ht (fun _ _ hw => h.raises hw) hrow

/-- **Rows move forward along a history.** -/
theorem History.later (lawful : sight.Lawful) {L₀ : Ledger Db Write} (hextends : Extends L₀ L)
    (h : History app sight L) {t : Table} {row : Row t} (hrow : row ∈ L₀.db t) :
    ∃ later ∈ L.db t, later.id = row.id ∧ row.Later later := by
  refine h.since hextends (fun L => ∃ later ∈ L.db t, later.id = row.id ∧ row.Later later)
    (fun _ => ⟨row, hrow, rfl, .refl row⟩) ?_
  rintro L ws hhistory htransaction - ⟨middle, hmiddle, hid, hlater⟩
  obtain ⟨later, hmem, hid', hlater'⟩ := htransaction.later lawful hhistory hmiddle
  exact ⟨later, hmem, hid'.trans hid, hlater.trans hlater'⟩

/-- A table that is never updated only grows. -/
theorem Db.prefix_of_untouched {t : Table} (hmerge : ∀ loaded new current : Row t,
    Row.merge loaded new current = current) (ws : List Write) (db : Db) :
    db t <+: ws.foldl Db.apply db t := by
  induction ws generalizing db with
  | nil => exact List.prefix_refl _
  | cons w ws ih =>
      refine List.IsPrefix.trans ?_ (ih (db.apply w))
      by_cases htable : w.table = t
      · cases w with
        | insert t' row =>
            obtain rfl : t' = t := htable
            rw [Db.apply_insert_self]
            exact List.prefix_append ..
        | update t' loaded new =>
            obtain rfl : t' = t := htable
            rw [Db.apply_update_self, Db.updated]
            have hsame : (db t').map (fun row => if row.id = loaded.id then Row.merge loaded new row
                else row) = db t' := by
              simp only [hmerge, ite_self, List.map_id']
            exact ⟨[], by rw [List.append_nil, hsame]⟩
      · exact ⟨[], by rw [List.append_nil, Db.apply_of_ne _ htable]⟩

theorem Extends.grows {L₀ : Ledger Db Write} (h : Extends L₀ L) {t : Table}
    (hmerge : ∀ loaded new current : Row t, Row.merge loaded new current = current) :
    L₀.db t <+: L.db t := by
  induction h with
  | refl => exact List.prefix_refl _
  | tail _ hlast ih =>
      obtain ⟨ws, rfl⟩ := hlast
      exact ih.trans (Db.prefix_of_untouched hmerge ws _)

/-- The ledger only grows. -/
theorem Txn.Step.extends {ι X Q α : Type} {A : Type} {service : Service ι Db Write X Q A α}
    {config config' : Config ι Db Write X Q A α} (h : Step service config config') :
    Extends config.ledger config'.ledger := by
  cases h with
  | move _ hmove =>
      cases hmove with
      | commit => exact .commit _ _
      | _ => exact .refl
  | _ => exact .refl

end DemandSignal
