import DemandSignal.Spec.Links

/-!
# Receipts of a transaction

Whether each row that a transaction inserts or changes is named by a receipt of the same transaction.
-/

namespace DemandSignal

open Txn

variable {app : App} {sight : Sight} {L : Ledger Db Write} {ws : List Write}

/-- The receipt names the row by its id, or a link by its event and its identity. -/
def Receipt.Names (receipt : Receipt) : {t : Table} → Row t → Prop
  | .identityLinks, (link : IdentityLink) =>
      receipt.eventId = some link.eventId ∧ receipt.identityId = some link.identityId
  | _, row => receipt.entityId = row.id

/-- Every row that the writes insert or change is named by one of their receipts. -/
def Receipted (db : Db) (ws : List Write) : Prop :=
  ∀ t : Table, t ≠ .receipts → ∀ row ∈ ws.foldl Db.apply db t, row ∉ db t →
    ∃ receipt ∈ inserted .receipts ws, Receipt.Names receipt row

/-- Only a review attaches an event to an identity that was there before, an `UPDATE` of a review decides
it, and an `UPDATE` of a link that leaves its identity out finds it as it was read. -/
structure Announced (db : Db) (ws : List Write) : Prop where
  minted : ∀ link, .insert .identityLinks link ∈ ws →
    IdentityLink.matchRule link ≠ .manualReviewResolve → ¬ db.Has .identities link.identityId
  turned : ∀ loaded new, .update .identityLinks loaded new ∈ ws →
    IdentityLink.matchRule new ≠ .manualReviewResolve → ¬ db.Has .identities new.identityId
  decided : ∀ loaded new, .update .manualReviewQueue loaded new ∈ ws →
    ManualReviewQueue.status new ≠ ManualReviewQueue.status loaded
  current : ∀ loaded new, .update .identityLinks loaded new ∈ ws →
    ∀ current ∈ db .identityLinks, IdentityLink.id current = IdentityLink.id loaded →
      Undisturbed (t := .identityLinks) IdentityLink.identityId loaded new current

instance (db : Db) (t : Table) (u : Uuid) : Decidable (db.Has t u) :=
  inferInstanceAs (Decidable (∃ row ∈ db t, row.id = u))

instance (db : Db) (ws : List Write) : Decidable (Announced db ws) :=
  decidable_of_iff
    ((∀ link ∈ inserted .identityLinks ws, IdentityLink.matchRule link ≠ .manualReviewResolve →
        ¬ db.Has .identities link.identityId) ∧
      (∀ p ∈ updates .identityLinks ws, IdentityLink.matchRule p.2 ≠ .manualReviewResolve →
        ¬ db.Has .identities (IdentityLink.identityId p.2)) ∧
      (∀ p ∈ updates .manualReviewQueue ws,
        ManualReviewQueue.status p.2 ≠ ManualReviewQueue.status p.1) ∧
      ∀ p ∈ updates .identityLinks ws, ∀ current ∈ db .identityLinks,
        IdentityLink.id current = IdentityLink.id p.1 →
          IdentityLink.identityId p.2 = IdentityLink.identityId p.1 →
            IdentityLink.identityId current = IdentityLink.identityId p.1)
    ⟨fun ⟨hminted, hturned, hdecided, hcurrent⟩ =>
        ⟨fun link hlink => hminted link (mem_inserted.mpr hlink),
          fun loaded new hmem => hturned (loaded, new) (mem_updates.mpr hmem),
          fun loaded new hmem => hdecided (loaded, new) (mem_updates.mpr hmem),
          fun loaded new hmem => hcurrent (loaded, new) (mem_updates.mpr hmem)⟩,
      fun h => ⟨fun link hlink => h.minted link (mem_inserted.mp hlink),
        fun p hp => h.turned p.1 p.2 (mem_updates.mp hp),
        fun p hp => h.decided p.1 p.2 (mem_updates.mp hp),
        fun p hp => h.current p.1 p.2 (mem_updates.mp hp)⟩⟩

/-! ### Rows named by their ids -/

/-- Each write is of a receipt or of a link, or a receipt has the id of its row. -/
def Itemized (ws : List Write) : Prop :=
  ∀ w ∈ ws, w.table ≠ .receipts → w.table ≠ .identityLinks →
    ∃ receipt ∈ inserted .receipts ws, Receipt.entityId receipt = w.rowId

/-- A row that is new or changed is one of those that were written. -/
theorem exists_write {db : Db} {t : Table} {row : Row t} (h : row ∈ ws.foldl Db.apply db t)
    (hnew : row ∉ db t) : ∃ w ∈ ws, w.table = t ∧ w.rowId = row.id := by
  by_contra hnone
  push Not at hnone
  exact hnew (Db.mem_of_mem_foldl_apply h hnone)

theorem Itemized.receipted {db : Db} (h : Itemized ws)
    (hlinks : ∀ link ∈ ws.foldl Db.apply db .identityLinks, link ∉ db .identityLinks →
      ∃ receipt ∈ inserted .receipts ws, Receipt.eventId receipt = some (IdentityLink.eventId link) ∧
        Receipt.identityId receipt = some (IdentityLink.identityId link)) : Receipted db ws := by
  intro t ht row hrow hnew
  by_cases hlink : t = .identityLinks
  · subst hlink
    exact hlinks row hrow hnew
  · obtain ⟨w, hw, htable, hid⟩ := exists_write hrow hnew
    obtain ⟨receipt, hreceipt, hentity⟩ := h w hw (htable ▸ ht) (htable ▸ hlink)
    refine ⟨receipt, hreceipt, ?_⟩
    have hentity' := hentity.trans hid
    cases t <;> first | exact absurd rfl hlink | exact hentity'

theorem Itemized.receipted_of_names {ts : List Table} (h : Itemized ws) (hnames : Names ws ts)
    (hts : .identityLinks ∉ ts) : Receipted L.db ws := by
  refine h.receipted fun link hlink hnew => absurd ?_ hnew
  rwa [Db.foldl_apply_of_untouched (hnames.ne hts)] at hlink

theorem rowId_of_mem_saved {t : Table} {loaded new : Row t} {now : Time} {w : Write}
    (h : w ∈ saved t loaded new now) : w.rowId = loaded.id := by
  rw [(table_of_mem_saved h).1]
  rfl

/-- An upsert writes the row that it ends with. -/
theorem Upsert.rowId_of_mem_writes {t : Table} {u : Upsert t} {now : Time} {w : Write}
    (h : w ∈ u.writes now) : w.rowId = u.loaded.id := by
  obtain ⟨row, rfl, rfl⟩ | ⟨loaded, new, rfl, -, rfl⟩ := Upsert.mem_writes h <;> rfl

theorem Upsert.rowId_of_mem_inserts {t : Table} {u : Upsert t} {w : Write} (h : w ∈ u.inserts) :
    w.rowId = u.loaded.id := by
  cases u with
  | created row =>
      rw [List.mem_singleton.mp h]
      rfl
  | updated loaded new => cases h

theorem Itemized.append {ws' : List Write} (h : Itemized ws) (h' : Itemized ws') :
    Itemized (ws ++ ws') := by
  intro w hw hreceipts hlinks
  rw [inserted_append]
  rcases List.mem_append.mp hw with hw | hw
  · obtain ⟨receipt, hreceipt, hid⟩ := h w hw hreceipts hlinks
    exact ⟨receipt, List.mem_append_left _ hreceipt, hid⟩
  · obtain ⟨receipt, hreceipt, hid⟩ := h' w hw hreceipts hlinks
    exact ⟨receipt, List.mem_append_right _ hreceipt, hid⟩

/-- Writes of one row, and its receipt. -/
theorem itemized_snoc {receipt : Receipt} (h : ∀ w ∈ ws, w.rowId = Receipt.entityId receipt) :
    Itemized (ws ++ [.insert .receipts receipt]) := by
  intro w hw hreceipts _
  rw [inserted_append]
  rcases List.mem_append.mp hw with hw | hw
  · exact ⟨receipt, List.mem_append_right _ (List.mem_singleton_self _), (h w hw).symm⟩
  · rw [List.mem_singleton.mp hw] at hreceipts
    exact absurd rfl hreceipts

theorem itemized_of_links (h : Names ws [.identityLinks]) : Itemized ws := by
  intro w hw _ hlinks
  exact absurd (List.mem_singleton.mp (h w hw)) hlinks

theorem Ingest.Creates.itemized {model : EventIn} {payload : Json.Fields} {id : Uuid}
    (h : Ingest.Creates app model payload id ws) : Itemized ws := by
  obtain ⟨-, -⟩ := h
  change Itemized ([_] ++ [_])
  apply itemized_snoc
  rintro w (_ | ⟨_, ⟨⟩⟩)
  rfl

theorem Ingest.Edits.itemized {model : EventIn} {payload : Json.Fields} {existing : Event}
    (h : Ingest.Edits app sight L model payload existing ws) : Itemized ws := by
  obtain ⟨-, -, -, -, -⟩ := h
  exact itemized_snoc fun w hw => rowId_of_mem_saved hw

theorem Ingest.Rejects.itemized (h : Ingest.Rejects app ws) : Itemized ws := by
  obtain @⟨_, _, _, row, id, _, now, hrow⟩ := h
  obtain ⟨hid, -⟩ := Ingest.rejectedEvent_spec hrow id now
  change Itemized ([_] ++ [_])
  apply itemized_snoc
  rintro w (_ | ⟨_, ⟨⟩⟩)
  exact hid

theorem Resolve.Links.itemized {event : Event} {identityId : Uuid}
    (h : Resolve.Links app sight L event identityId ws) : Itemized ws := by
  cases h with
  | @found identity matchRule link now hevent hunlinked hidentity hfinds hlink =>
      exact itemized_of_links (link.names_writes now (List.mem_singleton_self _))
  | @minted identity _ link now _ rid hevent hunlinked hmisses hmints hlink =>
      change Itemized ([_, _] ++ _)
      apply Itemized.append _
        (itemized_of_links (link.names_writes now (List.mem_singleton_self _)))
      change Itemized ([_] ++ [_])
      apply itemized_snoc
      rintro w (_ | ⟨_, ⟨⟩⟩)
      exact (Resolve.Rule.mints_spec hmints).1

theorem Resolve.Resolves.itemized {decision : String} {review : ManualReviewQueue} {identityId : Uuid}
    (h : Resolve.Resolves sight L decision review identityId ws) : Itemized ws := by
  cases h with
  | @merged resolvedAt target link rid now hpending hdecision htarget hlink =>
      intro w hw hreceipts hlinks
      simp only [List.mem_cons, List.mem_append, List.not_mem_nil, or_false] at hw
      rcases hw with rfl | hw | rfl
      · refine ⟨_, mem_inserted.mpr (List.mem_cons_of_mem _
          (List.mem_append_right _ (List.mem_singleton_self _))), rfl⟩
      · exact absurd (Upsert.table_of_mem_writes hw) hlinks
      · exact absurd rfl hreceipts
  | @created resolvedAt identity _ rid link rid' now hpending hdecision hid hnow hkeys hlink =>
      intro w hw hreceipts hlinks
      simp only [List.mem_cons, List.mem_append, List.not_mem_nil, or_false] at hw
      rcases hw with rfl | rfl | rfl | hw | rfl
      · refine ⟨_, mem_inserted.mpr (List.mem_cons_of_mem _ (List.mem_cons_of_mem _
          (List.mem_cons_of_mem _ (List.mem_append_right _ (List.mem_singleton_self _))))), rfl⟩
      · refine ⟨_, mem_inserted.mpr (List.mem_cons_of_mem _ (List.mem_cons_of_mem _
          (List.mem_cons_self ..))), hid.symm⟩
      · exact absurd rfl hreceipts
      · exact absurd (Upsert.table_of_mem_writes hw) hlinks
      · exact absurd rfl hreceipts

theorem Interpret.Interprets.itemized {event : Event} {fields : Interpret.Classified}
    {interpretation : Interpretation}
    (h : Interpret.Interprets sight L event fields interpretation ws) : Itemized ws := by
  obtain @⟨upsert, rid, now, -, -, hrow⟩ := h
  have hkept : Interpretation.id upsert.row = Interpretation.id upsert.loaded :=
    hrow.kept fun _ => rfl
  exact itemized_snoc fun w hw => (Upsert.rowId_of_mem_writes hw).trans hkept.symm

theorem Interpret.DeadLetters.itemized {event : Event} (h : Interpret.DeadLetters sight L event ws) :
    Itemized ws := by
  obtain ⟨-, -, -, -⟩ := h
  change Itemized ([_] ++ [_])
  apply itemized_snoc
  rintro w (_ | ⟨_, ⟨⟩⟩)
  rfl

theorem Interpret.Revives.itemized {eventId identityId : Uuid}
    (h : Interpret.Revives sight L eventId identityId ws) : Itemized ws := by
  obtain ⟨-, -, -⟩ := h
  exact itemized_snoc fun w hw => rowId_of_mem_saved hw

theorem Escalation.Escalates.itemized (h : Escalation.Escalates sight L ws) : Itemized ws := by
  induction h with
  | nil => exact fun w hw => absurd hw List.not_mem_nil
  | snoc _ _ _ _ ih =>
      apply ih.append
      change Itemized ([_] ++ [_])
      apply itemized_snoc
      rintro w (_ | ⟨_, ⟨⟩⟩)
      rfl

/-- The score that is read back is the one that was written. -/
theorem Scoring.ScoresBy.id_eq (lawful : sight.Lawful) {eventId : Uuid} {columns : Scoring.Columns}
    {now : Time} {upsert : Upsert .scores} (h : Scoring.ScoresBy sight L eventId columns now upsert)
    {row : Score} (heventId : row.eventId = eventId)
    (hread : sight (fun db => row ∈ (Scoring.upsertWrites upsert).foldl Db.apply db .scores) L)
    (hdistinct : L.db.Distinct) (happ : Applicable ws L.db) (hws : Scoring.upsertWrites upsert ⊆ ws) :
    row.id = Row.id upsert.loaded := by
  have hstatic : Row.Static (t := .scores) Score.eventId := fun _ _ _ => rfl
  have hindexed : ∀ score : Score, score.eventId = eventId →
      Key.scoreEvent eventId ∈ Row.indexed (t := .scores) score := by
    rintro score rfl
    exact List.mem_singleton_self _
  obtain ⟨L₀, hextends, hrow⟩ := lawful.since _ _ hread
  obtain ⟨row₀, hrow₀, hkept⟩ := Db.mem_foldl_apply hrow
  have hid₀ : row.id = Row.id row₀ := hkept.static (Row.static_id .scores)
  have heventId₀ : Score.eventId row₀ = eventId := (hkept.static hstatic).symm.trans heventId
  rw [hid₀]
  cases upsert with
  | created new =>
      rcases hrow₀ with hrow₀ | hrow₀
      · obtain ⟨row₁, hrow₁, hkept₁⟩ := hextends.exists_kept hrow₀
        have hnew : Score.eventId new = eventId := by
          rw [h.2]
          rfl
        have hfree := happ.free .scores new (hws (List.mem_singleton_self _)) _ (hindexed new hnew)
        rw [Db.holds_eq_false] at hfree
        have heventId₁ := (hkept₁.static hstatic).trans heventId₀
        exact absurd (List.mem_cons_of_mem _ (hindexed row₁ heventId₁)) (hfree row₁ hrow₁)
      · obtain rfl : row₀ = new := by simpa [Scoring.upsertWrites] using hrow₀
        rfl
  | updated loaded new =>
      have hold : row₀ ∈ L₀.db .scores := by simpa [Scoring.upsertWrites] using hrow₀
      obtain ⟨row₁, hrow₁, hkept₁⟩ := hextends.exists_kept hold
      obtain ⟨row₂, hrow₂, hkept₂⟩ := lawful.kept h.1
      have heventId₁ := (hkept₁.static hstatic).trans heventId₀
      have heventId₂ := (hkept₂.static hstatic).trans h.2.1
      have hsame : row₁ = row₂ := hdistinct.eq_of_indexed (t := .scores) hrow₁ hrow₂
        (hindexed row₁ heventId₁) (hindexed row₂ heventId₂)
      calc Row.id row₀ = Row.id row₁ := (hkept₁.static (Row.static_id .scores)).symm
        _ = Row.id row₂ := congrArg Row.id hsame
        _ = Row.id loaded := hkept₂.static (Row.static_id .scores)

theorem Scoring.Scores.itemized (lawful : sight.Lawful) {event : Event} {identityId : Uuid}
    {interpretation : Interpretation} {score : Score}
    (h : Scoring.Scores app sight L event identityId interpretation score ws)
    (hdistinct : L.db.Distinct) (happ : Applicable ws L.db) : Itemized ws := by
  obtain @⟨_, _, _, row, upsert, rid, now, -, -, -, hrow, heventId, hread⟩ := h
  have hid := hrow.id_eq lawful heventId hread hdistinct happ (List.subset_append_left ..)
  apply itemized_snoc
  intro w hw
  rw [show Receipt.entityId _ = Row.id upsert.loaded from hid]
  cases upsert with
  | created new =>
      rw [List.mem_singleton.mp hw]
      rfl
  | updated loaded new =>
      rw [List.mem_singleton.mp hw]
      rfl

theorem Act.Acts.itemized {event : Event} {identityId : Uuid} {score : Option Score}
    (h : Act.Acts app sight L event identityId score ws) : Itemized ws := by
  obtain @⟨lead, route, touch, leadRid, routeRid, touchRid, now, assignedAt, updatedAt, h⟩ := h
  have hlead : Lead.id lead.row = Row.id lead.loaded := h.led.kept fun _ => rfl
  have hroute : Route.id route.row = Row.id route.loaded :=
    h.routed.kept fun _ => rfl
  have htouch : AttributionTouch.id touch.row = Row.id touch.loaded :=
    h.touched.kept fun row => by
      split <;> simp only [Attribute.editTouch, Attribute.extendTouch] <;> split <;> split <;> rfl
  intro w hw hreceipts _
  have hmem : ∀ receipt, .insert .receipts receipt ∈
      Act.writes event identityId (Act.decisionOf score) lead route touch leadRid routeRid touchRid
        now → Receipt.entityId receipt = w.rowId →
      ∃ receipt ∈ inserted .receipts (Act.writes event identityId (Act.decisionOf score) lead route
        touch leadRid routeRid touchRid now), Receipt.entityId receipt = w.rowId :=
    fun receipt hreceipt hid => ⟨receipt, mem_inserted.mpr hreceipt, hid⟩
  have hleads : w.rowId = Row.id lead.loaded → _ := fun hid =>
    hmem _ (List.mem_append_right _ (List.mem_cons_self ..)) (hlead.trans hid.symm)
  have hroutes : w.rowId = Row.id route.loaded → _ := fun hid =>
    hmem _ (List.mem_append_right _ (List.mem_cons_of_mem _ (List.mem_cons_self ..)))
      (hroute.trans hid.symm)
  have htouches : w.rowId = Row.id touch.loaded → _ := fun hid =>
    hmem _ (List.mem_append_right _ (List.mem_cons_of_mem _ (List.mem_cons_of_mem _
      (List.mem_cons_self ..)))) (htouch.trans hid.symm)
  simp only [Act.writes, List.mem_append, List.mem_cons, List.not_mem_nil, or_false] at hw
  rcases hw with ((((((hw | hw) | hw) | hw) | hw) | hw) | hw) | rfl | rfl | rfl
  · exact hleads (Upsert.rowId_of_mem_inserts hw)
  · exact hleads (rowId_of_mem_saved hw)
  · exact hroutes (Upsert.rowId_of_mem_inserts hw)
  · exact hleads ((rowId_of_mem_saved hw).trans hlead)
  · exact hroutes (rowId_of_mem_saved hw)
  · exact htouches (Upsert.rowId_of_mem_inserts hw)
  · exact htouches (rowId_of_mem_saved hw)
  · exact absurd rfl hreceipts
  · exact absurd rfl hreceipts
  · exact absurd rfl hreceipts

/-! ### Announced transactions -/

/-- A review row that is only brought up to date has no receipt. -/
theorem Resolve.Parks.itemized {event : Event} (h : Resolve.Parks app sight L event ws)
    (hannounced : Announced L.db ws) : Itemized ws := by
  obtain @⟨candidateIdentityId, reason, entry, now, rid, -, -, -, hentry⟩ := h
  cases entry with
  | created row =>
      apply itemized_snoc
      intro w hw
      exact Upsert.rowId_of_mem_writes hw
  | updated loaded new =>
      obtain ⟨-, -, rfl⟩ := hentry
      simp only [Upsert.writes_updated, Resolve.queuedReceipt, List.append_nil] at hannounced ⊢
      intro w hw
      obtain ⟨rfl, -⟩ := table_of_mem_saved hw
      exact (hannounced.decided _ _ hw rfl).elim

/-- A link that an announced transaction inserts or turns is the one of the event and the identity. -/
theorem Resolve.LinksEvent.attached (lawful : sight.Lawful) {eventId identityId : Uuid}
    {matchRule : MatchRule} (h : Resolve.LinksEvent sight L ws eventId identityId matchRule)
    (hdistinct : L.db.Distinct) (hannounced : Announced L.db ws) {link : IdentityLink}
    (hlink : link ∈ (L.commit ws).db .identityLinks) (hnew : link ∉ L.db .identityLinks) :
    link.eventId = eventId ∧ link.identityId = identityId ∧
      (matchRule ≠ .manualReviewResolve → ¬ L.db.Has .identities identityId) := by
  obtain hold | ⟨hinsert, heventId, hidentity, hrule⟩ |
    ⟨loaded, current, hupdate, hold, hid, -, heventId, rfl⟩ := h.cases_commit lawful hdistinct hlink
  · exact absurd hold hnew
  · refine ⟨heventId, hidentity, fun hne => ?_⟩
    rw [← hidentity]
    apply hannounced.minted link hinsert
    rwa [hrule]
  · refine ⟨heventId, ?_, fun hne => hannounced.turned loaded _ hupdate hne⟩
    exact (show Undisturbed (t := .identityLinks) IdentityLink.identityId _ _ _ from
      hannounced.current loaded _ hupdate current hold hid).column

/-- An exact rule attaches an event to an identity that was there before without a receipt. -/
theorem Resolve.Links.receipted (lawful : sight.Lawful) {event : Event} {identityId : Uuid}
    (h : Resolve.Links app sight L event identityId ws) (hdistinct : L.db.Distinct)
    (hannounced : Announced L.db ws) : Receipted L.db ws := by
  refine h.itemized.receipted fun link hlink hnew => ?_
  cases h with
  | @found identity matchRule upsert now hevent hunlinked hidentity hfinds hlinks =>
      obtain ⟨-, -, hfresh⟩ := Resolve.LinksEvent.attached lawful
        ⟨upsert, now, hlinks, Upsert.filter_writes ..⟩ hdistinct hannounced hlink hnew
      obtain ⟨current, hcurrent, hkept⟩ := lawful.kept hidentity
      have hexact : matchRule ≠ .manualReviewResolve := by
        rintro rfl
        unfold Resolve.Rule.Finds at hfinds
        split at hfinds <;> simp at hfinds
      exact absurd ⟨current, hcurrent, hkept.static (Row.static_id .identities)⟩ (hfresh hexact)
  | @minted identity matchRule upsert now _ rid hevent hunlinked hmisses hmints hlinks =>
      obtain ⟨heventId, hidentityId, -⟩ := Resolve.LinksEvent.attached lawful
        (show Resolve.LinksEvent _ _ _ _ _ matchRule from ⟨upsert, now, hlinks, by
          rw [List.filter_cons_of_neg (by simp [Write.table]), List.filter_cons_of_neg
            (by simp [Write.table]), Upsert.filter_writes]⟩) hdistinct hannounced hlink hnew
      refine ⟨_, mem_inserted.mpr (List.mem_cons_of_mem _ (List.mem_cons_self ..)), ?_⟩
      exact ⟨congrArg some heventId.symm, congrArg some hidentityId.symm⟩

theorem Resolve.Resolves.receipted (lawful : sight.Lawful) {decision : String}
    {review : ManualReviewQueue} {identityId : Uuid}
    (h : Resolve.Resolves sight L decision review identityId ws) (hdistinct : L.db.Distinct)
    (hannounced : Announced L.db ws) : Receipted L.db ws := by
  refine h.itemized.receipted fun link hlink hnew => ?_
  obtain ⟨heventId, hidentityId, -⟩ := h.linksEvent.attached lawful hdistinct hannounced hlink hnew
  cases h with
  | merged =>
      refine ⟨_, mem_inserted.mpr (List.mem_cons_of_mem _
        (List.mem_append_right _ (List.mem_singleton_self _))), ?_⟩
      exact ⟨congrArg some heventId.symm, congrArg some hidentityId.symm⟩
  | created =>
      refine ⟨_, mem_inserted.mpr (List.mem_cons_of_mem _ (List.mem_cons_of_mem _
        (List.mem_cons_self ..))), ?_⟩
      exact ⟨congrArg some heventId.symm, congrArg some hidentityId.symm⟩

/-- Each row of an announced transaction is named by one of its receipts. -/
theorem Transaction.receipted (lawful : sight.Lawful) (h : Transaction app sight L ws)
    (hdistinct : L.db.Distinct) (happ : Applicable ws L.db) (hannounced : Announced L.db ws) :
    Receipted L.db ws := by
  cases h with
  | creates h => exact h.itemized.receipted_of_names h.tables (by decide)
  | edits h => exact h.itemized.receipted_of_names h.tables (by decide)
  | rejects h => exact h.itemized.receipted_of_names h.tables (by decide)
  | links h => exact h.receipted lawful hdistinct hannounced
  | parks h => exact (h.itemized hannounced).receipted_of_names h.tables (by decide)
  | resolves h => exact h.receipted lawful hdistinct hannounced
  | interprets h => exact h.itemized.receipted_of_names h.tables (by decide)
  | scores h =>
      exact (h.itemized lawful hdistinct happ).receipted_of_names h.tables (by decide)
  | acts h => exact h.itemized.receipted_of_names h.tables (by decide)
  | deadLetters h => exact h.itemized.receipted_of_names h.tables (by decide)
  | revives h => exact h.itemized.receipted_of_names h.tables (by decide)
  | escalates h => exact h.itemized.receipted_of_names h.tables (by decide)

/-- A transaction of the log, where it was committed. -/
theorem History.of_mem_log (h : History app sight L) {commit : Commit Db Write}
    (hcommit : commit ∈ L.log) : ∃ L₀ ws, History app sight L₀ ∧ Transaction app sight L₀ ws ∧
      Applicable ws L₀.db ∧ commit = ⟨L₀.db, ws⟩ := by
  induction h with
  | empty => exact absurd hcommit List.not_mem_nil
  | @commit L ws h htransaction happ ih =>
      rcases List.mem_append.mp hcommit with hcommit | hcommit
      · exact ih hcommit
      · exact ⟨L, ws, h, htransaction, happ, List.mem_singleton.mp hcommit⟩

end DemandSignal
