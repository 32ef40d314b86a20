import DemandSignal.Spec.Reconciliation

/-!
# Links

An event is linked by resolution or by a reviewer. Both read the event's link and then insert one, or
update the columns of the one they have read that differ.
-/

namespace DemandSignal

open Txn

variable {app : App} {sight : Sight} {L L₀ : Ledger Db Write} {ws : List Write}

/-- What a transaction does to the links. -/
theorem Transaction.links_cases (h : Transaction app sight L ws) :
    (∃ event identityId, Resolve.Links app sight L event identityId ws) ∨
      (∃ decision review identityId, Resolve.Resolves sight L decision review identityId ws) ∨
      ∀ w ∈ ws, w.table ≠ .identityLinks := by
  cases h with
  | links h => exact .inl ⟨_, _, h⟩
  | resolves h => exact .inr (.inl ⟨_, _, _, h⟩)
  | creates h => exact .inr (.inr (h.tables.ne (by decide)))
  | edits h => exact .inr (.inr (h.tables.ne (by decide)))
  | rejects h => exact .inr (.inr (h.tables.ne (by decide)))
  | parks h => exact .inr (.inr (h.tables.ne (by decide)))
  | interprets h => exact .inr (.inr (h.tables.ne (by decide)))
  | scores h => exact .inr (.inr (h.tables.ne (by decide)))
  | acts h => exact .inr (.inr (h.tables.ne (by decide)))
  | deadLetters h => exact .inr (.inr (h.tables.ne (by decide)))
  | revives h => exact .inr (.inr (h.tables.ne (by decide)))
  | escalates h => exact .inr (.inr (h.tables.ne (by decide)))

/-! ### Identities -/

/-- An identity never changes. -/
theorem identity_of_kept {identity identity' : Identity}
    (h : Row.Kept (t := .identities) identity identity') : identity' = identity :=
  Row.Kept.static (t := .identities) (β := Identity) (fun _ _ _ => rfl : Row.Static id) h

theorem Extends.identity_mem (h : Extends L₀ L) {identity : Identity}
    (hidentity : identity ∈ L₀.db .identities) : identity ∈ L.db .identities := by
  obtain ⟨current, hcurrent, hkept⟩ := h.exists_kept hidentity
  rwa [identity_of_kept hkept] at hcurrent

theorem receipt_mem_commit {receipt : Receipt} (h : .insert .receipts receipt ∈ ws) :
    receipt ∈ (L.commit ws).db .receipts := by
  change receipt ∈ ws.foldl Db.apply L.db .receipts
  rw [Db.receipts_foldl]
  exact List.mem_append_right _ (mem_inserted.mpr h)

/-! ### Where a link comes from -/

/-- The transaction gives the link its identity and its rule. -/
def Attaches (ws : List Write) (link : IdentityLink) : Prop :=
  (∃ row : IdentityLink, .insert .identityLinks row ∈ ws ∧ row.eventId = link.eventId ∧
      row.identityId = link.identityId ∧ row.matchRule = link.matchRule) ∨
    ∃ loaded new : IdentityLink, .update .identityLinks loaded new ∈ ws ∧
      loaded.eventId = link.eventId ∧ new.identityId = link.identityId ∧
      new.matchRule = link.matchRule

instance (ws : List Write) (link : IdentityLink) : Decidable (Attaches ws link) :=
  decidable_of_iff ((∃ row ∈ inserted .identityLinks ws, IdentityLink.eventId row = link.eventId ∧
      IdentityLink.identityId row = link.identityId ∧
      IdentityLink.matchRule row = link.matchRule) ∨
    ∃ p ∈ updates .identityLinks ws, IdentityLink.eventId p.1 = link.eventId ∧
      IdentityLink.identityId p.2 = link.identityId ∧
      IdentityLink.matchRule p.2 = link.matchRule)
    ⟨fun h => h.imp (fun ⟨row, hrow, hattach⟩ => ⟨row, mem_inserted.mp hrow, hattach⟩)
        fun ⟨(loaded, new), hmem, hattach⟩ => ⟨loaded, new, mem_updates.mp hmem, hattach⟩,
      fun h => h.imp (fun ⟨row, hrow, hattach⟩ => ⟨row, mem_inserted.mpr hrow, hattach⟩)
        fun ⟨loaded, new, hmem, hattach⟩ => ⟨(loaded, new), mem_updates.mpr hmem, hattach⟩⟩

/-- A link that a transaction updates still has, in the columns the update leaves out, what the
transaction has read. -/
def LinksCurrent (db : Db) (ws : List Write) : Prop :=
  ∀ loaded new, .update .identityLinks loaded new ∈ ws →
    ∀ current ∈ db .identityLinks, IdentityLink.id current = IdentityLink.id loaded →
      (IdentityLink.identityId new = IdentityLink.identityId loaded →
        IdentityLink.identityId current = IdentityLink.identityId loaded) ∧
      (IdentityLink.matchRule new = IdentityLink.matchRule loaded →
        IdentityLink.matchRule current = IdentityLink.matchRule loaded)

instance (db : Db) (ws : List Write) : Decidable (LinksCurrent db ws) :=
  decidable_of_iff (∀ p ∈ updates .identityLinks ws, ∀ current ∈ db .identityLinks,
      IdentityLink.id current = IdentityLink.id p.1 →
      (IdentityLink.identityId p.2 = IdentityLink.identityId p.1 →
        IdentityLink.identityId current = IdentityLink.identityId p.1) ∧
      (IdentityLink.matchRule p.2 = IdentityLink.matchRule p.1 →
        IdentityLink.matchRule current = IdentityLink.matchRule p.1))
    ⟨fun h loaded new hmem => h (loaded, new) (mem_updates.mpr hmem),
      fun h p hp => h p.1 p.2 (mem_updates.mp hp)⟩

/-- The link of an event, turned. -/
def Resolve.turn (link : IdentityLink) (identityId : Uuid) (matchRule : MatchRule) : IdentityLink :=
  { link with identityId, matchConfidence := certain, matchRule }

/-- After a transaction that links an event, a link is an old one, the new one, or the one of the event
as the `UPDATE` has left it. -/
theorem Resolve.LinksEvent.cases_commit (lawful : sight.Lawful) {eventId identityId : Uuid}
    {matchRule : MatchRule} (h : Resolve.LinksEvent sight L ws eventId identityId matchRule)
    (hdistinct : L.db.Distinct) {link : IdentityLink} (hlink : link ∈ (L.commit ws).db .identityLinks) :
    link ∈ L.db .identityLinks ∨
      (.insert .identityLinks link ∈ ws ∧ link.eventId = eventId ∧ link.identityId = identityId ∧
        link.matchRule = matchRule) ∨
      ∃ loaded current : IdentityLink,
        .update .identityLinks loaded (turn loaded identityId matchRule) ∈ ws ∧
          current ∈ L.db .identityLinks ∧ current.id = loaded.id ∧ loaded.eventId = eventId ∧
          current.eventId = eventId ∧
          link = Row.merge (t := .identityLinks) loaded (turn loaded identityId matchRule) current := by
  obtain ⟨upsert, now, hby, hwrites⟩ := h
  have hmem : ∀ w ∈ upsert.writes now, w ∈ ws := by
    intro w hw
    rw [← hwrites] at hw
    exact List.mem_of_mem_filter hw
  rw [commit_rows, hwrites] at hlink
  cases upsert with
  | created row =>
      rw [Upsert.writes_created, List.foldl_cons, List.foldl_nil, Db.apply_insert_self,
        List.mem_append, List.mem_singleton] at hlink
      rw [Upsert.writes_created] at hmem
      rcases hlink with hlink | rfl
      · exact .inl hlink
      · refine .inr (.inl ⟨hmem _ (List.mem_singleton_self _), ?_⟩)
        rw [hby.2]
        exact ⟨rfl, rfl, rfl⟩
  | updated loaded new =>
      rw [Upsert.writes_updated] at hlink hmem
      by_cases hnew : new = loaded
      · rw [saved_self hnew] at hlink
        exact .inl hlink
      · rw [saved_of_ne hnew] at hlink hmem
        rw [List.foldl_cons, List.foldl_nil, Db.apply_update_self, Db.mem_updated] at hlink
        obtain ⟨current, hold, rfl⟩ := hlink
        by_cases hid : Row.id current = Row.id loaded
        · obtain ⟨hseen, heventId, rfl⟩ := hby
          obtain ⟨kept, hkeptMem, hkept⟩ := lawful.kept hseen
          have hstatic : Row.Static (t := .identityLinks) IdentityLink.eventId := fun _ _ _ => rfl
          have heq : kept = current := hdistinct.eq_of_id hkeptMem hold
            ((hkept.static (Row.static_id .identityLinks)).trans hid.symm)
          have hcurrentEvent : IdentityLink.eventId current = eventId := by
            rw [← heq, hkept.static hstatic, heventId]
          rw [if_pos hid]
          exact .inr (.inr ⟨loaded, current, hmem _ (List.mem_singleton_self _), hold, hid, heventId,
            hcurrentEvent, rfl⟩)
        · rw [if_neg hid]
          exact .inl hold

/-- After a transaction that links an event, a link is an old one or the transaction's own. -/
theorem Resolve.LinksEvent.mem_commit (lawful : sight.Lawful) {eventId identityId : Uuid}
    {matchRule : MatchRule} (h : Resolve.LinksEvent sight L ws eventId identityId matchRule)
    (hdistinct : L.db.Distinct) (hcurrent : LinksCurrent L.db ws) {link : IdentityLink}
    (hlink : link ∈ (L.commit ws).db .identityLinks) :
    link ∈ L.db .identityLinks ∨ (Attaches ws link ∧ link.eventId = eventId ∧
      link.identityId = identityId ∧ link.matchRule = matchRule) := by
  obtain hold | ⟨hinsert, heventId, hidentity, hrule⟩ |
    ⟨loaded, current, hupdate, hold, hid, hloaded, heventId, rfl⟩ :=
      h.cases_commit lawful hdistinct hlink
  · exact .inl hold
  · exact .inr ⟨.inl ⟨link, hinsert, rfl, rfl, rfl⟩, heventId, hidentity, hrule⟩
  · obtain ⟨hidentity, hrule⟩ := hcurrent loaded _ hupdate current hold hid
    have hidentity' := (show Undisturbed (t := .identityLinks) IdentityLink.identityId _ _ _ from
      hidentity).column
    have hrule' := (show Undisturbed (t := .identityLinks) IdentityLink.matchRule _ _ _ from
      hrule).column
    refine .inr ⟨.inr ⟨loaded, _, hupdate, ?_, hidentity'.symm, hrule'.symm⟩, heventId, hidentity',
      hrule'⟩
    exact hloaded.trans heventId.symm

end DemandSignal
