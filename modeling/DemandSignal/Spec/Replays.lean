import DemandSignal.Spec.Candidates
import DemandSignal.Spec.Identities
import DemandSignal.Spec.Routes

/-!
# Payloads that come again

What an accepted payload leaves behind makes it harmless later: its event stays linked, or the rules
leave it to the reviewer again, since no identity loses the name that has made it a candidate.
-/

namespace DemandSignal

open Txn Resolve

variable {app : App} {L L' : Ledger Db Write} {ws : List Write} {heard : List Reply}
  {model : EventIn} {payload : Json.Fields} {event : Event} {identityId : Uuid}

/-! ### The rows of persons -/

/-- The tables with a row for each person. -/
def personTables : List Table := [.identities, .leads, .routes, .attributionTouches]

/-- No row of a person comes or goes. -/
def SamePersons (db db' : Db) : Prop :=
  ∀ t ∈ personTables, (db' t).map Row.id = (db t).map Row.id

theorem SamePersons.refl (db : Db) : SamePersons db db := fun _ _ => rfl

theorem SamePersons.trans {db db' db'' : Db} (h : SamePersons db db') (h' : SamePersons db' db'') :
    SamePersons db db'' := fun t ht => (h' t ht).trans (h t ht)

theorem samePersons_of_inserted (h : ∀ t ∈ personTables, inserted t ws = []) :
    SamePersons L.db (L.commit ws).db := by
  intro t ht
  change (ws.foldl Db.apply L.db t).map Row.id = _
  rw [Db.map_foldl_apply (Row.static_id t), h t ht, List.map_nil, List.append_nil]

theorem samePersons_of_names {ts : List Table} (hnames : Names ws ts)
    (h : ∀ t ∈ personTables, t ∉ ts) : SamePersons L.db (L.commit ws).db := by
  intro t ht
  rw [commit_of_untouched (hnames.ne (h t ht))]

/-- Acting on an event of somebody who has a lead inserts no row of a person. -/
theorem Act.Acts.samePersons {score : Option Score}
    (h : Act.Acts app still L event identityId score ws) (hhistory : History app still L)
    (hlead : L.db.HasLead identityId) : SamePersons L.db (L.commit ws).db := by
  obtain ⟨old, hold, hidentity⟩ := hlead
  obtain @⟨lead, route, touch, leadRid, routeRid, touchRid, now, assignedAt, updatedAt, h⟩ := h
  obtain ⟨held, hheld, hheldLead⟩ := List.mem_map.mp
    ((hhistory.leadsRouted lawful_still (Lead.id old)).mp (List.mem_map_of_mem hold))
  obtain ⟨touched, htouched, htouchedIdentity⟩ := List.mem_map.mp
    ((hhistory.matched lawful_still (Lead.identityId old)).mp (List.mem_map_of_mem hold))
  have hled := h.led
  have hroute := h.routed
  have htouch := h.touched
  cases lead with
  | created new => exact absurd hidentity (hled.1 old hold)
  | updated loaded new =>
      have hsame : Lead.id new = Lead.id old := by
        have hkey : Key.leadIdentity (Lead.identityId old) ∈ Row.indexed (t := .leads) loaded := by
          rw [hidentity, ← hled.2.1]
          exact List.mem_singleton_self _
        rw [hled.2.2, hhistory.distinct.eq_of_indexed (t := .leads) hold hled.1
          (List.mem_singleton_self _) hkey]
      cases route with
      | created row => exact absurd (hheldLead.trans hsame.symm) (hroute.1 held hheld)
      | updated =>
          cases touch with
          | created row =>
              exact absurd (htouchedIdentity.trans hidentity) (htouch.1 touched htouched)
          | updated =>
              refine samePersons_of_inserted ?_
              simp [personTables, Act.writes, inserted_cons_of_ne]

theorem Piped.samePersons {r : Except Error (Option Pipeline.Outcome)}
    (h : Piped app L event identityId heard r L') (hhistory : History app still L)
    (hlead : L.db.HasLead identityId) : SamePersons L.db L'.db := by
  cases h with
  | acted hfields hinterprets happ₁ hcurrent heventId hscores happ₂ hacts happ₃ =>
      have hhistory₂ := (hhistory.commit (.interprets hinterprets) happ₁).commit (.scores hscores) happ₂
      exact ((samePersons_of_names hinterprets.tables (by decide)).trans
        (samePersons_of_names hscores.tables (by decide))).trans
          (hacts.acts.samePersons hhistory₂
            ((Extends.commit _ _).hasLead ((Extends.commit _ _).hasLead hlead)))
  | dead herror hdead => exact samePersons_of_names hdead.tables (by decide)
  | alreadyDead => exact .refl _
  | noText => exact .refl _
  | unstorable => exact .refl _
  | badMessage => exact .refl _
  | noScore hfields hinterprets => exact samePersons_of_names hinterprets.tables (by decide)

theorem Accepted.samePersons {status : Ingest.IngestStatus}
    (h : Accepted app L model payload event status L') : SamePersons L.db L'.db := by
  cases h with
  | created hcreates => exact samePersons_of_names hcreates.tables (by decide)
  | edited hedits => exact samePersons_of_names hedits.tables (by decide)

/-! ### What an accepted payload leaves behind -/

theorem LeavesToReviewer.of_parks (h : Parks app still L event ws) :
    LeavesToReviewer app L.db (fieldsOf event) := by
  obtain ⟨-, -, hproposes, -⟩ := h
  unfold LeavesToReviewer
  cases hproposes with
  | nobody hrule =>
      rw [hrule]
      trivial
  | @candidate name identity hrule hcandidate =>
      have hcandidate : fuzzyCandidate app name (companyName (fieldsOf event)) (named L.db) =
        some identity := hcandidate
      rw [hrule]
      dsimp only
      rw [hcandidate]
      exact Option.some_ne_none identity

theorem Extends.named (h : Extends L L') {identity : Identity} (hnamed : identity ∈ named L.db) :
    identity ∈ Resolve.named L'.db := by
  obtain ⟨hidentity, hname⟩ := List.mem_filter.mp hnamed
  exact List.mem_filter.mpr ⟨h.identity_mem hidentity, hname⟩

/-- Somebody with a similar name stays so. -/
theorem LeavesToReviewer.extends {fields : IdentityFields} (h : LeavesToReviewer app L.db fields)
    (hextends : Extends L L') : LeavesToReviewer app L'.db fields := by
  unfold LeavesToReviewer at h ⊢
  split at h
  · exact h
  · exact h
  · intro hnone
    refine h ?_
    rw [fuzzyCandidate_eq_none] at hnone ⊢
    exact fun identity hidentity => hnone identity (hextends.named hidentity)
  · trivial

/-- The event of the payload is linked, or the rules leave the payload to the reviewer. -/
def SettledFor (app : App) (L : Ledger Db Write) (model : EventIn) : Prop :=
  ∃ event ∈ L.db .events, Ingest.Holds app model event ∧
    ((∃ identityId, Linked (Event.id event) identityId L.db) ∨
      LeavesToReviewer app L.db model.identity)

theorem Extends.linked (h : Extends L L') {eventId : Uuid} (hlinked : Linked eventId identityId L.db) :
    ∃ owner, Linked eventId owner L'.db := by
  obtain ⟨link, hlink, rfl, -⟩ := hlinked
  obtain ⟨current, hcurrent, hkept⟩ := h.exists_kept hlink
  have hstatic : Row.Static (t := .identityLinks) IdentityLink.eventId := fun _ _ _ => rfl
  exact ⟨_, current, hcurrent, hkept.static hstatic, rfl⟩

theorem SettledFor.extends (h : SettledFor app L model) (hextends : Extends L L') :
    SettledFor app L' model := by
  obtain ⟨event, hevent, hholds, hsettled⟩ := h
  obtain ⟨current, hcurrent, hkept⟩ := hextends.exists_kept hevent
  have hid : Event.id current = Event.id event := hkept.static (Row.static_id .events)
  have hvalid : Row.Static (t := .events) Event.isValid := fun _ _ _ => rfl
  have hdedupe : Row.Static (t := .events) Event.dedupeKey := fun _ _ _ => rfl
  refine ⟨current, hcurrent, ⟨(hkept.static hvalid).trans hholds.isValid,
    (hkept.static hdedupe).trans hholds.dedupeKey⟩, ?_⟩
  rw [hid]
  exact hsettled.imp (fun ⟨_, hlinked⟩ => hextends.linked hlinked) fun hleaves =>
    hleaves.extends hextends

theorem Accepted.fieldsOf {status : Ingest.IngestStatus}
    (h : Accepted app L model payload event status L') (hdistinct : L.db.Distinct) :
    Resolve.fieldsOf event = model.identity := by
  rw [Resolve.fieldsOf, (h.sets hdistinct).1.identityFields]
  rfl

/-- A payload that makes a version of an event is settled. -/
theorem Posted.settledFor {r : Except Error Events.Answer}
    (h : Posted app L heard model payload r L') (hhistory : History app still L)
    (hchanged : L'.db .events ≠ L.db .events) : SettledFor app L' model := by
  cases h with
  | duplicate => exact absurd rfl hchanged
  | unacceptable => exact absurd rfl hchanged
  | parked haccepted hparks =>
      have hleaves := LeavesToReviewer.of_parks hparks
      rw [haccepted.fieldsOf hhistory.distinct] at hleaves
      refine ⟨_, ?_, (haccepted.sets hhistory.distinct).1.toHolds,
        .inr (hleaves.extends (.commit _ _))⟩
      rw [commit_of_untouched (hparks.tables.ne (by decide))]
      exact haccepted.event_mem
  | @piped event status L₁ L₂ identityId r L' haccepted hidentified hpiped =>
      refine ⟨event, ?_, (haccepted.sets hhistory.distinct).1.toHolds, .inl ?_⟩
      · rw [hpiped.events, hidentified.events]
        exact haccepted.event_mem
      · have hlinked : Linked event.id identityId L₂.db := by
          cases hidentified with
          | found hlinked => exact hlinked
          | linked hlinks => exact (hlinks.linked lawful_still).resolve_left not_shared_still
        exact hpiped.extends.linked hlinked

/-- A settled payload that comes again brings no row of a person. -/
theorem Posted.samePersons {r : Except Error Events.Answer}
    (h : Posted app L heard model payload r L') (hhistory : History app still L)
    (hvalid : Schemas.validate app payload = .ok model) (hsettled : SettledFor app L model)
    (hled : L.db.Led) : SamePersons L.db L'.db := by
  cases h with
  | duplicate => exact .refl _
  | unacceptable => exact .refl _
  | parked haccepted hparks =>
      exact haccepted.samePersons.trans (samePersons_of_names hparks.tables (by decide))
  | @piped event status L₁ L₂ identityId r L' haccepted hidentified hpiped =>
      have hhistory₁ := haccepted.history hhistory
      cases hidentified with
      | found hlinked =>
          obtain ⟨link, hlink, -, rfl⟩ := hlinked
          rw [haccepted.identities.2.1] at hlink
          exact haccepted.samePersons.trans (hpiped.samePersons hhistory₁
            ((Extends.of_accepted haccepted).hasLead (hled link hlink)))
      | linked hlinks =>
          obtain ⟨old, hold, hholds, hsettled⟩ := hsettled.extends (.of_accepted haccepted)
          obtain rfl : old = event := hholds.eq (haccepted.sets hhistory.distinct).1.toHolds hvalid
            hhistory₁.distinct hold haccepted.event_mem
          obtain ⟨owner, link, hlink, hevent, -⟩ | hleaves := hsettled
          · have hunlinked : Unlinked old.id L₁.db := by
              cases hlinks with
              | found _ hunlinked => exact hunlinked
              | minted _ hunlinked => exact hunlinked
            exact absurd hevent (hunlinked link hlink)
          · exact absurd hlinks (hleaves.not_links (haccepted.fieldsOf hhistory.distinct))

/-- A request that makes a version of a valid event is a `POST` of a valid payload. -/
theorem Visited.posted_of_new {body : Option Body} {r : Except Error Response}
    (h : Visited app L heard (.postEvent body) r L') (hevent : event ∈ L'.db .events)
    (hvalid : event.isValid = true) (hnew : event ∉ L.db .events) :
    ∃ payload model r', body.map Body.json = some (.obj payload) ∧
      Schemas.validate app payload = .ok model ∧ Posted app L heard model payload r' L' := by
  cases h with
  | posted hbody hvalid' hposted => exact ⟨_, _, _, hbody, hvalid', hposted⟩
  | rejected hrefusal hrefuses =>
      obtain ⟨row, -, hrows, hinvalid, -⟩ := hrefuses.rejects.rows (L := L)
      rw [hrows, List.mem_append, List.mem_singleton] at hevent
      obtain hold | rfl := hevent
      · exact absurd hold hnew
      · rw [hinvalid] at hvalid
        cases hvalid
  | malformed => exact absurd hevent hnew
  | unrecorded => exact absurd hevent hnew
  | quiet hquiet => exact hquiet.elim
  | reviewed hdecides => exact absurd ⟨body, rfl⟩ hdecides.not_posts
  | resumed hdecides => exact absurd ⟨body, rfl⟩ hdecides.not_posts
  | escalated hreads => exact absurd ⟨body, rfl⟩ (Request.not_posts_of_reads hreads)

end DemandSignal
