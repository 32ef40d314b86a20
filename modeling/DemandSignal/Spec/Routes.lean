import DemandSignal.Spec.Reconciliation
import DemandSignal.Spec.Reviews

/-!
# Routes and scores

A transaction that inserts a lead inserts its route and its touch too, and no other transaction inserts
one. The score of an event, the lead of its identity and the lead's route are written by one run of the
pipeline: a lead whose source is another event keeps its route and that event's score, because an
event is linked to one identity only.
-/

namespace DemandSignal

open Txn Resolve

variable {app : App} {L L' : Ledger Db Write} {ws : List Write}

/-! ### Every lead has a route -/

section Routed

variable {sight : Sight}

/-- The leads are the leads of the routes. -/
def Db.LeadsRouted (db : Db) : Prop :=
  ∀ leadId, leadId ∈ (db .leads).map Lead.id ↔ leadId ∈ (db .routes).map Route.leadId

theorem Db.LeadsRouted.acts (lawful : sight.Lawful) {event : Event} {identityId : Uuid}
    {score : Option Score} (hrouted : L.db.LeadsRouted)
    (h : Act.Acts app sight L event identityId score ws) (happ : Applicable ws L.db) :
    (L.commit ws).db.LeadsRouted := by
  obtain @⟨lead, route, touch, leadRid, routeRid, touchRid, now, assignedAt, updatedAt, h⟩ := h
  have hled := h.led
  have hroute := h.routed
  have hstatic : Row.Static (t := .routes) Route.leadId := fun _ _ _ => rfl
  have hstaticId : Row.Static (t := .leads) Lead.id := Row.static_id .leads
  intro v
  change v ∈ (List.foldl Db.apply L.db _ .leads).map Lead.id ↔
    v ∈ (List.foldl Db.apply L.db _ .routes).map Route.leadId
  rw [Db.map_foldl_apply hstaticId, Db.map_foldl_apply hstatic, List.mem_append, List.mem_append,
    hrouted v]
  cases lead with
  | created new =>
      cases route with
      | created row =>
          have hleadId : Route.leadId row = Lead.id new := by
            rw [hroute.2]
            rfl
          simp [Act.writes, inserted_cons_of_ne, Upsert.inserted_inserts_of_ne, hleadId]
      | updated loaded row =>
          -- a route that was there would name a lead that was there
          obtain ⟨current, hcurrent, hkept⟩ := lawful.kept hroute.1
          have hleadId : Route.leadId current = Lead.id new :=
            (hkept.static hstatic).trans hroute.2.1
          obtain ⟨old, hold, hid⟩ := List.mem_map.mp
            ((hrouted (Lead.id new)).mpr (List.mem_map.mpr ⟨current, hcurrent, hleadId⟩))
          exact absurd hid.symm (happ.id_ne (t := .leads) (s := .leads) hold
            (Act.inserts_subset.1 (List.mem_singleton_self _)))
  | updated loaded new =>
      cases route with
      | created row =>
          -- a lead that was there would have a route that was there
          obtain ⟨current, hcurrent, hkept⟩ := lawful.kept hled.1
          have hid : Lead.id current = Lead.id new := by
            rw [hled.2.2]
            exact hkept.static (Row.static_id .leads)
          obtain ⟨old, hold, hleadId⟩ := List.mem_map.mp
            ((hrouted (Lead.id new)).mp (List.mem_map.mpr ⟨current, hcurrent, hid⟩))
          have hfree := happ.free .routes row (Act.inserts_subset.2.1 (List.mem_singleton_self _))
            (.routeLead (Lead.id new)) (by rw [hroute.2]; exact List.mem_singleton_self _)
          rw [Db.holds_eq_false] at hfree
          refine absurd (List.mem_cons_of_mem _ ?_) (hfree old hold)
          rw [Row.indexed, hleadId]
          exact List.mem_singleton_self _
      | updated => simp [Act.writes, inserted_cons_of_ne, Upsert.inserted_inserts_of_ne]

theorem History.leadsRouted (lawful : sight.Lawful) (h : History app sight L) :
    L.db.LeadsRouted := by
  induction h with
  | empty => exact fun _ => Iff.rfl
  | @commit L ws _ htransaction happ ih =>
      by_cases hinserts : inserted .leads ws ≠ [] ∨ inserted .attributionTouches ws ≠ [] ∨
          inserted .routes ws ≠ []
      · obtain ⟨event, identityId, score, hacts⟩ := htransaction.acts_of_inserts hinserts
        exact ih.acts lawful hacts happ
      · simp only [not_or, not_not] at hinserts
        have hstatic : Row.Static (t := .routes) Route.leadId := fun _ _ _ => rfl
        have hstaticId : Row.Static (t := .leads) Lead.id := Row.static_id .leads
        intro v
        change v ∈ (List.foldl Db.apply L.db ws .leads).map Lead.id ↔
          v ∈ (List.foldl Db.apply L.db ws .routes).map Route.leadId
        rw [Db.map_foldl_apply hstaticId, Db.map_foldl_apply hstatic, hinserts.1, hinserts.2.2]
        simpa using ih v

end Routed

/-! ### The route of a score -/

/-- The routing table gives the route for the score. -/
def Route.Fits (app : App) (route : Route) (score : Score) : Prop :=
  route.queue =
      (Act.applyRoutingRule score.decision score.features.label app.routingRules).1 ∧
    route.ruleMatched =
      (Act.applyRoutingRule score.decision score.features.label app.routingRules).2.1

/-- Every route of a lead is explained by the score of the lead's source event. -/
def Db.Explained (app : App) (db : Db) : Prop :=
  ∀ lead ∈ db .leads, ∀ route ∈ db .routes, Route.leadId route = Lead.id lead →
    ∃ score ∈ db .scores, Score.eventId score = Lead.sourceEventId lead ∧
      route.Fits app score

/-- The routes of before up to the flag. -/
theorem Db.Explained.of_routes {db db' : Db} (h : db.Explained app) (hleads : db' .leads = db .leads)
    (hscores : db' .scores = db .scores)
    (hroutes : ∀ route ∈ db' .routes, ∃ old ∈ db .routes, Route.leadId old = Route.leadId route ∧
      Route.queue old = Route.queue route ∧ Route.ruleMatched old = Route.ruleMatched route) :
    db'.Explained app := by
  intro lead hlead route hroute hleadId
  rw [hleads] at hlead
  rw [hscores]
  obtain ⟨old, hold, holdLead, hqueue, hrule⟩ := hroutes route hroute
  obtain ⟨score, hscore, hevent, hexplains⟩ := h lead hlead old hold (holdLead.trans hleadId)
  refine ⟨score, hscore, hevent, ?_⟩
  unfold Route.Fits at hexplains ⊢
  rwa [hqueue, hrule] at hexplains

theorem explained_of_names {ts : List Table} (h : L.db.Explained app) (hnames : Names ws ts)
    (hleads : .leads ∉ ts) (hroutes : .routes ∉ ts) (hscores : .scores ∉ ts) :
    (L.commit ws).db.Explained app :=
  h.of_routes (commit_of_untouched (hnames.ne hleads)) (commit_of_untouched (hnames.ne hscores))
    fun route hroute => by
      rw [commit_of_untouched (hnames.ne hroutes)] at hroute
      exact ⟨route, hroute, rfl, rfl, rfl⟩

/-- A reader of leads changes nothing of a route but its flag. -/
theorem Escalation.Escalates.update_eq {sight : Sight} (h : Escalation.Escalates sight L ws)
    {loaded new : Route} (hupdate : .update .routes loaded new ∈ ws) :
    new = { loaded with escalated := true } := by
  induction h with
  | nil => cases hupdate
  | @snoc ws route identityId detectedAt rid now h hroute hopen hnew ih =>
      simp only [List.mem_append, List.mem_cons, List.not_mem_nil, or_false, Write.update.injEq,
        reduceCtorEq] at hupdate
      rcases hupdate with hupdate | ⟨-, hloaded, hnew⟩
      · exact ih hupdate
      · rw [eq_of_heq hloaded, eq_of_heq hnew]

theorem Escalation.Escalates.explained (h : Escalation.Escalates still L ws)
    (hexplained : L.db.Explained app) : (L.commit ws).db.Explained app := by
  refine hexplained.of_routes (commit_of_untouched (h.tables.ne (by decide)))
    (commit_of_untouched (h.tables.ne (by decide))) fun route hroute => ?_
  let column : Row .routes → Uuid × String × String := fun route =>
    (Route.leadId route, Route.queue route, Route.ruleMatched route)
  have hkeep : ∀ loaded new : Row .routes, .update .routes loaded new ∈ ws → ∀ current,
      column (Row.merge loaded new current) = column current := by
    intro loaded new hupdate current
    rw [h.update_eq hupdate]
    simp [column, Row.merge, Row.column]
  have hmap : ((L.commit ws).db .routes).map column = (L.db .routes).map column := by
    change (List.foldl Db.apply L.db ws .routes).map column = _
    rw [Db.map_foldl_apply_of_kept hkeep, h.inserted_routes, List.map_nil, List.append_nil]
  have hmem : column route ∈ (L.db .routes).map column := by
    rw [← hmap]
    exact List.mem_map_of_mem hroute
  obtain ⟨old, hold, hcolumn⟩ := List.mem_map.mp hmem
  simp only [column, Prod.mk.injEq] at hcolumn
  exact ⟨old, hold, hcolumn⟩

/-- The lead, the route and the score of one pipeline run belong together; the others have nothing to
do with its event. -/
theorem explained_of_acts {event : Event} {identityId : Uuid} {interpretation : Interpretation}
    {score : Score} {ws' : List Write} (hdistinct : L.db.Distinct) (howned : L.db.Owned)
    (h : L.db.Explained app)
    (hscores : Scoring.Scores app still L event identityId interpretation score ws)
    (happ : Applicable ws L.db)
    (hacts : Act.Acts app still (L.commit ws) event identityId (some score) ws')
    (happ' : Applicable ws' (L.commit ws).db) : ((L.commit ws).commit ws').db.Explained app := by
  have hlinked : Linked event.id identityId (L.commit ws).db := by
    obtain ⟨hacts⟩ := hacts
    exact hacts.linked.resolve_left not_shared_still
  have hdistinct₁ : (L.commit ws).db.Distinct := hdistinct.foldl happ
  have hdistinct₂ : ((L.commit ws).commit ws').db.Distinct := hdistinct₁.foldl happ'
  obtain ⟨hscoreEvent, hsets⟩ := hscores.sets hdistinct
  obtain ⟨lead, route, touch, hleaves⟩ := hacts.leaves hdistinct₁ happ'
  have hsame : ((L.commit ws).commit ws').db .scores = (L.commit ws).db .scores :=
    commit_of_untouched (hacts.tables.ne (by decide))
  intro other hother route' hroute' hleadId
  rw [hsame]
  obtain rfl | ⟨hold, hne⟩ := (hleaves.leads other).mp hother
  · have heq : route' = route := hleaves.routes.eq_new hroute' (hleadId.trans hleaves.routeLead.symm)
    refine ⟨score, hsets.new_mem, hscoreEvent.trans hleaves.leadSource.symm, ?_⟩
    rw [heq]
    exact ⟨hleaves.queue, hleaves.ruleMatched⟩
  · rw [hleaves.leadIdentity] at hne
    rw [commit_of_untouched (hscores.tables.ne (by decide))] at hold
    have hsource : Lead.sourceEventId other ≠ event.id := by
      intro hsource
      obtain ⟨link, hlink, hevent, hidentity⟩ := howned _ _ (.lead hold rfl rfl)
      obtain ⟨link', hlink', hevent', hidentity'⟩ := hlinked
      rw [commit_of_untouched (hscores.tables.ne (by decide))] at hlink'
      have heq : link = link' := eq_of_eventId hdistinct hlink hlink' (by rw [hevent, hevent', hsource])
      rw [heq, hidentity'] at hidentity
      exact hne hidentity.symm
    have hroute : Route.leadId route' ≠ route.leadId := by
      rw [hleadId, hleaves.routeLead]
      intro hid
      have heq : other = lead := hdistinct₂.eq_of_id (t := .leads) hother hleaves.leads.new_mem hid
      rw [heq] at hne
      exact hne hleaves.leadIdentity
    have hrouteOld := hleaves.routes.of_ne hroute' hroute
    rw [commit_of_untouched (hscores.tables.ne (by decide))] at hrouteOld
    obtain ⟨score', hscore', hevent, hexplains⟩ := h other hold route' hrouteOld hleadId
    refine ⟨score', hsets.mem_of_ne hscore' ?_, hevent, hexplains⟩
    rw [hevent, hscoreEvent]
    exact hsource

theorem Piped.explained {event : Event} {identityId : Uuid} {heard : List Reply}
    {r : Except Error (Option Pipeline.Outcome)} (h : Piped app L event identityId heard r L')
    (hhistory : History app still L) (hreviewed : L.db.Reviewed) (howned : L.db.Owned)
    (hexplained : L.db.Explained app) : L'.db.Explained app := by
  cases h with
  | acted hfields hinterprets happ₁ hcurrent heventId hscores happ₂ hacts happ₃ =>
      have h₁ := inOrder_of_names hreviewed howned hinterprets.tables (by decide) (by decide)
        (by decide) (by decide)
      exact explained_of_acts (hhistory.commit (.interprets hinterprets) happ₁).distinct h₁.owned
        (explained_of_names hexplained hinterprets.tables (by decide) (by decide) (by decide)) hscores
        happ₂ hacts.acts happ₃
  | dead herror hdead =>
      exact explained_of_names hexplained hdead.tables (by decide) (by decide) (by decide)
  | alreadyDead => exact hexplained
  | noText => exact hexplained
  | unstorable => exact hexplained
  | badMessage => exact hexplained
  | noScore hfields hinterprets =>
      exact explained_of_names hexplained hinterprets.tables (by decide) (by decide) (by decide)

theorem Prepared.explained {request : Request} (h : Prepared app L request L')
    (hexplained : L.db.Explained app) : L'.db.Explained app := by
  have haccepted : ∀ {model payload event status L₁},
      Accepted app L model payload event status L₁ → L₁.db.Explained app := by
    intro model payload event status L₁ h
    cases h with
    | created hcreates =>
        exact explained_of_names hexplained hcreates.tables (by decide) (by decide) (by decide)
    | edited hedits =>
        exact explained_of_names hexplained hedits.tables (by decide) (by decide) (by decide)
  cases h with
  | nothing => exact hexplained
  | accepted hbody hvalid h => exact haccepted h
  | linked hbody hvalid h hlinks =>
      exact explained_of_names (haccepted h) hlinks.tables (by decide) (by decide) (by decide)
  | parked hbody hvalid h hparks =>
      exact explained_of_names (haccepted h) hparks.tables (by decide) (by decide) (by decide)
  | rejected hrejects =>
      exact explained_of_names hexplained hrejects.tables (by decide) (by decide) (by decide)
  | resolved hpost hresolves =>
      exact explained_of_names hexplained hresolves.tables (by decide) (by decide) (by decide)
  | simulated hpost hdead =>
      exact explained_of_names hexplained hdead.tables (by decide) (by decide) (by decide)
  | escalated hpost hescalates => exact hescalates.explained hexplained

theorem Visited.explained {heard : List Reply} {request : Request} {r : Except Error Response}
    (h : Visited app L heard request r L') (hhistory : History app still L)
    (hminds : MindsReviews app L.db request) (hreviewed : L.db.Reviewed) (howned : L.db.Owned)
    (hexplained : L.db.Explained app) : L'.db.Explained app := by
  obtain ⟨L₁, hprepared, hpipelined⟩ := h.phases
  have hhistory₁ := hprepared.history hhistory
  have h₁ := hprepared.inOrder hhistory hminds hreviewed howned
  have hexplained₁ := hprepared.explained hexplained
  cases hpipelined with
  | idle => exact hexplained₁
  | ran hevent hlinked hpiped => exact hpiped.explained hhistory₁ h₁.reviewed h₁.owned hexplained₁
  | revived hevent hlinked hpiped hrevives =>
      exact explained_of_names (hpiped.explained hhistory₁ h₁.reviewed h₁.owned hexplained₁)
        hrevives.tables (by decide) (by decide) (by decide)

end DemandSignal
