import DemandSignal.Simulation
import DemandSignal.Spec.Serial

/-!
# Two acts on one lead

Two calls of `act` for an identity whose lead, route and touch are there leave what one of their two
orders leaves, if neither is for the event the lead already names. A call for that event takes no lock
on the lead, so the route it finds may be older than the lead.
-/

namespace DemandSignal

open Txn

variable {app : App} {L₀ L : Ledger Db Write} {ws ws' : List Write} {row : Lead} {call : ActCall}

/-- The database after these calls one after another, but for the times of the last updates of
leads. -/
def Serial (app : App) (identityId : Uuid) (L₀ : Ledger Db Write) (calls : List ActCall) (db : Db) :
    Prop :=
  ∃ visits L, Served (ActCall.acting app identityId) L₀ visits L ∧ visits.map Visit.input = calls ∧
    (∀ visit ∈ visits, ∃ acted, visit.result = .ok acted) ∧ Alike L.db db

namespace ActCall

/-- The first commit is that of a call alone. It changes the lead. -/
theorem Traced.first (hrows : Rows row L₀.db) (hrow : row ∈ L₀.db .leads)
    (happ : Applicable ws L₀.db) (h : Traced app L₀ row call L₀ ws)
    (hne : call.event.id ≠ row.sourceEventId) :
    (∃ acted s, Runs ((acting app row.identityId).solo call) {} L₀
        ((acting app row.identityId).program call) (.ok acted) s (L₀.commit ws)) ∧
      (∃ w ∈ ws, w.table = .leads) ∧
      ∀ current ∈ (L₀.commit ws).db .leads, Lead.id current = row.id →
        Lead.status current = .routed := by
  obtain @⟨L₁, L₂, L₃, lead, route, touch, leadRid, routeRid, touchRid, now, assignedAt, updatedAt,
    hfirst, hsecond, hthird, hlast, hlead, hid, hroute, hleadId, htouch, hidentity, hassigned,
    hupdated, hspared⟩ := h
  obtain rfl : L₁ = L₀ := hfirst.antisymm (hsecond.trans (hthird.trans hlast))
  obtain rfl : L₂ = L₁ := hsecond.antisymm (hthird.trans hlast)
  obtain rfl : L₃ = L₂ := hthird.antisymm hlast
  obtain rfl : lead = row := hrows.distinct.eq_of_id (t := .leads) hlead hrow hid
  have hunique : ∀ current ∈ L₃.db .leads, Lead.id current = lead.id → current = lead :=
    fun current hcurrent hsame => hrows.distinct.eq_of_id (t := .leads) hcurrent hrow hsame
  have htaken : Act.taken call.event lead ≠ lead := fun heq => hne (congrArg Lead.sourceEventId heq)
  refine ⟨runs_act app call hrows hrow rfl hroute hleadId htouch hidentity hassigned hupdated
    (insertIds_writes ▸ happ.nodup) (insertIds_writes ▸ happ.unused), ?_, fun current hcurrent hsame => ?_⟩
  · have hmem : .update .leads lead (Row.stamp (t := .leads) (Act.taken call.event lead) now) ∈
        (call.writes app lead.identityId lead route touch leadRid routeRid touchRid now assignedAt
          updatedAt).filter fun w => w.table = .leads := by
      rw [ActCall.writes, Act.writes_leads, Upsert.writes_updated, saved_of_ne htaken]
      exact List.mem_cons_self ..
    exact ⟨_, (List.mem_filter.mp hmem).1, rfl⟩
  · have hmem : Lead.undated current ∈ ((L₃.commit (call.writes app lead.identityId lead route touch
        leadRid routeRid touchRid now assignedAt updatedAt)).db .leads).map Lead.undated :=
      List.mem_map_of_mem hcurrent
    rw [leads_writes rfl fun current hcurrent hsame => .inl (hunique current hcurrent hsame),
      List.mem_map] at hmem
    obtain ⟨old, hold, heq⟩ := hmem
    split at heq
    · exact (congrArg Lead.status heq).symm
    · next holdId => exact absurd ((congrArg Lead.id heq).trans hsame) holdId

/-- The second commit is alike that of a call alone. -/
theorem Traced.second (hrows : Rows row L₀.db) (hrow : row ∈ L₀.db .leads)
    (hrows' : Rows row (L₀.commit ws).db) (hlead : ∃ w ∈ ws, w.table = .leads)
    (hrouted : ∀ current ∈ (L₀.commit ws).db .leads, Lead.id current = row.id →
      Lead.status current = .routed)
    (happ : Applicable ws' (L₀.commit ws).db) (h : Traced app L₀ row call (L₀.commit ws) ws')
    (hne : call.event.id ≠ row.sourceEventId) :
    ∃ acted s L, Runs ((acting app row.identityId).solo call) {} (L₀.commit ws)
        ((acting app row.identityId).program call) (.ok acted) s L ∧
      Alike L.db ((L₀.commit ws).commit ws').db := by
  obtain @⟨L₁, L₂, L₃, lead, route, touch, leadRid, routeRid, touchRid, now, assignedAt, updatedAt,
    hfirst, hsecond, hthird, hlast, hloaded, hid, hroute, hleadId, htouch, hidentity, hassigned,
    hupdated, hspared⟩ := h
  have hafter : L₂ = L₀.commit ws ∧ ∀ current ∈ (L₀.commit ws).db .leads, Lead.id current = row.id →
      current = lead ∨ call.event.id ≠ Lead.sourceEventId lead ∧ Lead.status current = .routed := by
    obtain rfl | rfl := hfirst.between (hsecond.trans (hthird.trans hlast))
    · -- it loaded the lead before the first commit, so it changes it and finds the route after
      obtain rfl : lead = row := hrows.distinct.eq_of_id (t := .leads) hloaded hrow hid
      have htaken : Act.taken call.event lead ≠ lead := fun heq =>
        hne (congrArg Lead.sourceEventId heq)
      refine ⟨?_, fun current hcurrent hsame => .inr ⟨hne, hrouted current hcurrent hsame⟩⟩
      obtain rfl | heq := hsecond.between (hthird.trans hlast)
      · obtain ⟨w, hw, htable⟩ := hlead
        exact absurd htable ((hspared htaken).of_commit w hw)
      · exact heq
    · exact ⟨hsecond.antisymm (hthird.trans hlast), fun current hcurrent hsame =>
        .inl (hrows'.distinct.eq_of_id (t := .leads) hcurrent hloaded (hsame.trans hid.symm))⟩
  obtain ⟨rfl, hafter⟩ := hafter
  obtain rfl : L₃ = L₀.commit ws := hthird.antisymm hlast
  exact runs_alike hrows' hid hafter hroute hleadId htouch hidentity hassigned hupdated happ

/-- One commit, or two, of calls for other events than the lead's. -/
theorem serial_of_trail {inputs : List ActCall} (hrows : Rows row L₀.db) (hrow : row ∈ L₀.db .leads)
    (h : Trail (Commits app L₀ row) L₀ inputs L) (hlength : inputs.length ≤ 2)
    (hne : ∀ call ∈ inputs, call.event.id ≠ row.sourceEventId) :
    Serial app row.identityId L₀ inputs L.db := by
  cases h with
  | nil => exact ⟨[], L₀, .nil, rfl, by simp, .refl _⟩
  | @snoc inputs L₁ second s₂ h h₂ =>
      have hsecond := hne second (by simp)
      cases h with
      | nil =>
          obtain ⟨⟨acted, s, hrun⟩, -⟩ := h₂.2.first hrows hrow h₂.1.toApplicable hsecond
          exact ⟨_, _, .snoc .nil hrun, rfl, by simp, .refl _⟩
      | @snoc inputs L₂ first s₁ h h₁ =>
          cases h with
          | nil =>
              have hfirst := hne first (by simp)
              have happ₁ := h₁.1.toApplicable
              have hrows' := hrows.extends (Extends.commit L₀ s₁.pending) (hrows.distinct.foldl happ₁)
              obtain ⟨⟨acted₁, session₁, hrun₁⟩, hlead, hrouted⟩ :=
                h₁.2.first hrows hrow happ₁ hfirst
              obtain ⟨acted₂, session₂, L', hrun₂, halike⟩ := h₂.2.second hrows hrow hrows' hlead
                hrouted h₂.1.toApplicable hsecond
              exact ⟨_, _, .snoc (.snoc .nil hrun₁) hrun₂, rfl, by simp, halike⟩
          | snoc h h₀ =>
              simp only [List.length_append, List.length_singleton] at hlength
              omega

/-- After a call alone the lead names its event, and the route is the one of its rule. -/
theorem Traced.named (hrows : Rows row L.db) (h : Traced app L row call L ws) :
    (∀ lead ∈ (L.commit ws).db .leads, Lead.id lead = row.id →
        Lead.sourceEventId lead = call.event.id) ∧
      ∀ route ∈ (L.commit ws).db .routes, Route.leadId route = row.id →
        Route.ruleMatched route = (call.rule app).2.1 := by
  obtain @⟨L₁, L₂, L₃, lead, route, touch, leadRid, routeRid, touchRid, now, assignedAt, updatedAt,
    hfirst, hsecond, hthird, hlast, hlead, hid, hroute, hleadId, -, -, -, -, -⟩ := h
  obtain rfl : L₁ = L := hfirst.antisymm (hsecond.trans (hthird.trans hlast))
  obtain rfl : L₂ = L₁ := hsecond.antisymm (hthird.trans hlast)
  refine ⟨fun current hcurrent hsame => ?_, fun current hcurrent hsame => ?_⟩
  · have hmem : Lead.undated current ∈ ((L₂.commit (call.writes app row.identityId lead route touch
        leadRid routeRid touchRid now assignedAt updatedAt)).db .leads).map Lead.undated :=
      List.mem_map_of_mem hcurrent
    rw [leads_writes hid fun other hother hsame => .inl (hrows.distinct.eq_of_id (t := .leads) hother
      hlead (hsame.trans hid.symm)), List.mem_map] at hmem
    obtain ⟨old, -, heq⟩ := hmem
    split at heq
    · exact (congrArg Lead.sourceEventId heq).symm
    · next hother => exact absurd ((congrArg Lead.id heq).trans hsame) hother
  · have hroutes : Act.RoutesBy still L₂ row.id (call.rule app) assignedAt
        (.updated route (Act.rerouted (call.rule app) assignedAt route)) := ⟨hroute, hleadId, rfl⟩
    obtain ⟨hrow, -, hrule, hsets⟩ := hroutes.sets hrows.distinct Act.writes_routes
    rw [hsets.eq_new hcurrent (hsame.trans hrow.symm), hrule]

/-- A call keeps the rows of its identity. -/
theorem served_rows (hrows : Rows row L₀.db)
    {visits : List (Visit ActCall Db Write Error Reply Act.Acted)}
    (h : Served (acting app row.identityId) L₀ visits L) : Rows row L.db := by
  have hinv : ∀ (s : Session Write Reply) L, Rows row L.db → Ready s L →
      Rows row (L.commit s.pending).db := fun s L hrows hready =>
    hrows.extends (Extends.commit L s.pending) (hrows.distinct.foldl hready.toApplicable)
  refine (h.sound hinv (fun call L hrows => ?_) hrows).1
  exact wp_mono (fun _ _ _ _ => trivial) (wp_act (shares_alone row) rfl hrows .refl
    fun _ _ _ hready _ => hready)

end ActCall

/-- **The lead and the route come from the same call**, the last one. -/
theorem Serial.named (hrows : ActCall.Rows row L₀.db) {calls : List ActCall} {db : Db}
    (h : Serial app row.identityId L₀ (calls ++ [call]) db) :
    (∀ lead ∈ db .leads, Lead.id lead = row.id → Lead.sourceEventId lead = call.event.id) ∧
      ∀ route ∈ db .routes, Route.leadId route = row.id →
        Route.ruleMatched route = (call.rule app).2.1 := by
  obtain ⟨visits, L, hserved, hcalls, -, halike⟩ := h
  cases hserved with
  | nil => simp at hcalls
  | @snoc visits L₁ last r s L hserved hrun =>
      rw [List.map_append, List.map_singleton] at hcalls
      obtain rfl : last = call := List.cons.inj (List.append_inj' hcalls rfl).2 |>.1
      obtain ⟨ws, htraced, rfl⟩ := ActCall.runs_traced (ActCall.served_rows hrows hserved) hrun
      obtain ⟨hleads, hroutes⟩ := htraced.named (ActCall.served_rows hrows hserved)
      refine ⟨fun lead hlead hid => ?_, ?_⟩
      · have hmem : Lead.undated lead ∈ ((L₁.commit ws).db .leads).map Lead.undated := by
          rw [halike.leads]
          exact List.mem_map_of_mem hlead
        obtain ⟨lead', hlead', heq⟩ := List.mem_map.mp hmem
        have hsource := hleads lead' hlead' ((congrArg Lead.id heq).trans hid)
        exact (congrArg Lead.sourceEventId heq).symm.trans hsource
      · rw [← halike.others .routes (by decide)]
        exact hroutes

/-- The calls that have committed have left what one of their orders leaves. If all have returned, all
have committed. -/
def Serializable (app : App) (identityId : Uuid) (L₀ : Ledger Db Write) (calls : List ActCall)
    (config : Config ActCall Db Write Error Question Reply Act.Acted) : Prop :=
  ∃ order, order.Subperm calls ∧ Serial app identityId L₀ order config.ledger.db ∧
    ((∀ thread ∈ config.threads, ∃ acted, thread.status = .ended (.ok acted)) → order.Perm calls)

/-- **Two acts on a lead are serializable, however they interleave, if neither is for the event the lead
names.** -/
theorem acts_serializable {before : Config Request Db Write Error Question Reply Response}
    (hbefore : Reachable (service app) emptyLedger before) {lead : Lead}
    (hlead : lead ∈ before.ledger.db .leads) {route : Route} (hroute : route ∈ before.ledger.db .routes)
    (hleadId : route.leadId = lead.id) {touch : AttributionTouch}
    (htouch : touch ∈ before.ledger.db .attributionTouches)
    (hidentity : touch.identityId = lead.identityId) {first second : ActCall}
    (hfirst : first.event.id ≠ lead.sourceEventId) (hsecond : second.event.id ≠ lead.sourceEventId)
    {config : Config ActCall Db Write Error Question Reply Act.Acted}
    (h : Reachable (ActCall.acting app lead.identityId) before.ledger config)
    (hcalls : config.threads.map Thread.input = [first, second]) :
    Serializable app lead.identityId before.ledger [first, second] config := by
  have hrows : ActCall.Rows lead before.ledger.db := ⟨(reachable_history hbefore).distinct,
    ⟨lead, hlead, rfl, rfl⟩, ⟨route, hroute, hleadId⟩, touch, htouch, hidentity⟩
  obtain ⟨authors, order, hcensus⟩ := ActCall.census hrows h
  have hsub := hcensus.subperm
  have hperm := hcensus.perm
  rw [hcalls] at hsub hperm
  refine ⟨order, hsub, ActCall.serial_of_trail hrows hlead hcensus.trail hsub.length_le ?_, hperm⟩
  intro call hcall
  obtain rfl | rfl : call = first ∨ call = second := by simpa using hsub.subset hcall
  · exact hfirst
  · exact hsecond

/-- The provider takes the event for a question about the price. -/
def pricingReply : Reply :=
  .completion
    "\x7b\"label\": \"pricing_inquiry\", \"confidence\": 0.9, \"reason\": \"asks for a price\"\x7d" none

/-- A form that asks for the price, and a form that does not. -/
def pricedForms : List (Action Request) :=
  inTurn 0 [(webForm "1" firstDay "what does it cost", 53), (webForm "2" secondDay "hi", 43)]

/-- The calls of `act` for the events of the database. -/
def callsOf (db : Db) : List ActCall :=
  (db .events).map fun event =>
    ⟨event, (db .scores).find? fun score => Score.eventId score = Event.id event⟩

/-- The second call reads the lead, the first runs to its end, the second goes on. -/
def around (first second : ActCall) : List (Action ActCall) :=
  [.spawn first, .spawn second, .step 1] ++ List.replicate 17 (.step 0) ++ List.replicate 16 (.step 1)

/-- Two calls around each other, for the rows and the calls of which `p` holds, with what they lead to. -/
theorem exists_around {p : Lead → ActCall → ActCall →
      Config ActCall Db Write Error Question Reply Act.Acted → Bool}
    (h : (interleave (fun _ => pricingReply) pricedForms).any (fun before =>
      (before.ledger.db .leads).any fun lead => (before.ledger.db .routes).any fun route =>
        (before.ledger.db .attributionTouches).any fun touch =>
          (callsOf before.ledger.db).any fun first => (callsOf before.ledger.db).any fun second =>
            decide (Route.leadId route = Lead.id lead) &&
            decide (AttributionTouch.identityId touch = Lead.identityId lead) &&
            (Config.play (ActCall.acting shipped (Lead.identityId lead)) unreachable 200
              ⟨before.ledger, []⟩ (around first second)).any fun config =>
                decide (config.threads.map Thread.input = [first, second]) &&
                p lead first second config) = true) :
    ∃ before, Reachable (service shipped) emptyLedger before ∧
      ∃ lead ∈ before.ledger.db .leads,
      (∃ route ∈ before.ledger.db .routes, Route.leadId route = Lead.id lead) ∧
      (∃ touch ∈ before.ledger.db .attributionTouches,
        AttributionTouch.identityId touch = Lead.identityId lead) ∧
      ∃ first second config,
        Reachable (ActCall.acting shipped (Lead.identityId lead)) before.ledger config ∧
        config.threads.map Thread.input = [first, second] ∧ p lead first second config = true := by
  obtain ⟨before, hbefore, h⟩ := (Option.any_eq_true _ _).mp h
  obtain ⟨lead, hlead, h⟩ := List.any_eq_true.mp h
  obtain ⟨route, hroute, h⟩ := List.any_eq_true.mp h
  obtain ⟨touch, htouch, h⟩ := List.any_eq_true.mp h
  obtain ⟨first, -, h⟩ := List.any_eq_true.mp h
  obtain ⟨second, -, h⟩ := List.any_eq_true.mp h
  simp only [Bool.and_eq_true, decide_eq_true_eq] at h
  obtain ⟨⟨hleadId, hidentity⟩, h⟩ := h
  obtain ⟨config, hconfig, h⟩ := (Option.any_eq_true _ _).mp h
  rw [Bool.and_eq_true, decide_eq_true_eq] at h
  exact ⟨before, interleave_reachable hbefore, lead, hlead, ⟨route, hroute, hleadId⟩,
    ⟨touch, htouch, hidentity⟩, first, second, config,
    Config.play_reachable (fun _ _ _ _ => trivial) (fun _ => trivial) .refl hconfig, h.1, h.2⟩

theorem acts_serializable_around :
    ∃ before lead first second config, Reachable (service shipped) emptyLedger before ∧
      lead ∈ before.ledger.db .leads ∧ first.event.id ≠ Lead.sourceEventId lead ∧
      Reachable (ActCall.acting shipped (Lead.identityId lead)) before.ledger config ∧
      Serializable shipped (Lead.identityId lead) before.ledger [first, second] config := by
  obtain ⟨before, hbefore, lead, hlead, ⟨route, hroute, hleadId⟩, ⟨touch, htouch, hidentity⟩, first,
    second, config, hconfig, hinputs, hsources⟩ := exists_around (p := fun lead first second _ =>
      decide (first.event.id ≠ Lead.sourceEventId lead) &&
        decide (second.event.id ≠ Lead.sourceEventId lead)) (by
          rw [interleave, shipped_eq_bucketed]
          decide +kernel)
  simp only [Bool.and_eq_true, decide_eq_true_eq] at hsources
  exact ⟨before, lead, first, second, config, hbefore, hlead, hsources.1, hconfig,
    acts_serializable hbefore hlead hroute hleadId htouch hidentity hsources.1 hsources.2 hconfig hinputs⟩

def returns (thread : Thread ActCall Db Write Error Question Reply Act.Acted) : Bool :=
  match thread.status with
  | .ended (.ok _) => true
  | _ => false

/-- The second call is for the event the lead names. It reads the lead, takes no lock on it, and routes
it after the first call has made it the first event's. -/
theorem acts_not_serializable :
    ¬ ∀ (before : Config Request Db Write Error Question Reply Response) (lead : Lead) (route : Route)
      (touch : AttributionTouch) (first second : ActCall)
      (config : Config ActCall Db Write Error Question Reply Act.Acted),
      Reachable (service shipped) emptyLedger before → lead ∈ before.ledger.db .leads →
      route ∈ before.ledger.db .routes → route.leadId = lead.id →
      touch ∈ before.ledger.db .attributionTouches → touch.identityId = lead.identityId →
      Reachable (ActCall.acting shipped lead.identityId) before.ledger config →
      config.threads.map Thread.input = [first, second] →
      Serializable shipped lead.identityId before.ledger [first, second] config := by
  intro hall
  obtain ⟨before, hbefore, lead, hlead, ⟨route, hroute, hleadId⟩, ⟨touch, htouch, hidentity⟩, first,
    second, config, hconfig, hinputs, hplayed⟩ := exists_around (p := fun lead first second config =>
      decide (first.event.id ≠ second.event.id ∧ (first.rule shipped).2.1 ≠ (second.rule shipped).2.1) &&
      config.threads.all returns &&
      ((config.ledger.db .leads).any fun after =>
        decide (Lead.id after = Lead.id lead ∧ Lead.sourceEventId after = first.event.id)) &&
      (config.ledger.db .routes).any fun after =>
        decide (Route.leadId after = Lead.id lead ∧
          Route.ruleMatched after = (second.rule shipped).2.1)) (by
            rw [interleave, shipped_eq_bucketed]
            decide +kernel)
  simp only [Bool.and_eq_true, decide_eq_true_eq, List.any_eq_true, List.all_eq_true] at hplayed
  obtain ⟨⟨⟨⟨hevents, hrules⟩, hended⟩, lead', hlead', hid, hsource⟩, route', hroute', hleadId',
    hrule⟩ := hplayed
  obtain ⟨order, hsub, hserial, hperm⟩ := hall before lead route touch first second config hbefore hlead
    hroute hleadId htouch hidentity hconfig hinputs
  have hrows : ActCall.Rows lead before.ledger.db := ⟨(reachable_history hbefore).distinct,
    ⟨lead, hlead, rfl, rfl⟩, ⟨route, hroute, hleadId⟩, touch, htouch, hidentity⟩
  have hreturned : ∀ thread ∈ config.threads, ∃ acted, thread.status = .ended (.ok acted) := by
    intro thread hthread
    have hstatus := hended thread hthread
    unfold returns at hstatus
    split at hstatus
    · next acted heq => exact ⟨acted, heq⟩
    · cases hstatus
  obtain rfl | ⟨calls, last, rfl⟩ := List.eq_nil_or_concat order
  · have hlength := (hperm hreturned).length_eq
    simp at hlength
  · rw [List.concat_eq_append] at hserial hsub
    obtain ⟨hleads, hroutes⟩ := hserial.named hrows
    obtain rfl | rfl : last = first ∨ last = second := by
      simpa using hsub.subset (List.mem_append_right _ (List.mem_singleton_self last))
    · exact hrules ((hroutes route' hroute' hleadId').symm.trans hrule)
    · exact hevents (hsource.symm.trans (hleads lead' hlead' hid))

end DemandSignal
