import DemandSignal.Spec.Projections
import DemandSignal.Spec.Rulings
import DemandSignal.Txn.Census

/-!
# Acts on one lead

Calls of `act` for an identity whose lead, route and touch are there. A call that changes the lead locks
it, so the route and the touch it loads afterwards are the last ones. A call that leaves the lead as it
is locks nothing.
-/

namespace DemandSignal

open Txn Program

variable {app : App} {L₀ L L' : Ledger Db Write} {ws : List Write}

/-! ### Points of a history -/

theorem Extends.log_length (h : Extends L L') :
    L.log.length ≤ L'.log.length ∧ (L'.log.length ≤ L.log.length → L' = L) := by
  induction h with
  | refl => exact ⟨le_rfl, fun _ => rfl⟩
  | tail _ hlast ih =>
      obtain ⟨ws, rfl⟩ := hlast
      simp only [Ledger.commit, List.length_append, List.length_singleton]
      exact ⟨by omega, fun h => by omega⟩

theorem Extends.antisymm (h : Extends L L') (h' : Extends L' L) : L' = L :=
  h.log_length.2 h'.log_length.1

/-- Between a ledger and its next transaction there is no other point. -/
theorem Extends.between (h : Extends L₀ L) (h' : Extends L (L₀.commit ws)) :
    L = L₀ ∨ L = L₀.commit ws := by
  obtain heq | hbefore := h'.of_commit
  · exact .inr heq
  · exact .inl (h.antisymm hbefore)

/-- The ledger after transactions that write no lead. -/
def Spared : Ledger Db Write → Ledger Db Write → Prop :=
  Relation.ReflTransGen fun L L' => ∃ ws, (∀ w ∈ ws, w.table ≠ .leads) ∧ L' = L.commit ws

theorem Spared.of_commit (h : Spared L (L.commit ws)) : ∀ w ∈ ws, w.table ≠ .leads := by
  obtain heq | ⟨L₁, hspared, ws', hws', heq⟩ := Relation.ReflTransGen.cases_tail h
  · have hlog := congrArg (fun L : Ledger Db Write => L.log.length) heq
    simp [Ledger.commit] at hlog
  · obtain ⟨rfl, rfl⟩ := commit_inj heq
    exact hws'

/-! ### Rules within bounds -/

section Within

variable {X Q A : Type} {rules : Rules Db Write Q A} {sight : Sight}
  {bound : Ledger Db Write → Ledger Db Write → Prop}

theorem Fair.within (fair : Fair rules sight) : Fair (rules.within bound) sight where
  toLawful := fair.toLawful
  ready s L L' h := fair.ready s L L' h.1
  unused s L L' u h := fair.unused s L L' u h.1
  history s L L' h := fair.history s L L' h.1
  stable P s L L' h := fair.stable P s L L' h.1
  alone halone s L L' h := fair.alone halone s L L' h.1
  refusals := fair.refusals

theorem Before.bounded (hrefl : ∀ L, bound L L)
    (htrans : ∀ L L' L'', bound L L' → bound L' L'' → bound L L'') {own : List Uuid}
    (h : Before (rules.within bound) own L L') : bound L L' := by
  induction h with
  | refl => exact hrefl L
  | tail _ hlast ih =>
      obtain ⟨s, -, -, hbound⟩ := hlast
      exact htrans _ _ _ ih hbound

theorem Before.of_within {own : List Uuid} (h : Before (rules.within bound) own L L') :
    Before rules own L L' :=
  Relation.ReflTransGen.mono (fun _ _ ⟨s, hown, hrely, _⟩ => ⟨s, hown, hrely⟩) _ _ h

end Within

/-- The lead without the time of its last update. -/
def Lead.undated (lead : Lead) : Lead := { lead with updatedAt := 0 }

/-- Two databases with the same rows, but for the times of the last updates of leads. -/
structure Alike (db db' : Db) : Prop where
  leads : (db .leads).map Lead.undated = (db' .leads).map Lead.undated
  others : ∀ t, t ≠ .leads → db t = db' t

theorem Alike.refl (db : Db) : Alike db db := ⟨rfl, fun _ _ => rfl⟩

theorem insertIds_saved {t : Table} (loaded new : Row t) (now : Time) :
    insertIds (saved t loaded new now) = [] := by
  rw [saved]
  split <;> rfl

/-! ### What an act has loaded -/

/-- A call of `act`: the event, and its score if it has one. -/
structure ActCall where
  event : Event
  score : Option Score
deriving DecidableEq

namespace Act

/-- The lead as `create_or_update_lead` leaves a lead that is there. -/
def taken (event : Event) (lead : Lead) : Lead :=
  { lead with sourceEventId := event.id, status := .routed }

/-- The route as `route_lead` leaves a route that is there. -/
def rerouted (rule : String × String × Int) (assignedAt : Time) (route : Route) : Route :=
  { route with
    queue := rule.1
    ruleMatched := rule.2.1
    slaDeadline := assignedAt + hours rule.2.2 }

/-- The touch as `upsert_attribution` leaves a touch that is there. -/
def retouched (event : Event) (updatedAt : Time) (touch : AttributionTouch) : AttributionTouch :=
  if event.isEdit then Attribute.editTouch touch event updatedAt
  else Attribute.extendTouch touch event updatedAt

end Act

namespace ActCall

def rule (app : App) (call : ActCall) : String × String × Int :=
  Act.applyRoutingRule (Act.decisionOf call.score) (Act.labelOf call.score) app.routingRules

/-- What the call writes of the rows it has loaded. -/
def writes (app : App) (identityId : Uuid) (call : ActCall) (lead : Lead) (route : Route)
    (touch : AttributionTouch) (leadRid routeRid touchRid : Uuid) (now assignedAt updatedAt : Time) :
    List Write :=
  Act.writes call.event identityId (Act.decisionOf call.score)
    (.updated lead (Act.taken call.event lead))
    (.updated route (Act.rerouted (call.rule app) assignedAt route))
    (.updated touch (Act.retouched call.event updatedAt touch)) leadRid routeRid touchRid now

/-- The writes of a call, with the ledgers it has loaded the lead, the route and the touch from. -/
inductive Traced (app : App) (L₀ : Ledger Db Write) (row : Lead) (call : ActCall)
    (L : Ledger Db Write) : List Write → Prop
  | intro {L₁ L₂ L₃ lead route touch leadRid routeRid touchRid now assignedAt updatedAt}
      (hfirst : Extends L₀ L₁) (hsecond : Extends L₁ L₂) (hthird : Extends L₂ L₃)
      (hlast : Extends L₃ L) (hlead : lead ∈ L₁.db .leads) (hid : Lead.id lead = row.id)
      (hroute : route ∈ L₂.db .routes) (hleadId : Route.leadId route = row.id)
      (htouch : touch ∈ L₃.db .attributionTouches)
      (hidentity : AttributionTouch.identityId touch = row.identityId)
      (hassigned : now ≤ assignedAt) (hupdated : now ≤ updatedAt)
      (hspared : Act.taken call.event lead ≠ lead → Spared L₂ L) :
      Traced app L₀ row call L (call.writes app row.identityId lead route touch leadRid routeRid
        touchRid now assignedAt updatedAt)

/-- Others keep the ids of rows apart, and their hands off a lead that the session has written. -/
structure Shares {Q A : Type} (rules : Rules Db Write Q A) (row : Lead) : Prop
    extends Fair rules once where
  distinct : ∀ s L L', rules.rely s L L' → L.db.Distinct → L'.db.Distinct
  spares : ∀ s L L' loaded new, .update .leads loaded new ∈ s.pending → Lead.id loaded = row.id →
    rules.rely s L L' → Spared L L'

section Loads

variable {rules : Rules Db Write Question Reply} {row : Lead} {s : Session Write Reply}

theorem Shares.before_distinct (shares : Shares rules row) {own : List Uuid}
    (h : Before rules own L L') (hdistinct : L.db.Distinct) : L'.db.Distinct := by
  induction h with
  | refl => exact hdistinct
  | tail _ hlast ih =>
      obtain ⟨s, -, hrely⟩ := hlast
      exact shares.distinct s _ _ hrely ih

/-- A call that changes the lead holds its row from the flush on. -/
theorem Shares.guards (shares : Shares rules row) (event : Event) {lead : Lead}
    (hid : lead.id = row.id) (now : Time) :
    Guards rules (saved .leads lead (Act.taken event lead) now) fun L L' =>
      Act.taken event lead ≠ lead → Spared L L' := by
  intro s L L' hheld hrely hchanged
  rw [saved_of_ne (t := .leads) hchanged] at hheld
  exact shares.spares s L L' lead _ (hheld (List.mem_singleton_self _)) hid hrely

/-- The lead, the route and the touch that are there. -/
structure Rows (row : Lead) (db : Db) : Prop where
  distinct : db.Distinct
  lead : ∃ lead ∈ db .leads, Lead.id lead = row.id ∧ Lead.identityId lead = row.identityId
  route : ∃ route ∈ db .routes, Route.leadId route = row.id
  touch : ∃ touch ∈ db .attributionTouches, AttributionTouch.identityId touch = row.identityId

theorem Rows.extends (h : Rows row L.db) (hextends : Extends L L') (hdistinct : L'.db.Distinct) :
    Rows row L'.db := by
  obtain ⟨-, ⟨lead, hlead, hid, hidentity⟩, ⟨route, hroute, hleadId⟩, touch, htouch, howner⟩ := h
  obtain ⟨lead', hlead', hkept⟩ := hextends.exists_kept (t := .leads) hlead
  obtain ⟨route', hroute', hroutes⟩ := hextends.exists_kept (t := .routes) hroute
  obtain ⟨touch', htouch', htouches⟩ := hextends.exists_kept (t := .attributionTouches) htouch
  refine ⟨hdistinct, ⟨lead', hlead', ?_, ?_⟩, ⟨route', hroute', ?_⟩, touch', htouch', ?_⟩
  · exact (hkept.static (Row.static_id .leads)).trans hid
  · have hstatic : Row.Static (t := .leads) Lead.identityId := fun _ _ _ => rfl
    exact (hkept.static hstatic).trans hidentity
  · have hstatic : Row.Static (t := .routes) Route.leadId := fun _ _ _ => rfl
    exact (hroutes.static hstatic).trans hleadId
  · have hstatic : Row.Static (t := .attributionTouches) AttributionTouch.identityId :=
      fun _ _ _ => rfl
    exact (htouches.static hstatic).trans howner

/-- The lead that the lookup finds. -/
theorem Rows.lead_id (h : Rows row L.db) {lead : Lead} (hlead : lead ∈ L.db .leads)
    (hidentity : lead.identityId = row.identityId) : lead.id = row.id := by
  obtain ⟨lead', hlead', hid, hidentity'⟩ := h.lead
  have hkey : Key.leadIdentity lead.identityId ∈ Row.indexed (t := .leads) lead' := by
    rw [Row.indexed, hidentity', hidentity]
    exact List.mem_singleton_self _
  rw [h.distinct.eq_of_indexed (t := .leads) hlead hlead' (List.mem_singleton_self _) hkey, hid]

theorem Rows.lead_identity (h : Rows row L.db) {lead : Lead} (hlead : lead ∈ L.db .leads)
    (hid : lead.id = row.id) : lead.identityId = row.identityId := by
  obtain ⟨lead', hlead', hid', hidentity⟩ := h.lead
  rw [h.distinct.eq_of_id (t := .leads) hlead hlead' (hid.trans hid'.symm), hidentity]

theorem Shares.rows (shares : Shares rules row) {own : List Uuid} (h : Before rules own L L')
    (hrows : Rows row L.db) : Rows row L'.db :=
  hrows.extends (h.toExtends shares.toFair) (shares.before_distinct h hrows.distinct)

/-- The ledger after the commit of a call. -/
def Leaves (app : App) (L₀ : Ledger Db Write) (rules : Rules Db Write Question Reply) (row : Lead)
    (call : ActCall) (L : Ledger Db Write) : Post Db Write Error Reply Act.Acted :=
  fun _ _ L' => ∃ L₁ ws, Before rules [] L L₁ ∧ Traced app L₀ row call L₁ ws ∧ L' = L₁.commit ws

/-- From the route on, a call runs within the bounds of what it holds. -/
theorem wp_rest (shares : Shares rules row) {s₀ : Session Write Reply} {call : ActCall} {lead : Lead}
    {route : Route} {L₁ : Ledger Db Write} {now assignedAt : Time} (hs : Ready s L)
    (hstart : s.start = some now) (hown : s₀.own ⊆ s.own)
    (hpending : s.pending = saved .leads lead (Act.taken call.event lead) now)
    (hrows : Rows row L.db) (hfirst : Extends L₀ L₁) (hsecond : Extends L₁ L)
    (hlead : lead ∈ L₁.db .leads) (hid : lead.id = row.id) (hroute : route ∈ L.db .routes)
    (hleadId : route.leadId = row.id) (hassigned : now ≤ assignedAt)
    (howes : Owes rules s₀ (Traced app L₀ row call)) (acted : AttributionTouch → Act.Acted) :
    wp rules (do
      save .leads .integrityError (Act.taken call.event lead)
        ({ Act.taken call.event lead with status := .routed } : Lead)
      save .routes .integrityError route (Act.rerouted (call.rule app) assignedAt route)
      let touched ← Attribute.upsertAttribution call.event row.identityId
      save .attributionTouches .integrityError touched.1 touched.2
      let _ ← writeReceipt .leadUpdated lead.id .lead (.lead .updated (Act.decisionOf call.score))
        (some call.event.id) (some row.identityId)
      let _ ← writeReceipt .routeUpdated route.id .route
        (.route (call.rule app).1 (call.rule app).2.1 (assignedAt + Act.hours (call.rule app).2.2))
        (some call.event.id) (some row.identityId)
      let _ ← writeReceipt .attributedUpdated touched.2.id .attributionTouch
        (.attributed touched.2.firstTouchAt touched.2.lastTouchAt) (some call.event.id)
        (some row.identityId)
      commitNow
      return acted touched.2) (Leaves app L₀ rules row call L) s L := by
  have fair := shares.toFair
  have hguards := shares.guards call.event hid now
  have hbound : ∀ {own : List Uuid} {L L' : Ledger Db Write}, Before (rules.within fun L L' =>
      Act.taken call.event lead ≠ lead → Spared L L') own L L' →
        Act.taken call.event lead ≠ lead → Spared L L' :=
    Before.bounded (fun _ _ => .refl) fun _ _ _ h h' hchanged => (h hchanged).trans (h' hchanged)
  have hheld : saved .leads lead (Act.taken call.event lead) now ⊆ s.pending := by
    rw [hpending]
    exact fun w hw => hw
  simp only [bind_eq, pure_eq, wp_bind]
  refine hguards.wp_uncommitted (uncommitted_save _ _ _ _) hheld ?_
  refine wp_save_of_ne fair.within hs (by decide) (fun _ => rfl) fun s₁ L₂ now₁ h₁ hheld => ?_
  simp only [Post.andThen_ok, wp_bind]
  refine hguards.wp_uncommitted (uncommitted_save _ _ _ _) hheld ?_
  refine wp_save_of_ne fair.within h₁.ready (by decide) (fun _ => rfl) fun s₂ L₃ now₂ h₂ hheld => ?_
  obtain ⟨rfl, h₂⟩ := h₁.trans h₂
  obtain rfl : now₂ = now := h₂.starts now (by simp [hstart])
  simp only [Post.andThen_ok, wp_bind]
  unfold Attribute.upsertAttribution Attribute.findTouch
  simp only [bind_eq, pure_eq, wp_bind]
  refine hguards.wp_uncommitted (uncommitted_find _ _) hheld ?_
  refine wp_find fair.within h₂.ready ?_ (fun s₃ L₄ now₃ touch h₃ _ hfind hheld => ?_)
    fun s₃ L₄ now₃ h₃ hnone => ?_
  · intro w hw
    rw [h₂.pending, hpending, List.mem_append, List.mem_append] at hw
    rcases hw with hw | hw | hw
    all_goals
      rw [(table_of_mem_saved hw).1]
      simp [Write.table]
  · obtain ⟨rfl, h₃'⟩ := h₂.trans h₃
    simp only [Post.andThen_ok, wp_bind]
    refine hguards.wp_uncommitted (p := utcNow) (fun _ => trivial) hheld ?_
    refine wp_utcNow fair.within h₃.ready fun L₅ updatedAt hbefore₅ hready₅ hread hheld => ?_
    have hupdated : now₃ ≤ updatedAt := hread now₃ (by simp [h₃.start])
    have htouched : (if call.event.isEdit = true then
          ret (touch, Attribute.editTouch touch call.event updatedAt)
        else ret (touch, Attribute.extendTouch touch call.event updatedAt) :
          Prog (AttributionTouch × AttributionTouch)) =
        ret (touch, Act.retouched call.event updatedAt touch) := by
      unfold Act.retouched
      split <;> rfl
    rw [Post.andThen_ok, htouched, wp_ret, Post.andThen_ok]
    have hfinal : ∀ {α : Type} (a : α), (commitNow.bind fun _ => ret a : Prog α).Final :=
      fun a => .inl ⟨a, rfl⟩
    have hbefore : Before (rules.within fun L L' => Act.taken call.event lead ≠ lead → Spared L L')
        s.own L L₅ := h₃'.before.trans (hbefore₅.mono h₃'.own)
    refine hguards.wp_final ((uncommitted_save _ _ _ _).bind_final fun _ =>
      (uncommitted_insert _ _ _).bind_final fun _ => (uncommitted_insert _ _ _).bind_final fun _ =>
        (uncommitted_insert _ _ _).bind_final fun _ => hfinal _) hheld ?_
    refine Act.wp_record fair.within (.updated lead (Act.taken call.event lead))
      (.updated route (Act.rerouted (call.rule app) assignedAt route))
      (.updated touch (Act.retouched call.event updatedAt touch)) hready₅ h₃'.start
      (fun _ hu => h₃'.own (hown hu)) (fun now => ?_) ?_ howes
      (fun L₆ leadRid routeRid touchRid hbefore₆ => ?_) fun s' L₆ ws _ hbefore₆ htraced _ =>
        ⟨L₆, ws, (hbefore.mono (List.nil_subset _)).of_within.trans
          (hbefore₆.mono (List.nil_subset _)).of_within, htraced, rfl⟩
    · simp only [Row.keys, Row.id, Row.indexed, Row.stamp, Upsert.row_updated, Upsert.loaded,
        Act.retouched]
      split <;> simp
    · rw [h₃'.pending, hpending]
      simp [Upsert.inserts, Upsert.loaded, Upsert.row]
    · exact .intro hfirst hsecond (h₃'.before.of_within.toExtends fair)
        ((hbefore₅.of_within.trans hbefore₆.of_within).toExtends fair) hlead hid hroute hleadId
        (List.mem_of_find?_eq_some hfind) (of_decide_eq_true (List.find?_some hfind :)) hassigned
        hupdated fun hchanged => (hbound hbefore hchanged).trans (hbound hbefore₆ hchanged)
  · have hrows := shares.rows (h₂.before.of_within.trans (h₃.before.of_within.mono h₂.own)) hrows
    obtain ⟨touch, htouch, hidentity⟩ := hrows.touch
    exact absurd (decide_eq_true hidentity) (hnone touch htouch)

theorem wp_act (shares : Shares rules row) (hs : s.pending = []) (hrows : Rows row L.db)
    (hextends : Extends L₀ L) {call : ActCall} (howes : Owes rules s (Traced app L₀ row call)) :
    wp rules (Act.act app call.event row.identityId call.score) (Leaves app L₀ rules row call L) s L := by
  have fair := shares.toFair
  unfold Act.act Act.createOrUpdateLead Act.findLead
  simp only [bind_eq, pure_eq, wp_bind]
  refine wp_find fair (.of_idle hs L) (by simp [hs]) (fun s₁ L₁ now₁ lead h₁ _ hfind => ?_)
    fun s₁ L₁ now₁ h₁ hnone => ?_
  · have hrows := shares.rows h₁.before hrows
    have hlead : lead ∈ L₁.db .leads := List.mem_of_find?_eq_some hfind
    have hid : lead.id = row.id :=
      hrows.lead_id hlead (of_decide_eq_true (List.find?_some hfind :))
    simp only [Post.andThen_ok, wp_ret]
    unfold Act.routeLead Act.findRoute
    simp only [bind_eq, pure_eq, wp_bind]
    refine wp_utcNow fair h₁.ready fun L₂ assignedAt hbefore₂ hready₂ hread => ?_
    have hassigned : now₁ ≤ assignedAt := hread now₁ (by simp [h₁.start])
    have hrows := shares.rows hbefore₂ hrows
    simp only [Post.andThen_ok, wp_bind]
    refine wp_save_of_ne fair hready₂ (by decide)
      (fun now => by simp [Row.keys, Row.id, Row.indexed, Row.stamp]) fun s₂ L₃ now₂ h₂ => ?_
    obtain rfl : now₂ = now₁ := h₂.starts now₁ (by simp [h₁.start])
    have hrows := shares.rows h₂.before hrows
    have hguards := shares.guards call.event hid now₂
    have hheld : saved .leads lead (Act.taken call.event lead) now₂ ⊆ s₂.pending := by
      rw [h₂.pending]
      exact fun w hw => List.mem_append_right _ hw
    simp only [Post.andThen_ok, wp_bind]
    refine hguards.wp_uncommitted (uncommitted_find _ _) hheld ?_
    refine wp_find fair.within h₂.ready ?_ (fun s₃ L₄ now₃ route h₃ _ hfind₃ hheld => ?_)
      fun s₃ L₄ now₃ h₃ hnone => ?_
    · intro w hw
      rw [h₂.pending, h₁.pending, hs] at hw
      simp only [List.nil_append] at hw
      rw [(table_of_mem_saved hw).1]
      simp [Write.table]
    · obtain rfl : now₃ = now₂ := h₃.starts now₂ (by simp [h₂.start])
      simp only [Post.andThen_ok, wp_ret, reduceCtorEq, if_false]
      have hsecond : Extends L₁ L₃ := (hbefore₂.toExtends fair).trans (h₂.before.toExtends fair)
      have hroute : route ∈ L₄.db .routes := List.mem_of_find?_eq_some hfind₃
      have hleadId : route.leadId = lead.id := of_decide_eq_true (List.find?_some hfind₃ :)
      have hbefore : Before rules [] L L₄ :=
        (h₁.before.mono (List.nil_subset _)).trans ((hbefore₂.mono (List.nil_subset _)).trans
          ((h₂.before.mono (List.nil_subset _)).trans (h₃.before.of_within.mono (List.nil_subset _))))
      have hpending : s₃.pending = saved .leads lead (Act.taken call.event lead) now₃ := by
        rw [h₃.pending, h₂.pending, h₁.pending, hs, List.nil_append, List.nil_append, List.append_nil]
        rfl
      have hrest := wp_rest shares h₃.ready h₃.start (fun _ hu => h₃.own (h₂.own (h₁.own hu))) hpending
        (shares.rows h₃.before.of_within hrows) (hextends.trans (h₁.before.toExtends fair))
        (hsecond.trans (h₃.before.of_within.toExtends fair)) hlead hid hroute (hleadId.trans hid)
        hassigned howes fun touch =>
          { leadId := lead.id, leadOp := .updated, routeId := route.id, queue := (call.rule app).1
            ruleMatched := (call.rule app).2.1
            slaDeadline := assignedAt + Act.hours (call.rule app).2.2
            decision := Act.decisionOf call.score, attributionTouchId := touch.id }
      refine wp_mono ?_ hrest
      rintro r s' L' ⟨L₅, ws, h, htraced, heq⟩
      exact ⟨L₅, ws, hbefore.trans h, htraced, heq⟩
    · have hrows := shares.rows h₃.before.of_within hrows
      obtain ⟨route, hroute, hleadId⟩ := hrows.route
      exact absurd (decide_eq_true (hleadId.trans hid.symm)) (hnone route hroute)
  · have hrows := shares.rows h₁.before hrows
    obtain ⟨lead, hlead, -, hidentity⟩ := hrows.lead
    exact absurd (decide_eq_true hidentity) (hnone lead hlead)

end Loads

/-! ### The calls of one identity -/

/-- What a call may commit. -/
def Commits (app : App) (L₀ : Ledger Db Write) (row : Lead) (call : ActCall)
    (s : Session Write Reply) (L : Ledger Db Write) : Prop :=
  Ready s L ∧ Traced app L₀ row call L s.pending

/-- The calls of `act` for an identity. -/
def acting (app : App) (identityId : Uuid) :
    Service ActCall Db Write Error Question Reply Act.Acted where
  program call := Act.act app call.event identityId call.score

variable {row : Lead} {call : ActCall}

/-- A call writes its lead if it changes it, and no other. -/
theorem mem_writes_leads {identityId : Uuid} {lead : Lead} {route : Route} {touch : AttributionTouch}
    {leadRid routeRid touchRid : Uuid} {now assignedAt updatedAt : Time} {w : Write}
    (hw : w ∈ call.writes app identityId lead route touch leadRid routeRid touchRid now assignedAt
      updatedAt) (htable : w.table = .leads) :
    w = .update .leads lead (Row.stamp (t := .leads) (Act.taken call.event lead) now) ∧
      Act.taken call.event lead ≠ lead := by
  have hmem : w ∈ (call.writes app identityId lead route touch leadRid routeRid touchRid now assignedAt
      updatedAt).filter fun w => w.table = .leads := List.mem_filter.mpr ⟨hw, decide_eq_true htable⟩
  rw [ActCall.writes, Act.writes_leads, List.mem_append] at hmem
  rcases hmem with hmem | hmem
  · obtain ⟨_, heq, -⟩ | ⟨_, _, heq, hne, hw⟩ := Upsert.mem_writes hmem
    · cases heq
    · cases heq
      exact ⟨hw, hne⟩
  · rw [saved_self (by rfl)] at hmem
    exact absurd hmem List.not_mem_nil

theorem shares_beside (app : App) (L₀ : Ledger Db Write) (row : Lead) (call : ActCall) :
    Shares (beside (acting app row.identityId) (Commits app L₀ row) call) row := by
  have fair : Fair (among (acting app row.identityId) (fun s L => ∃ call, Commits app L₀ row call s L)
      (fun _ _ _ => True) call) once :=
    fair_among (fun s L ⟨_, hready, _⟩ => hready) (fun _ _ _ _ _ _ _ => trivial) call
  refine ⟨⟨fair.toLawful, fair.ready, fair.unused, fair.history, fair.stable, fair.alone,
    fair.refusals⟩, fun s L L' hrely hdistinct => ?_, fun s L L' loaded new hpending hid hrely => ?_⟩
  · refine amid_induct hrely (fun L => L.db.Distinct) hdistinct fun L₁ L₂ hdistinct hstep => ?_
    obtain ⟨other, ⟨_, hready, -⟩, -, -, rfl⟩ := hstep
    exact hdistinct.foldl hready.toApplicable
  · refine Relation.ReflTransGen.mono (fun L₁ L₂ hstep => ?_) _ _ hrely
    obtain ⟨other, ⟨call', -, htraced⟩, hlocks, -, rfl⟩ := hstep
    refine ⟨other.pending, fun w hw htable => ?_, rfl⟩
    generalize other.pending = ws at htraced hw hlocks
    cases htraced with
    | @intro _ _ _ lead _ _ _ _ _ now _ _ _ _ _ _ _ hlead =>
        obtain ⟨rfl, -⟩ := mem_writes_leads hw htable
        have hlock : Key.row .leads row.id ∈ Db.locks (.update .leads loaded new) := by
          rw [← hid]
          exact List.mem_cons_self ..
        refine hlocks _ hw (.row .leads row.id) ?_ _ hpending hlock
        rw [← hlead]
        exact List.mem_cons_self ..

theorem withholds_createOrUpdateLead (event : Event) (identityId : Uuid) :
    (Act.createOrUpdateLead event identityId).Withholds := by
  intro lead
  cases lead with
  | some lead => trivial
  | none =>
      intro id r
      cases r with
      | some lead => trivial
      | none =>
          intro lead
          cases lead <;> trivial

theorem withholds_routeLead (loaded lead : Lead) (decision label : String) :
    (Act.routeLead app loaded lead decision label).Withholds := by
  intro now r
  cases r with
  | none => trivial
  | some u =>
      intro route
      cases route with
      | some route => trivial
      | none =>
          intro id r
          cases r with
          | some route => trivial
          | none =>
              intro route
              cases route <;> trivial

theorem withholds_upsertAttribution (event : Event) (identityId : Uuid) :
    (Attribute.upsertAttribution event identityId).Withholds := by
  intro touch
  cases touch with
  | some touch =>
      intro now
      cases event.isEdit <;> trivial
  | none =>
      intro id r
      cases r with
      | some touch => trivial
      | none =>
          intro touch
          cases touch <;> trivial

/-- A call returns only once it has committed. -/
theorem settles_act (identityId : Uuid) : ((acting app identityId).program call).Settles := by
  refine (withholds_createOrUpdateLead _ _).bind_settles fun ⟨loadedLead, lead, leadOp⟩ => ?_
  refine (withholds_routeLead _ _ _ _).bind_settles fun ⟨loadedRoute, route, routeOp⟩ => ?_
  refine (uncommitted_save _ _ _ _).withholds.bind_settles fun _ => ?_
  refine (uncommitted_save _ _ _ _).withholds.bind_settles fun _ => ?_
  refine (withholds_upsertAttribution _ _).bind_settles fun ⟨loadedTouch, touch⟩ => ?_
  refine (uncommitted_save _ _ _ _).withholds.bind_settles fun _ => ?_
  refine (uncommitted_insert _ _ _).withholds.bind_settles fun _ => ?_
  refine (uncommitted_insert _ _ _).withholds.bind_settles fun _ => ?_
  refine (uncommitted_insert _ _ _).withholds.bind_settles fun _ => ?_
  exact .inl ⟨_, rfl⟩

/-- Every commit of the calls has an author of its own, and is traced. -/
theorem census (hrows : Rows row L₀.db)
    {config : Config ActCall Db Write Error Question Reply Act.Acted}
    (h : Reachable (acting app row.identityId) L₀ config) :
    ∃ authors inputs, Census (acting app row.identityId) (Commits app L₀ row) L₀ config authors
      inputs := by
  have hinv : ∀ call s L, Rows row L.db ∧ Extends L₀ L → Commits app L₀ row call s L →
      Rows row (L.commit s.pending).db ∧ Extends L₀ (L.commit s.pending) := by
    rintro call s L ⟨hrows, hextends⟩ ⟨hready, -⟩
    have hcommit := Extends.commit L s.pending
    exact ⟨hrows.extends hcommit (hrows.distinct.foldl hready.toApplicable), hextends.trans hcommit⟩
  exact h.census hinv (fun call L ⟨hrows, hextends⟩ => wp_mono (fun _ _ _ _ => trivial)
    (wp_act (shares_beside app L₀ row call) rfl hrows hextends fun s L _ hready htraced =>
      ⟨hready, htraced⟩)) (fun _ => settles_act _) ⟨hrows, .refl⟩

/-! ### A call alone -/

theorem shares_alone {Answers : Question → Reply → Prop}
    {commits : Session Write Reply → Ledger Db Write → Prop} (row : Lead) :
    Shares (alone Answers commits) row := by
  have hsame : ∀ {s : Session Write Reply} {L L' : Ledger Db Write},
      (alone Answers commits).rely s L L' → L' = L := fun h => h
  refine ⟨⟨lawful_once, fun s L L' h hs => ?_, fun s L L' u h hu hunused => ?_, fun s L L' h => ?_,
    fun P s L L' h hL => ?_, fun h => absurd trivial h, fun _ _ _ _ _ _ _ => trivial⟩,
    fun s L L' h hdistinct => ?_, fun s L L' _ _ _ _ h => ?_⟩
  all_goals rw [hsame h]
  · exact hs
  · exact hunused
  · exact .refl
  · exact hL
  · exact hdistinct
  · exact .refl

/-- A call that runs alone commits, and what it commits is traced. -/
theorem runs_traced (hrows : Rows row L.db) {r : Except Error Act.Acted} {s : Session Write Reply}
    (hrun : Runs ((acting app row.identityId).solo call) {} L ((acting app row.identityId).program call)
      r s L') : ∃ ws, Traced app L row call L ws ∧ L' = L.commit ws := by
  obtain ⟨L₁, ws, hbefore, htraced, rfl⟩ := hrun.of_wp (Leaves app L _ row call L)
    (wp_act (shares_alone row) rfl hrows .refl fun _ _ _ _ _ => trivial)
  obtain rfl := before_alone.mp hbefore
  exact ⟨ws, htraced, rfl⟩

section Alone

variable {s : Session Write Reply} {now : Time}

/-- The session after writes of its transaction. -/
def put (s : Session Write Reply) (now : Time) (ws : List Write) : Session Write Reply :=
  { s with pending := s.pending ++ ws, start := some now }

theorem startsAt_put (s : Session Write Reply) (now : Time) (ws : List Write) :
    (put s now ws).StartsAt now := fun _ hstart => Option.some.inj hstart

theorem runs_find {t : Table} {p : Row t → Bool} {r : Option (Row t)} (hstart : s.StartsAt now)
    (huntouched : ∀ w ∈ s.pending, w.table ≠ t) (hfind : (L.db t).find? p = r) :
    Runs {} s L (find t p : Prog (Option (Row t))) (.ok r) (put s now []) L := by
  have hput : put s now [] = s.begin now := by simp [put, Session.begin]
  rw [← hfind, ← view_of_untouched huntouched, hput]
  exact .move (.read hstart trivial) .ret

theorem runs_utcNow {t : Time} (hread : s.MayRead t) :
    Runs {} s L (utcNow : Prog Time) (.ok t) s L := .move (.now hread) .ret

theorem runs_save {t : Table} {x : Error} {loaded new : Row t} (hstart : s.StartsAt now)
    (hkeys : (new.stamp now).keys ⊆ loaded.keys) :
    Runs {} s L (save t x loaded new : Prog Unit) (.ok ()) (put s now (saved t loaded new now)) L := by
  by_cases hnew : new = loaded
  · have hput : put s now (saved t loaded new now) = s.begin now := by
      simp [put, Session.begin, saved_self hnew]
    rw [hput]
    exact .move (.skipped hstart (by rw [if_pos hnew]) trivial) .ret
  · have hput : put s now (saved t loaded new now) =
        (s.begin now).add (.update t loaded (new.stamp now)) := by
      rw [saved_of_ne hnew]
      rfl
    have haccept : Store.refuses (s.view L.db) (.update t loaded (new.stamp now)) = false := by
      change (new.stamp now).keys.any (fun key => key ∉ loaded.keys && _) = false
      rw [List.any_eq_false]
      intro key hkey
      simp [hkeys hkey]
    rw [hput]
    exact .move (.wrote hstart (by rw [if_neg hnew]) haccept (fun _ _ => id) trivial) .ret

theorem runs_writeReceipt {actionType : ActionType} {entityId : Uuid} {entityType : EntityType}
    {data : Meta} {eventId identityId : Option Uuid} {status : ReceiptStatus} (rid : Uuid)
    (hstart : s.StartsAt now) (hunused : ¬ L.db.InUse rid) (hown : rid ∉ s.own)
    (hids : insertIds s.pending ⊆ s.own) :
    Runs {} s L (writeReceipt actionType entityId entityType data eventId identityId status)
      (.ok (receipt actionType entityId entityType data eventId identityId status rid now))
      (put (s.draw rid) now [.insert .receipts
        (receipt actionType entityId entityType data eventId identityId status rid now)]) L := by
  have hview : ¬ (s.view L.db).InUse rid := fun hused =>
    (Db.inUse_foldl hused).elim hunused fun hmem => hown (hids hmem)
  refine .move (.uuid hunused hown not_false) (.move (.wrote hstart rfl ?_ (fun _ _ => id) trivial) .ret)
  change List.any [Key.row .receipts rid] ((s.view L.db).holds .receipts) = false
  rw [List.any_cons, List.any_nil, holds_row_of_not_inUse hview]
  rfl

theorem find?_eq_some {t : Table} {p : Row t → Bool} {found : Row t} (hfound : found ∈ L.db t)
    (hp : p found = true) (hunique : ∀ other ∈ L.db t, p other = true → other = found) :
    (L.db t).find? p = some found := by
  cases hfind : (L.db t).find? p with
  | none => exact absurd hp (List.find?_eq_none.mp hfind found hfound)
  | some other =>
      rw [hunique other (List.mem_of_find?_eq_some hfind) (List.find?_some hfind)]

theorem runs_createOrUpdateLead (now : Time) {event : Event} {identityId : Uuid} {lead : Lead}
    (hstart : s.StartsAt now) (huntouched : ∀ w ∈ s.pending, w.table ≠ .leads)
    (hfind : (L.db .leads).find? (fun lead => Lead.identityId lead = identityId) = some lead) :
    Runs {} s L (Act.createOrUpdateLead event identityId)
      (.ok (lead, Act.taken event lead, .updated)) (put s now []) L :=
  Runs.bind_ok (runs_find hstart huntouched hfind) .ret

theorem runs_routeLead {event : Event} {lead : Lead} {route : Route} {decision label : String}
    {assignedAt : Time} (hstart : s.start = some now) (hassigned : now ≤ assignedAt)
    (huntouched : ∀ w ∈ s.pending, w.table ≠ .routes)
    (hfind : (L.db .routes).find? (fun route => Route.leadId route = lead.id) = some route) :
    Runs {} s L (Act.routeLead app lead (Act.taken event lead) decision label)
      (.ok (route, Act.rerouted (Act.applyRoutingRule decision label app.routingRules) assignedAt route,
        .updated)) (put (put s now (saved .leads lead (Act.taken event lead) now)) now []) L := by
  have hread : s.MayRead assignedAt := by simpa [Session.MayRead, hstart] using hassigned
  have hstarts : s.StartsAt now := by simp [Session.StartsAt, hstart]
  refine Runs.bind_ok (runs_utcNow hread) (Runs.bind_ok (runs_save hstarts (fun _ h => h)) ?_)
  refine Runs.bind_ok (runs_find (startsAt_put _ _ _) (fun w hw => ?_) hfind) .ret
  rcases List.mem_append.mp hw with hw | hw
  · exact huntouched w hw
  · rw [(table_of_mem_saved hw).1]
    simp [Write.table]

theorem runs_upsertAttribution {event : Event} {identityId : Uuid} {touch : AttributionTouch}
    {updatedAt : Time} (hstart : s.start = some now) (hupdated : now ≤ updatedAt)
    (huntouched : ∀ w ∈ s.pending, w.table ≠ .attributionTouches)
    (hfind : (L.db .attributionTouches).find?
      (fun touch => AttributionTouch.identityId touch = identityId) = some touch) :
    Runs {} s L (Attribute.upsertAttribution event identityId)
      (.ok (touch, Act.retouched event updatedAt touch)) (put s now []) L := by
  have hstarts : s.StartsAt now := by simp [Session.StartsAt, hstart]
  have hread : (put s now []).MayRead updatedAt := by simpa [Session.MayRead, put] using hupdated
  refine Runs.bind_ok (runs_find hstarts huntouched hfind) (Runs.bind_ok (runs_utcNow hread) ?_)
  unfold Act.retouched
  cases event.isEdit <;> exact .ret

/-- What a call of an identity alone does with the rows it finds. -/
theorem runs_act (app : App) (call : ActCall) (hrows : Rows row L.db) {lead : Lead} (hlead : lead ∈ L.db .leads)
    (hid : lead.id = row.id) {route : Route} (hroute : route ∈ L.db .routes)
    (hleadId : route.leadId = row.id) {touch : AttributionTouch}
    (htouch : touch ∈ L.db .attributionTouches) (hidentity : touch.identityId = row.identityId)
    {now assignedAt updatedAt : Time} (hassigned : now ≤ assignedAt) (hupdated : now ≤ updatedAt)
    {leadRid routeRid touchRid : Uuid} (hnodup : [leadRid, routeRid, touchRid].Nodup)
    (hunused : ∀ rid ∈ [leadRid, routeRid, touchRid], ¬ L.db.InUse rid) :
    ∃ acted s, Runs ((acting app row.identityId).solo call) {} L
      ((acting app row.identityId).program call) (.ok acted) s
      (L.commit (call.writes app row.identityId lead route touch leadRid routeRid touchRid now
        assignedAt updatedAt)) := by
  have hlead' : lead.identityId = row.identityId := hrows.lead_identity hlead hid
  have hfindLead : (L.db .leads).find? (fun lead => Lead.identityId lead = row.identityId) =
      some lead := by
    refine find?_eq_some hlead (decide_eq_true hlead') fun other hother hp => ?_
    have hkey : Key.leadIdentity (Lead.identityId other) ∈ Row.indexed (t := .leads) lead := by
      rw [of_decide_eq_true hp, ← hlead']
      exact List.mem_singleton_self _
    exact hrows.distinct.eq_of_indexed (t := .leads) hother hlead (List.mem_singleton_self _) hkey
  have hfindRoute : (L.db .routes).find? (fun route => Route.leadId route = lead.id) = some route := by
    refine find?_eq_some hroute (decide_eq_true (hleadId.trans hid.symm)) fun other hother hp => ?_
    have hkey : Key.routeLead (Route.leadId other) ∈ Row.indexed (t := .routes) route := by
      rw [of_decide_eq_true hp, hid, ← hleadId]
      exact List.mem_singleton_self _
    exact hrows.distinct.eq_of_indexed (t := .routes) hother hroute (List.mem_singleton_self _) hkey
  have hfindTouch : (L.db .attributionTouches).find?
      (fun touch => AttributionTouch.identityId touch = row.identityId) = some touch := by
    refine find?_eq_some htouch (decide_eq_true hidentity) fun other hother hp => ?_
    have hkey : Key.touchIdentity (AttributionTouch.identityId other) ∈
        Row.indexed (t := .attributionTouches) touch := by
      rw [of_decide_eq_true hp, ← hidentity]
      exact List.mem_singleton_self _
    exact hrows.distinct.eq_of_indexed (t := .attributionTouches) hother htouch
      (List.mem_singleton_self _) hkey
  have hrun : ∃ acted s ws, Runs {} {} L (Act.act app call.event row.identityId call.score) (.ok acted) s
      (L.commit ws) ∧ ws = call.writes app row.identityId lead route touch leadRid routeRid touchRid now
        assignedAt updatedAt := by
    have h₁ : Runs {} {} L (Act.createOrUpdateLead call.event row.identityId) _ _ L :=
      runs_createOrUpdateLead now (by simp [Session.StartsAt]) (by simp) hfindLead
    have h₂ : Runs {} (put {} now []) L (Act.routeLead app lead (Act.taken call.event lead)
        (Act.decisionOf call.score) (Act.labelOf call.score)) _ _ L :=
      runs_routeLead rfl hassigned (by simp [put]) hfindRoute
    have hcons : ∀ {t : Table} (row : Row t) (ws : List Write),
        insertIds (.insert t row :: ws) = row.id :: insertIds ws := fun _ _ => rfl
    have hnil : insertIds [] = [] := rfl
    obtain ⟨⟨hroute, htouch⟩, hlast⟩ : (leadRid ≠ routeRid ∧ leadRid ≠ touchRid) ∧ routeRid ≠ touchRid := by
      simpa using hnodup
    refine ⟨_, _, _, h₁.bind_ok (h₂.bind_ok ((runs_save (startsAt_put _ _ _) ?_).bind_ok
      ((runs_save (startsAt_put _ _ _) ?_).bind_ok ((runs_upsertAttribution rfl hupdated ?_
        hfindTouch).bind_ok ((runs_save (startsAt_put _ _ _) ?_).bind_ok
          ((runs_writeReceipt leadRid (startsAt_put _ _ _) ?_ ?_ ?_).bind_ok
            ((runs_writeReceipt routeRid (startsAt_put _ _ _) ?_ ?_ ?_).bind_ok
              ((runs_writeReceipt touchRid (startsAt_put _ _ _) ?_ ?_ ?_).bind_ok
                (.move .commit .ret))))))))), ?_⟩
    · exact fun _ h => h
    · exact fun _ h => h
    · intro w hw
      simp only [put, List.mem_append, List.not_mem_nil, false_or, or_false] at hw
      obtain (hw | hw) | hw := hw
      all_goals
        rw [(table_of_mem_saved hw).1]
        simp [Write.table]
    · simp only [Row.keys, Row.id, Row.indexed, Row.stamp, Act.retouched]
      split <;> simp
    · exact hunused _ (by simp)
    · simp [put]
    · simp [put, insertIds_saved]
    · exact hunused _ (by simp)
    · simpa [put, Session.draw] using hroute.symm
    · simp [put, Session.draw, insertIds_saved, hcons, hnil, Row.id, receipt]
    · exact hunused _ (by simp)
    · simpa [put, Session.draw] using ⟨hlast.symm, htouch.symm⟩
    · simp [put, Session.draw, insertIds_saved, hcons, hnil, Row.id, receipt]
    · simp only [put, Session.draw, List.nil_append, List.append_nil, List.append_assoc, ActCall.writes, Act.writes, Upsert.inserts_updated, List.cons_append]
      rfl
  obtain ⟨acted, s, ws, hrun, rfl⟩ := hrun
  exact ⟨acted, s, hrun⟩

end Alone

/-! ### The same but for times -/

section Writes

variable {loaded lead : Lead} {route : Route} {touch : AttributionTouch}
  {leadRid routeRid touchRid : Uuid} {now assignedAt updatedAt : Time}

/-- The leads after a call, if it has loaded its lead as it is or changes it anyway. -/
theorem leads_writes (hid : loaded.id = row.id)
    (hloaded : ∀ current ∈ L.db .leads, Lead.id current = row.id → current = loaded ∨
      call.event.id ≠ loaded.sourceEventId ∧ Lead.status current = .routed) :
    ((L.commit (call.writes app row.identityId loaded route touch leadRid routeRid touchRid now
      assignedAt updatedAt)).db .leads).map Lead.undated = (L.db .leads).map fun current =>
        if Lead.id current = row.id then (Act.taken call.event current).undated
        else Lead.undated current := by
  rw [commit_rows, ActCall.writes, Act.writes_leads, saved_self (by rfl), List.append_nil,
    Upsert.writes_updated]
  by_cases htaken : Act.taken call.event loaded = loaded
  · rw [saved_self htaken, List.foldl_nil]
    refine List.map_congr_left fun current hcurrent => ?_
    by_cases hsame : Lead.id current = row.id
    · rw [if_pos hsame]
      obtain rfl | ⟨hne, -⟩ := hloaded current hcurrent hsame
      · rw [htaken]
      · exact absurd (congrArg Lead.sourceEventId htaken) hne
    · rw [if_neg hsame]
  · rw [saved_of_ne htaken, List.foldl_cons, List.foldl_nil, Db.apply_update_self, Db.updated,
      List.map_map]
    refine List.map_congr_left fun current hcurrent => ?_
    rw [Function.comp_apply]
    by_cases hsame : Lead.id current = row.id
    · rw [if_pos hsame, if_pos (show Row.id (t := .leads) current = Row.id (t := .leads) loaded from
        hsame.trans hid.symm)]
      obtain rfl | ⟨hne, hstatus⟩ := hloaded current hcurrent hsame
      · simp [Row.merge, Row.stamp, Lead.undated, Act.taken]
      · simp [Row.merge, Row.stamp, Row.column, Lead.undated, Act.taken, hne, hstatus]
    · rw [if_neg hsame, if_neg fun h : Row.id (t := .leads) current = Row.id (t := .leads) loaded =>
        hsame (h.trans hid)]

/-- Of the other tables a call writes the same, whichever version of its lead it has loaded. -/
theorem others_writes (hid : loaded.id = lead.id) {t : Table} (ht : t ≠ .leads) :
    (L.commit (call.writes app row.identityId loaded route touch leadRid routeRid touchRid now
      assignedAt updatedAt)).db t =
    (L.commit (call.writes app row.identityId lead route touch leadRid routeRid touchRid now
      assignedAt updatedAt)).db t := by
  have htaken : (Act.taken call.event loaded).id = (Act.taken call.event lead).id := hid
  simp only [commit_rows, ActCall.writes, Act.writes, Upsert.inserts_updated, Upsert.row_updated,
    Upsert.op_updated, Upsert.loaded, List.filter_append, filter_saved_of_ne ht.symm, htaken]
  rfl

/-- The receipts of a call are its inserts. -/
theorem insertIds_writes : insertIds (call.writes app row.identityId loaded route touch leadRid routeRid
    touchRid now assignedAt updatedAt) = [leadRid, routeRid, touchRid] := by
  simp only [ActCall.writes, Act.writes, Upsert.inserts_updated, insertIds_append, insertIds_saved]
  rfl

/-- A call that has loaded the route and the touch as they are does what it would do alone. -/
theorem runs_alike (hrows : Rows row L.db) (hid : loaded.id = row.id)
    (hloaded : ∀ current ∈ L.db .leads, Lead.id current = row.id → current = loaded ∨
      call.event.id ≠ loaded.sourceEventId ∧ Lead.status current = .routed)
    (hroute : route ∈ L.db .routes) (hleadId : route.leadId = row.id)
    (htouch : touch ∈ L.db .attributionTouches) (hidentity : touch.identityId = row.identityId)
    (hassigned : now ≤ assignedAt) (hupdated : now ≤ updatedAt)
    (happ : Applicable (call.writes app row.identityId loaded route touch leadRid routeRid touchRid now
      assignedAt updatedAt) L.db) :
    ∃ acted s L', Runs ((acting app row.identityId).solo call) {} L
        ((acting app row.identityId).program call) (.ok acted) s L' ∧
      Alike L'.db (L.commit (call.writes app row.identityId loaded route touch leadRid routeRid touchRid
        now assignedAt updatedAt)).db := by
  obtain ⟨lead, hlead, hleadRow, -⟩ := hrows.lead
  have hunique : ∀ current ∈ L.db .leads, Lead.id current = row.id → current = lead :=
    fun current hcurrent hsame =>
      hrows.distinct.eq_of_id (t := .leads) hcurrent hlead (hsame.trans hleadRow.symm)
  obtain ⟨acted, s, hrun⟩ := runs_act app call hrows hlead hleadRow hroute hleadId
    htouch hidentity hassigned hupdated (insertIds_writes ▸ happ.nodup) (insertIds_writes ▸ happ.unused)
  refine ⟨acted, s, _, hrun, ?_, fun t ht => others_writes (hleadRow.trans hid.symm) ht⟩
  rw [leads_writes hid hloaded, leads_writes hleadRow fun current hcurrent hsame =>
    .inl (hunique current hcurrent hsame)]

end Writes

end ActCall

end DemandSignal
