import DemandSignal.Spec.Decisions
import DemandSignal.Spec.Routes
import DemandSignal.Txn.Clock

/-!
# Deadlines

A reader flags the routes that it finds past their deadlines and records the deadlines it has seen. A
flag says that the deadline in force has passed as long as nobody moves the deadline of a flagged route.
-/

namespace DemandSignal

open Txn Program

variable {app : App} {L L' : Ledger Db Write} {ws : List Write} {t : Time}

/-- The deadline an `escalated` receipt records. -/
def Meta.slaDeadline : Meta → Option Time
  | .escalated _ _ slaDeadline _ => some slaDeadline
  | _ => none

/-- The breach of the route's deadline has a receipt. -/
def Db.Receipted (db : Db) (route : Route) : Prop :=
  ∃ receipt ∈ db .receipts, Receipt.actionType receipt = .escalated ∧
    Receipt.entityId receipt = route.id ∧
    Meta.slaDeadline (Receipt.metadata receipt) = some route.slaDeadline

/-- Every flagged route is past its deadline, and has a receipt of it. -/
def Db.Overdue (db : Db) (t : Time) : Prop :=
  ∀ route ∈ db .routes, Route.escalated route = true →
    Route.slaDeadline route < t ∧ db.Receipted route

theorem Db.Receipted.mono {db db' : Db} {route route' : Route} (h : db.Receipted route)
    (hreceipts : db .receipts ⊆ db' .receipts) (hid : route'.id = route.id)
    (hdeadline : route'.slaDeadline = route.slaDeadline) : db'.Receipted route' := by
  obtain ⟨receipt, hmem, haction, hentity, hmeta⟩ := h
  exact ⟨receipt, hreceipts hmem, haction, hentity.trans hid.symm, by rw [hmeta, hdeadline]⟩

theorem Db.Overdue.later {db : Db} {t' : Time} (h : db.Overdue t) (ht : t ≤ t') : db.Overdue t' :=
  fun route hroute hescalated =>
    ⟨lt_of_lt_of_le (h route hroute hescalated).1 ht, (h route hroute hescalated).2⟩

/-- Receipts stay. -/
theorem receipts_subset_commit (L : Ledger Db Write) (ws : List Write) :
    L.db .receipts ⊆ (L.commit ws).db .receipts := by
  intro receipt hreceipt
  obtain ⟨current, hcurrent, hkept⟩ := Db.exists_kept ws hreceipt
  have hstatic : Row.Static (t := .receipts) (id : Receipt → Receipt) := fun _ _ _ => rfl
  have heq : current = receipt := hkept.static hstatic
  rw [← heq]
  exact hcurrent

/-- No `UPDATE` of the transaction moves the deadline of a flagged route. -/
def Steady (ws : List Write) : Prop :=
  ∀ p ∈ updates .routes ws, Route.escalated p.1 = true →
    Route.slaDeadline p.2 = Route.slaDeadline p.1

instance (ws : List Write) : Decidable (Steady ws) := by unfold Steady; infer_instance

theorem overdue_of_names {ts : List Table} (h : L.db.Overdue t) (hnames : Names ws ts)
    (hroutes : .routes ∉ ts) : (L.commit ws).db.Overdue t := by
  intro route hroute hescalated
  rw [commit_of_untouched (hnames.ne hroutes)] at hroute
  obtain ⟨hpast, hreceipted⟩ := h route hroute hescalated
  exact ⟨hpast, hreceipted.mono (receipts_subset_commit L ws) rfl rfl⟩

/-- A new route is not flagged, and an old one keeps its flag, and its deadline if it has one. -/
theorem overdue_of_acts {event : Event} {identityId : Uuid} {score : Option Score}
    (h : L.db.Overdue t) (hacts : Act.Acts app still L event identityId score ws)
    (hdistinct : L.db.Distinct) (hsteady : Steady ws) : (L.commit ws).db.Overdue t := by
  obtain @⟨lead, route, touch, leadRid, routeRid, touchRid, now, assignedAt, updatedAt, hacts⟩ := hacts
  obtain ⟨-, -, -, hsets⟩ := hacts.routed.sets hdistinct Act.writes_routes
  intro current hcurrent hescalated
  obtain rfl | ⟨hold, -⟩ := (hsets current).mp hcurrent
  · have hrouted := hacts.routed
    cases route with
    | created row =>
        obtain ⟨-, heq⟩ := hrouted
        rw [Upsert.row_created, heq] at hescalated
        cases hescalated
    | updated loaded new =>
        obtain ⟨hloaded, -, hnew⟩ := hrouted
        rw [Upsert.row_updated] at hescalated ⊢
        have hflagged : Route.escalated loaded = true := by
          rw [hnew] at hescalated
          exact hescalated
        obtain ⟨hpast, hreceipted⟩ := h loaded hloaded hflagged
        have hdeadline : Route.slaDeadline new = Route.slaDeadline loaded := by
          by_cases hsame : new = loaded
          · rw [hsame]
          · refine hsteady (loaded, new) (mem_updates.mpr ?_) hflagged
            rw [← List.mem_filter (p := fun w => decide (w.table = .routes)) |>.trans
              (and_iff_left (decide_eq_true rfl)), Act.writes_routes, Upsert.writes_updated,
              saved_of_ne hsame]
            exact List.mem_singleton_self _
        rw [hdeadline]
        refine ⟨hpast, hreceipted.mono (receipts_subset_commit L _) ?_ hdeadline⟩
        rw [hnew]
  · obtain ⟨hpast, hreceipted⟩ := h current hold hescalated
    exact ⟨hpast, hreceipted.mono (receipts_subset_commit L _) rfl rfl⟩

/-! ### Requests that do not read -/

/-- Every transaction of the ledger is steady. -/
def Ledger.Steady (L : Ledger Db Write) : Prop := ∀ commit ∈ L.log, DemandSignal.Steady commit.writes

theorem Ledger.Steady.of_extends (h : Ledger.Steady L') (hextends : Extends L L') :
    Ledger.Steady L := by
  induction hextends with
  | refl => exact h
  | tail _ hlast ih =>
      obtain ⟨ws, rfl⟩ := hlast
      exact ih fun commit hcommit => h commit (List.mem_append_left _ hcommit)

theorem Ledger.Steady.last (h : Ledger.Steady (L.commit ws)) : DemandSignal.Steady ws :=
  h _ (List.mem_append_right _ (List.mem_singleton_self _))

theorem Accepted.overdue {model : EventIn} {payload : Json.Fields} {event : Event}
    {status : Ingest.IngestStatus} (h : Accepted app L model payload event status L')
    (hoverdue : L.db.Overdue t) : L'.db.Overdue t := by
  cases h with
  | created hcreates => exact overdue_of_names hoverdue hcreates.tables (by decide)
  | edited hedits => exact overdue_of_names hoverdue hedits.tables (by decide)

theorem Identified.overdue {event : Event} {identityId : Uuid}
    (h : Identified app L event identityId L') (hoverdue : L.db.Overdue t) : L'.db.Overdue t := by
  cases h with
  | found => exact hoverdue
  | linked hlinks => exact overdue_of_names hoverdue hlinks.tables (by decide)

theorem Piped.overdue {event : Event} {identityId : Uuid} {heard : List Reply}
    {r : Except Error (Option Pipeline.Outcome)} (h : Piped app L event identityId heard r L')
    (hhistory : History app still L) (hsteady : Ledger.Steady L') (hoverdue : L.db.Overdue t) :
    L'.db.Overdue t := by
  cases h with
  | acted hfields hinterprets happ₁ hcurrent heventId hscores happ₂ hacts happ₃ =>
      have hoverdue₁ := overdue_of_names hoverdue hinterprets.tables (by decide)
      have hoverdue₂ := overdue_of_names hoverdue₁ hscores.tables (by decide)
      have hhistory₂ := (hhistory.commit (.interprets hinterprets) happ₁).commit (.scores hscores) happ₂
      exact overdue_of_acts hoverdue₂ hacts.acts hhistory₂.distinct hsteady.last
  | dead herror hdead => exact overdue_of_names hoverdue hdead.tables (by decide)
  | alreadyDead => exact hoverdue
  | noText => exact hoverdue
  | unstorable => exact hoverdue
  | badMessage => exact hoverdue
  | noScore hfields hinterprets => exact overdue_of_names hoverdue hinterprets.tables (by decide)

/-- Only a reader flags routes, and only the pipeline sets deadlines. -/
theorem Visited.overdue {heard : List Reply} {request : Request} {r : Except Error Response}
    (h : Visited app L heard request r L') (hreads : ¬ request.Reads) (hhistory : History app still L)
    (hsteady : Ledger.Steady L') (hoverdue : L.db.Overdue t) : L'.db.Overdue t := by
  cases h with
  | posted hbody hvalid hposted =>
      cases hposted with
      | duplicate => exact hoverdue
      | unacceptable => exact hoverdue
      | parked haccepted hparks =>
          exact overdue_of_names (haccepted.overdue hoverdue) hparks.tables (by decide)
      | piped haccepted hidentified hpiped =>
          exact hpiped.overdue (hidentified.history (haccepted.history hhistory)) hsteady
            (hidentified.overdue (haccepted.overdue hoverdue))
  | rejected hrefusal hrefuses =>
      exact overdue_of_names hoverdue hrefuses.rejects.tables (by decide)
  | malformed => exact hoverdue
  | unrecorded => exact hoverdue
  | quiet => exact hoverdue
  | reviewed hdecides hresolves => exact overdue_of_names hoverdue hresolves.tables (by decide)
  | resumed hdecides hresolves happ hevent heventId hpiped =>
      exact hpiped.overdue (hhistory.commit (.resolves hresolves) happ) hsteady
        (overdue_of_names hoverdue hresolves.tables (by decide))
  | replayed hevent hlinked hdlq heventId hopen hfailed hpiped =>
      exact hpiped.overdue hhistory hsteady hoverdue
  | revived hevent hlinked hpiped hrevives =>
      exact overdue_of_names
        (hpiped.overdue hhistory (hsteady.of_extends (.commit _ _)) hoverdue) hrevives.tables (by decide)
  | simulated hdead => exact overdue_of_names hoverdue hdead.tables (by decide)
  | escalated hrequest => exact absurd hrequest hreads

/-! ### Readers -/

/-- The columns of a route that a reader leaves alone. -/
def Route.terms (route : Route) : Uuid × Uuid × Time := (route.id, route.leadId, route.slaDeadline)

/-- What a reader makes of the database: it flags routes that are past their deadlines, by receipt. -/
structure Reading (t : Time) (db db' : Db) : Prop where
  terms : (db' .routes).map Route.terms = (db .routes).map Route.terms
  receipts : db .receipts ⊆ db' .receipts
  overdue : db'.Overdue t

theorem Reading.refl {db : Db} (h : db.Overdue t) : Reading t db db := ⟨rfl, fun _ hmem => hmem, h⟩

theorem Reading.trans {db db' db'' : Db} (h : Reading t db db') (h' : Reading t db' db'') :
    Reading t db db'' :=
  ⟨h'.terms.trans h.terms, fun _ hmem => h'.receipts (h.receipts hmem), h'.overdue⟩

/-- A route is still there, up to its flag. -/
theorem Reading.exists_route {db db' : Db} (h : Reading t db db') {route : Route}
    (hroute : route ∈ db .routes) : ∃ route' ∈ db' .routes, Route.terms route' = route.terms :=
  List.mem_map.mp (by rw [h.terms]; exact List.mem_map_of_mem hroute)

theorem Reading.nodup {db db' : Db} (h : Reading t db db')
    (hnodup : ((db .routes).map Route.id).Nodup) : ((db' .routes).map Route.id).Nodup := by
  have hids := congrArg (List.map Prod.fst) h.terms
  simp only [List.map_map] at hids
  change List.map Route.id (db' .routes) = List.map Route.id (db .routes) at hids
  rwa [hids]

/-- **The view says whether the deadline in force has passed**, and says so only with a receipt. -/
def Tells (t : Time) (db : Db) (view : Leads.LeadView) : Prop :=
  ∃ route ∈ db .routes, Route.leadId route = view.lead.id ∧
    (view.escalated = true ↔ Route.slaDeadline route < t) ∧
    (view.escalated = true → db.Receipted route)

theorem Reading.tells {db db' : Db} (h : Reading t db db') {route : Route} {view : Leads.LeadView}
    (hroute : route ∈ db .routes) (hlead : route.leadId = view.lead.id)
    (hiff : view.escalated = true ↔ route.slaDeadline < t)
    (hreceipted : view.escalated = true → db'.Receipted route) : Tells t db' view := by
  obtain ⟨route', hroute', hterms⟩ := h.exists_route hroute
  simp only [Route.terms, Prod.mk.injEq] at hterms
  obtain ⟨hid, hleadId, hdeadline⟩ := hterms
  refine ⟨route', hroute', hleadId.trans hlead, by rw [hdeadline]; exact hiff, fun hescalated => ?_⟩
  exact (hreceipted hescalated).mono (fun _ hmem => hmem) hid hdeadline

theorem Tells.mono {db db' : Db} {view : Leads.LeadView} (h : Tells t db view)
    (hreading : Reading t db db') : Tells t db' view := by
  obtain ⟨route, hroute, hlead, hiff, hreceipted⟩ := h
  exact hreading.tells hroute hlead hiff fun hescalated =>
    (hreceipted hescalated).mono hreading.receipts rfl rfl

/-- The database after a breach has been recorded. -/
def Db.breached (db : Db) (route : Route) (receipt : Receipt) : Db :=
  (db.apply (.update .routes route ({ route with escalated := true } : Route))).apply
    (.insert .receipts receipt)

section Breach

variable {db : Db} {route : Route} {receipt : Receipt}

theorem Db.breached_routes : db.breached route receipt .routes =
    Db.updated (t := .routes) route ({ route with escalated := true } : Route) (db .routes) := by
  rw [breached, apply_of_ne _ (by simp [Write.table]), apply_update_self]

theorem Db.breached_receipts : db.breached route receipt .receipts = db .receipts ++ [receipt] := by
  rw [breached, apply_insert_self, apply_of_ne _ (by simp [Write.table])]

theorem reading_of_breach (receipt : Receipt) (hoverdue : db.Overdue t) (hnodup : ((db .routes).map Route.id).Nodup)
    (hroute : route ∈ db .routes) (hpast : route.slaDeadline < t)
    (haction : receipt.actionType = .escalated) (hentity : receipt.entityId = route.id)
    (hmeta : Meta.slaDeadline receipt.metadata = some route.slaDeadline) :
    Reading t db (db.breached route receipt) ∧ (db.breached route receipt).Receipted route := by
  have hreceipts : db .receipts ⊆ db.breached route receipt .receipts := by
    rw [Db.breached_receipts]
    exact List.subset_append_left ..
  have hreceipted : (db.breached route receipt).Receipted route := by
    refine ⟨receipt, ?_, haction, hentity, hmeta⟩
    rw [Db.breached_receipts]
    exact List.mem_append_right _ (List.mem_singleton_self _)
  refine ⟨⟨?_, hreceipts, fun current hcurrent hescalated => ?_⟩, hreceipted⟩
  · rw [Db.breached_routes]
    exact Db.map_updated (t := .routes) (fun current => by simp [Route.terms, Row.merge, Row.column]) _
  · rw [Db.breached_routes, Db.mem_updated] at hcurrent
    obtain ⟨old, hold, rfl⟩ := hcurrent
    by_cases hid : Row.id old = Row.id (t := .routes) route
    · obtain rfl : old = route := List.inj_on_of_nodup_map hnodup hold hroute hid
      rw [if_pos rfl]
      have hdeadline : Route.slaDeadline (Row.merge (t := .routes) old
          ({ (old : Route) with escalated := true } : Route) old) = Route.slaDeadline old := by
        simp [Row.merge, Row.column]
      rw [hdeadline]
      exact ⟨hpast, hreceipted.mono (fun _ hmem => hmem) rfl hdeadline⟩
    · rw [if_neg hid] at hescalated ⊢
      obtain ⟨hpast, hold⟩ := hoverdue old hold hescalated
      exact ⟨hpast, hold.mono hreceipts rfl rfl⟩

end Breach

section Clocked

variable {Answers : Question → Reply → Prop} {commits : Session Write Reply → Ledger Db Write → Prop}
  {s : Session Write Reply}

/-- What a reader needs to know of the database it sees. -/
structure Watched (t : Time) (db : Db) : Prop where
  overdue : db.Overdue t
  nodup : ((db .routes).map Route.id).Nodup

theorem Reading.watched {db db' : Db} (h : Reading t db db') (hdb : Watched t db) : Watched t db' :=
  ⟨h.overdue, h.nodup hdb.nodup⟩

theorem wp_evaluateEscalation_clocked {route : Route} {identityId : Uuid}
    (hs : Watched t (s.view L.db)) (hroute : route ∈ s.view L.db .routes) {post : Post Db Write Error Reply Bool}
    (hok : ∀ escalated s', Reading t (s.view L.db) (s'.view L.db) →
      (escalated = true ↔ route.slaDeadline < t) →
      (escalated = true → (s'.view L.db).Receipted route) → post (.ok escalated) s' L)
    (herror : ∀ x s', post (.error x) s' L) :
    wp (alone Answers commits)
      ((Escalation.evaluateEscalation (some route) identityId).clocked t) post s L := by
  unfold Escalation.evaluateEscalation
  cases hescalated : route.escalated with
  | true =>
      obtain ⟨hpast, hreceipted⟩ := hs.overdue route hroute hescalated
      simp only [hescalated, if_true]
      exact hok true s (.refl hs.overdue) (by simpa using hpast) fun _ => hreceipted
  | false =>
      simp only [hescalated, Bool.false_eq_true, if_false, bind_eq, pure_eq]
      change wp _ (Program.clocked t (if Escalation.isSlaBreached route.slaDeadline t = true then _
        else _)) post s L
      by_cases hpast : route.slaDeadline < t
      · have hbreached : Escalation.isSlaBreached route.slaDeadline t = true := decide_eq_true hpast
        rw [if_pos hbreached]
        have hflag : ({ route with escalated := true } : Route) ≠ route := by
          intro heq
          have hflagged := congrArg Route.escalated heq
          rw [hescalated] at hflagged
          cases hflagged
        simp only [save, writeReceipt, insert, Program.execute, Program.uuid4, Program.bind, clocked,
          bind_eq, if_neg hflag]
        rintro _ rfl start -
        refine ⟨fun b hwrite _ => ?_, fun w b hwrite _ _ => ?_, fun w b _ _ _ => ⟨trivial, herror _ _⟩⟩
        · cases hwrite
        · cases hwrite
          rintro _ rfl rid - -
          rintro _ rfl start' -
          refine ⟨fun b hwrite _ => ?_, fun w b hwrite _ _ => ?_,
            fun w b _ _ _ => ⟨trivial, herror _ _⟩⟩
          · cases hwrite
          · cases hwrite
            obtain ⟨hreading, hreceipted⟩ := reading_of_breach
              (receipt .escalated route.id .route
                (.escalated route.queue route.ruleMatched route.slaDeadline t) none (some identityId) .ok
                rid t) hs.overdue hs.nodup hroute hpast rfl rfl rfl
            refine hok true _ ?_ (by simpa using hpast) fun _ => ?_
            · simp only [Session.view, Session.add, Session.begin, Session.draw, List.foldl_append,
                List.foldl_cons, List.foldl_nil]
              exact hreading
            · simp only [Session.view, Session.add, Session.begin, Session.draw, List.foldl_append,
                List.foldl_cons, List.foldl_nil]
              exact hreceipted
      · have hbreached : ¬ Escalation.isSlaBreached route.slaDeadline t = true := by
          simpa [Escalation.isSlaBreached] using hpast
        rw [if_neg hbreached]
        exact hok false s (.refl hs.overdue) (by simpa using hpast) (by simp)

theorem Leads.exists_foldl_latest {α : Type} {key : α → Time} {rows : List α} :
    ∀ top : α, ∃ last, rows.foldl (fun best row => match best with
      | none => some row
      | some top => if key top < key row then some row else best) (some top) = some last := by
  induction rows with
  | nil => exact fun top => ⟨top, rfl⟩
  | cons head rest ih =>
      intro top
      rw [List.foldl_cons]
      dsimp only
      split <;> exact ih _

theorem Leads.latest_ne_none {α : Type} {key : α → Time} {rows : List α} (h : rows ≠ []) :
    latest key rows ≠ none := by
  obtain ⟨head, rest, rfl⟩ := List.exists_cons_of_ne_nil h
  obtain ⟨last, hlast⟩ := @exists_foldl_latest _ key rest head
  intro hnone
  cases hlast.symm.trans hnone

theorem wp_latestRoute_clocked {leadId : Uuid}
    (hrouted : ∃ route ∈ s.view L.db .routes, Route.leadId route = leadId)
    {post : Post Db Write Error Reply (Option Route)}
    (h : ∀ route ∈ s.view L.db .routes, Route.leadId route = leadId →
      ∀ start, post (.ok (some route)) (s.begin start) L) :
    wp (alone Answers commits) ((Leads.latestRoute leadId).clocked t) post s L := by
  refine wp_select_clocked fun start => ?_
  obtain ⟨witness, hwitness, hleadId⟩ := hrouted
  have hne : ((s.view L.db .routes).filter fun row => Route.leadId row = leadId) ≠ [] :=
    List.ne_nil_of_mem (List.mem_filter.mpr ⟨hwitness, decide_eq_true hleadId⟩)
  have hlatest : Leads.latest Route.assignedAt _ ≠ none := Leads.latest_ne_none hne
  obtain ⟨route, hroute⟩ := Option.ne_none_iff_exists'.mp hlatest
  rw [hroute]
  obtain ⟨hmem, hlead⟩ := List.mem_filter.mp (Leads.mem_of_latest hroute)
  exact h route hmem (of_decide_eq_true hlead) start

theorem wp_viewLead_clocked {filters : Leads.Filters} {lead : Lead} (hs : Watched t (s.view L.db))
    (hrouted : ∃ route ∈ s.view L.db .routes, Route.leadId route = lead.id)
    {post : Post Db Write Error Reply (Option Leads.LeadView)}
    (hok : ∀ view s', Reading t (s.view L.db) (s'.view L.db) →
      (∀ v ∈ view, Tells t (s'.view L.db) v) → post (.ok view) s' L)
    (herror : ∀ x s', post (.error x) s' L) :
    wp (alone Answers commits) ((Leads.viewLead filters lead).clocked t) post s L := by
  unfold Leads.viewLead
  simp only [bind_eq, pure_eq, clocked_bind, wp_bind]
  refine wp_latestRoute_clocked hrouted fun route hroute hleadId start => ?_
  simp only [Post.andThen_ok, wp_bind]
  refine wp_select_clocked fun start₁ => ?_
  simp only [Post.andThen_ok, wp_bind]
  have hrest : ∀ keep score s₁, s₁.view L.db = s.view L.db →
      wp (alone Answers commits) (Program.clocked t (if keep = true then
          if Leads.decisionMatches score filters.decision = true then
            (Escalation.evaluateEscalation (some route) lead.identityId).bind fun escalated =>
              .ret (some (⟨lead, some route, score, escalated⟩ : Leads.LeadView))
          else .ret none else .ret none)) post s₁ L := by
    intro keep score s₁ hview
    have hdropped : post (.ok none) s₁ L :=
      hok none s₁ (by rw [hview]; exact .refl hs.overdue) (by simp)
    split
    · split
      · rw [clocked_bind, wp_bind]
        rw [← hview] at hs hroute
        refine wp_evaluateEscalation_clocked hs hroute (fun escalated s₂ hreading hiff hreceipted => ?_)
          fun x s' => herror x s'
        refine hok _ s₂ (by rwa [hview] at hreading) fun view hv => ?_
        obtain rfl := Option.some.inj hv
        exact hreading.tells hroute hleadId hiff hreceipted
      · exact hdropped
    · exact hdropped
  unfold Leads.sourceMatches
  split
  · exact hrest _ _ _ rfl
  · simp only [bind_eq, clocked_bind, wp_bind]
    refine wp_select_clocked fun start₂ => ?_
    rw [Post.andThen_ok]
    split <;> exact hrest _ _ _ rfl

theorem wp_viewLeads_clocked {filters : Leads.Filters} {leads : List Lead} :
    ∀ {s : Session Write Reply} {post : Post Db Write Error Reply (List Leads.LeadView)},
      Watched t (s.view L.db) →
      (∀ lead ∈ leads, ∃ route ∈ s.view L.db .routes, Route.leadId route = Lead.id lead) →
      (∀ views s', Reading t (s.view L.db) (s'.view L.db) →
        (∀ view ∈ views, Tells t (s'.view L.db) view) → post (.ok views) s' L) →
      (∀ x s', post (.error x) s' L) →
      wp (alone Answers commits) ((Leads.viewLeads filters leads).clocked t) post s L := by
  induction leads with
  | nil => exact fun hs _ hok _ => hok [] _ (.refl hs.overdue) (by simp)
  | cons lead leads ih =>
      intro s post hs hrouted hok herror
      unfold Leads.viewLeads
      simp only [bind_eq, pure_eq, clocked_bind, wp_bind]
      refine wp_viewLead_clocked hs (hrouted lead (List.mem_cons_self ..))
        (fun view s₁ hreading hview => ?_) fun x s' => herror x s'
      simp only [Post.andThen_ok, wp_bind]
      refine ih (hreading.watched hs) (fun other hother => ?_) (fun views s₂ hreading' hviews => ?_)
        fun x s' => herror x s'
      · obtain ⟨route, hroute, hleadId⟩ := hrouted other (List.mem_cons_of_mem _ hother)
        obtain ⟨route', hroute', hterms⟩ := hreading.exists_route hroute
        exact ⟨route', hroute', (congrArg (fun terms => terms.2.1) hterms).trans hleadId⟩
      · refine hok _ s₂ (hreading.trans hreading') fun v hv => ?_
        rcases List.mem_append.mp hv with hv | hv
        · exact (hview v (Option.mem_toList.mp hv)).mono hreading'
        · exact hviews v hv

theorem wp_commitNow_clocked {post : Post Db Write Error Reply Unit}
    (h : ∀ s' L', L'.db = s.view L.db → post (.ok ()) s' L') :
    wp (alone Answers fun _ _ => True) ((commitNow).clocked t) post s L := by
  rintro _ rfl
  exact ⟨trivial, h _ _ rfl⟩

/-- What a reader leaves, and what it has seen. -/
def Viewed (t : Time) (views : List Leads.LeadView) (L : Ledger Db Write) : Prop :=
  L.db.Overdue t ∧ ∀ view ∈ views, Tells t L.db view

/-- Every lead has a route. -/
def Db.EachRouted (db : Db) : Prop :=
  ∀ lead ∈ db .leads, ∃ route ∈ db .routes, Route.leadId route = Lead.id lead

theorem wp_listLeads_clocked {filters : Leads.Filters} (hs : Watched t L.db)
    (hrouted : L.db.EachRouted) {post : Post Db Write Error Reply (List Leads.LeadView)}
    (hok : ∀ views s' L', Viewed t views L' → post (.ok views) s' L')
    (herror : ∀ x s', post (.error x) s' L) :
    wp (alone Answers fun _ _ => True) ((Leads.listLeads filters).clocked t) post {} L := by
  unfold Leads.listLeads
  simp only [bind_eq, pure_eq, clocked_bind, wp_bind]
  refine wp_select_clocked fun start => ?_
  simp only [Post.andThen_ok, wp_bind]
  refine wp_viewLeads_clocked hs (fun lead hlead => hrouted lead (List.mem_of_mem_filter hlead))
    (fun views s₁ hreading hviews => ?_) fun x s' => herror x s'
  simp only [Post.andThen_ok, wp_bind]
  refine wp_commitNow_clocked fun s' L' hL' => hok views s' L' ?_
  rw [Viewed, hL']
  exact ⟨hreading.overdue, hviews⟩

theorem wp_getLead_clocked {withEvent : Bool} {leadId : Option Uuid} (hs : Watched t L.db)
    (hrouted : L.db.EachRouted) {post : Post Db Write Error Reply (Option Leads.LeadDetail)}
    (hok : ∀ (detail : Option Leads.LeadDetail) s' L',
      Viewed t (detail.map Leads.LeadDetail.toLeadView).toList L' → post (.ok detail) s' L')
    (herror : ∀ x s', post (.error x) s' L) :
    wp (alone Answers fun _ _ => True) ((Leads.getLead withEvent leadId).clocked t) post {} L := by
  unfold Leads.getLead Attribute.findTouch
  simp only [bind_eq, pure_eq, clocked_bind, wp_bind]
  cases leadId with
  | none => exact herror _ _
  | some leadId =>
    change Post.andThen _ _ _ (.ok leadId) _ _
    simp only [Post.andThen_ok, wp_bind]
    refine wp_select_clocked fun start => ?_
    rw [Post.andThen_ok]
    split
    · exact hok none _ _ ⟨hs.overdue, by simp⟩
    · next lead hfound =>
      have hlead : lead ∈ L.db .leads := List.mem_of_find?_eq_some hfound
      simp only [clocked_bind, wp_bind]
      have hroutes : ∃ route ∈ (Session.begin ({} : Session Write Reply) start).view L.db .routes,
          Route.leadId route = lead.id := hrouted lead hlead
      refine wp_latestRoute_clocked hroutes fun route hroute hleadId start => ?_
      simp only [Post.andThen_ok, wp_bind]
      refine wp_select_clocked fun start₁ => ?_
      simp only [Post.andThen_ok, wp_bind]
      refine wp_select_clocked fun start₂ => ?_
      rw [Post.andThen_ok]
      have hrest : ∀ (score : Option Score) (touch : Option AttributionTouch) (event : Option Event)
          (s₁ : Session Write Reply), s₁.view L.db = L.db →
          wp (alone Answers fun _ _ => True) (Program.clocked t
            ((Escalation.evaluateEscalation (some route) lead.identityId).bind fun escalated =>
              commitNow.bind fun _ => .ret (some ({ lead, route, score, escalated, touch, event } :
                Leads.LeadDetail)))) post s₁ L := by
        intro score touch event s₁ hview
        rw [clocked_bind, wp_bind]
        rw [← hview] at hs hroute
        refine wp_evaluateEscalation_clocked hs hroute
          (fun escalated s₂ hreading hiff hreceipted => ?_) fun x s' => herror x s'
        simp only [Post.andThen_ok, clocked_bind, wp_bind]
        refine wp_commitNow_clocked fun s' L' hL' => hok _ s' L' ?_
        rw [Viewed, hL']
        refine ⟨hreading.overdue, fun view hview => ?_⟩
        obtain rfl := List.mem_singleton.mp hview
        exact hreading.tells hroute hleadId hiff hreceipted
      split
      · rw [clocked_bind, wp_bind]
        refine wp_select_clocked fun start₃ => ?_
        rw [Post.andThen_ok]
        exact hrest _ _ _ _ rfl
      · exact hrest _ _ _ _ rfl

end Clocked

/-- The leads a response shows. -/
def Response.views : Response → List Leads.LeadView
  | .leads views => views
  | .lead detail => (detail.map Leads.LeadDetail.toLeadView).toList
  | _ => []

attribute [local irreducible] Dashboard.reconciliation

theorem viewed_of_runs {request : Request} (hreads : request.Reads) (hs : Watched t L.db)
    (hrouted : L.db.EachRouted) {r : Except Error Response} {s : Session Write Reply}
    (hrun : Runs ((service app).solo request) {} L ((handle app request).clocked t) r s L') :
    L'.db.Overdue t ∧ ∀ response, r = .ok response → ∀ view ∈ response.views, Tells t L'.db view := by
  have hok : ∀ {response : Response} {L' : Ledger Db Write}, Viewed t response.views L' →
      L'.db.Overdue t ∧ ∀ other, (Except.ok response : Except Error Response) = .ok other →
        ∀ view ∈ other.views, Tells t L'.db view := by
    rintro response L' ⟨hoverdue, hviews⟩
    refine ⟨hoverdue, fun other heq => ?_⟩
    cases heq
    exact hviews
  have herror : ∀ {x : Error}, L.db.Overdue t ∧ ∀ other, (Except.error x : Except Error Response) =
      .ok other → ∀ view ∈ other.views, Tells t L.db view :=
    ⟨hs.overdue, fun _ heq => nomatch heq⟩
  cases request with
  | listLeads filters =>
      refine hrun.of_wp (fun r _ L' => L'.db.Overdue t ∧ ∀ response, r = .ok response →
        ∀ view ∈ response.views, Tells t L'.db view) ?_
      simp only [handle, bind_eq, pure_eq, clocked_bind, wp_bind]
      exact wp_listLeads_clocked hs hrouted (fun views _ _ hviewed => hok hviewed) fun _ _ => herror
  | getLead withEvent leadId =>
      refine hrun.of_wp (fun r _ L' => L'.db.Overdue t ∧ ∀ response, r = .ok response →
        ∀ view ∈ response.views, Tells t L'.db view) ?_
      simp only [handle, bind_eq, pure_eq, clocked_bind, wp_bind]
      exact wp_getLead_clocked hs hrouted (fun detail _ _ hviewed => hok hviewed) fun _ _ => herror
  | reconciliation window =>
      obtain ⟨_, hrun⟩ := hrun.of_clocked_new fun _ _ _ => trivial
      have hquiet : L' = L ∧ ∀ response, r = .ok response → Response.views response = [] := by
        refine hrun.of_wp (fun r _ L' => L' = L ∧ ∀ response, r = .ok response →
          Response.views response = []) ?_
        simp only [handle, bind_eq, pure_eq, wp_bind]
        refine Dashboard.wp_reconciliation fair_alone rfl fun report s' L' hbefore => ?_
        rw [before_alone] at hbefore
        refine ⟨hbefore, fun response heq => ?_⟩
        cases heq
        rfl
      rw [hquiet.1]
      refine ⟨hs.overdue, fun response heq view hview => ?_⟩
      rw [hquiet.2 response heq] at hview
      cases hview
  | _ => exact hreads.elim

/-! ### Runs -/

theorem Db.eachRouted_of_leadsRouted {db : Db} (h : db.LeadsRouted) : db.EachRouted :=
  fun lead hlead => List.mem_map.mp ((h (Lead.id lead)).mp (List.mem_map_of_mem hlead))

theorem Request.views_of_not_reads {request : Request} (hreads : ¬ request.Reads)
    {setting : Setting Db Write Key Question Reply} {s s' : Session Write Reply} {response : Response}
    (hrun : Runs setting s L (handle app request) (.ok response) s' L') : response.views = [] := by
  have hreturned : ∀ {α : Type} {p : Prog α} {f : α → Response},
      Runs setting s L (p.bind fun a => .ret (f a)) (.ok response) s' L' → ∃ a, response = f a := by
    intro α p f h
    obtain ⟨a, s₁, L₁, -, hret⟩ | ⟨x, hr, -⟩ := h.of_bind
    · cases hret with
      | ret => exact ⟨a, rfl⟩
      | move hmove => cases hmove
    · cases hr
  cases request with
  | postEvent body =>
      obtain ⟨answer, rfl⟩ := hreturned hrun
      rfl
  | resolveManualReview reviewId decision identityId =>
      obtain ⟨answer, rfl⟩ := hreturned hrun
      rfl
  | resolveForm reviewId decision identityId =>
      obtain ⟨answer, rfl⟩ := hreturned hrun
      rfl
  | replayEvent authorized eventId =>
      obtain ⟨answer, rfl⟩ := hreturned hrun
      rfl
  | simulateFailure authorized stage eventId =>
      obtain ⟨answer, rfl⟩ := hreturned hrun
      rfl
  | _ => exact absurd trivial hreads

/-- A request at an instant keeps the flags true, and what it shows is true. -/
theorem told_of_runs {request : Request} (hhistory : History app still L) (hsteady : Ledger.Steady L')
    (hoverdue : L.db.Overdue t) {r : Except Error Response} {s : Session Write Reply}
    (hrun : Runs ((service app).solo request) {} L ((handle app request).clocked t) r s L') :
    L'.db.Overdue t ∧ ∀ response, r = .ok response → ∀ view ∈ response.views, Tells t L'.db view := by
  by_cases hreads : request.Reads
  · exact viewed_of_runs hreads ⟨hoverdue, hhistory.distinct.nodup_ids .routes⟩
      (Db.eachRouted_of_leadsRouted (hhistory.leadsRouted lawful_still)) hrun
  · obtain ⟨_, hrun⟩ := hrun.of_clocked_new fun _ _ _ => trivial
    have hvisited := visited_of_runs hrun
    refine ⟨hvisited.overdue hreads hhistory hsteady hoverdue, fun response heq view hview => ?_⟩
    rw [heq] at hrun
    rw [Request.views_of_not_reads hreads hrun] at hview
    cases hview

/-- **While no transaction moves the deadline of a flagged route, every reader is told of the deadline in
force.** -/
theorem timely_tells {visits : List (Time × Visit Request Db Write Error Reply Response)}
    (h : Timely (service app) emptyLedger visits L) (hsteady : Ledger.Steady L) :
    (∀ t, (∀ visit ∈ visits, visit.1 ≤ t) → L.db.Overdue t) ∧
      ∀ visit ∈ visits, ∀ response, visit.2.result = .ok response → ∀ view ∈ response.views,
        Tells visit.1 visit.2.after.db view := by
  induction h with
  | nil =>
      constructor
      · intro t _ route hroute
        cases hroute
      · intro visit hvisit
        cases hvisit
  | @snoc visits L t request r s L' htimely hclock hrun ih =>
      obtain ⟨visits', hserved⟩ := htimely.served fun _ _ _ _ => trivial
      obtain ⟨_, hrun'⟩ := hrun.of_clocked_new fun _ _ _ => trivial
      have hextends : Extends L L' := hrun'.of_wp (fun _ _ L' => Extends L L') (wp_extends _ _ _)
      obtain ⟨hoverdue, htells⟩ := ih (hsteady.of_extends hextends)
      obtain ⟨hoverdue', hviews⟩ :=
        told_of_runs (served_history hserved).1 hsteady (hoverdue t hclock) hrun
      constructor
      · intro t' ht'
        exact hoverdue'.later (ht' _ (List.mem_append_right _ (List.mem_singleton_self _)))
      · intro visit hvisit
        rcases List.mem_append.mp hvisit with hvisit | hvisit
        · exact htells visit hvisit
        · rw [List.mem_singleton.mp hvisit]
          exact hviews

end DemandSignal
