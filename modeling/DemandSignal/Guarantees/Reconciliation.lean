import DemandSignal.Spec.Reconciliation
import DemandSignal.Simulation
import Mathlib.Data.List.Dedup

/-!
# Reconciliation is exact

Rows and receipts match in every reachable state, so an unwindowed report has no variance. A window
can part a route from its receipt: the route is stamped by the application clock, the receipt with the
start of the transaction.
-/

namespace DemandSignal

open Txn Program Dashboard

variable {app : App} {sight : Sight} {L : Ledger Db Write}

/-! ### Counting -/

theorem History.receipt_count (lawful : sight.Lawful) (h : History app sight L) {pair : Pair}
    (hpair : pair ∈ creations) {row : Row pair.table} (hrow : row ∈ L.db pair.table)
    (hfilter : pair.filter row = true) :
    ((L.db .receipts).filter fun receipt => Receipt.actionType receipt = pair.actionType &&
      Receipt.entityId receipt = row.id).length = 1 := by
  have hbalanced := h.balanced lawful hpair false (by simp)
  have hids : (((L.db pair.table).filterMap (pair.entry false)).map Prod.fst).Nodup := by
    have hsublist : (((L.db pair.table).filterMap (pair.entry false)).map Prod.fst).Sublist
        ((L.db pair.table).map Row.id) := by
      rw [List.map_filterMap, ← List.filterMap_eq_map]
      induction L.db pair.table with
      | nil => exact .slnil
      | cons head tail ih =>
          rw [List.filterMap_cons, List.filterMap_cons]
          by_cases hhead : pair.filter head = true
          · simpa [Pair.entry, hhead] using ih
          · simpa [Pair.entry, hhead] using ih.cons _
    exact hsublist.nodup (h.distinct.nodup_ids pair.table)
  have hmem : (row.id, none) ∈ (L.db pair.table).filterMap (pair.entry false) :=
    List.mem_filterMap.mpr ⟨row, hrow, by simp [Pair.entry, hfilter]⟩
  have hcount := List.count_eq_one_of_mem hids.of_map hmem
  rw [hbalanced.count_eq, List.count_filterMap, List.countP_eq_length_filter] at hcount
  rw [← hcount]
  congr 1
  refine List.filter_congr fun receipt _ => ?_
  by_cases haction : receipt.actionType = pair.actionType
  · rw [Pair.credit, if_pos haction, Bool.eq_iff_iff]
    simp [haction]
  · simp [Pair.credit, haction]

theorem History.entity_of_receipt (lawful : sight.Lawful) (h : History app sight L) {pair : Pair}
    (hpair : pair ∈ creations) {receipt : Receipt} (hreceipt : receipt ∈ L.db .receipts)
    (haction : receipt.actionType = pair.actionType) :
    ∃ row ∈ L.db pair.table, pair.filter row = true ∧ row.id = receipt.entityId := by
  have hbalanced := h.balanced lawful hpair false (by simp)
  have hmem : (receipt.entityId, none) ∈ (L.db .receipts).filterMap (pair.credit false) :=
    List.mem_filterMap.mpr ⟨receipt, hreceipt, by simp [Pair.credit, haction]⟩
  obtain ⟨row, hrow, hentry⟩ := List.mem_filterMap.mp (hbalanced.mem_iff.mpr hmem)
  by_cases hfilter : pair.filter row = true
  · simp only [Pair.entry, hfilter, if_true, Option.some.injEq, Prod.mk.injEq] at hentry
    exact ⟨row, hrow, hfilter, hentry.1⟩
  · simp [Pair.entry, hfilter] at hentry

/-! ### The report -/

namespace Dashboard

/-- A row of the report about a database nobody changes meanwhile. -/
def Pair.reported (pair : Pair) (window : Window) (db : Db) : ReportRow where
  entity := pair.metric
  dashboardCount := dashboardCount pair window db
  receiptCount := receiptCount pair window db
  variance := distance (dashboardCount pair window db) (receiptCount pair window db)
  ok := distance (dashboardCount pair window db) (receiptCount pair window db) = 0

variable {Answers : Question → Reply → Prop} {commits : Session Write Reply → Ledger Db Write → Prop}

theorem wp_reconcilePairs_alone {window : Window} {pairs : List Pair} :
    ∀ {s : Session Write Reply} {post : Post Db Write Error Reply (List ReportRow)},
      s.pending = [] → (∀ s', post (.ok (pairs.map fun pair => pair.reported window L.db)) s' L) →
      wp (alone Answers commits) (reconcilePairs window pairs) post s L := by
  induction pairs with
  | nil => exact fun _ h => h _
  | cons pair pairs ih =>
      intro s post hs h
      have hview : ∀ now, (s.begin now).view L.db = L.db := fun now => by
        simp [Session.view, Session.begin, hs]
      unfold reconcilePairs reconcilePair
      simp only [bind_eq, pure_eq, wp_bind]
      rintro L' rfl now hnow -
      rintro L' rfl now' hnow' -
      simp only [Post.andThen_ok, wp_ret, wp_bind]
      refine ih (by simpa [Session.begin] using hs) fun s' => ?_
      rw [hview, show s.view L'.db = L'.db by simp [Session.view, hs]]
      exact h s'

/-- **The report of a request that is served alone.** -/
theorem report_of_run {window : Window} {r : Except Error Response} {s' : Session Write Reply}
    {L' : Ledger Db Write}
    (hrun : Runs ((service app).solo (.reconciliation window)) {} L
      (handle app (.reconciliation window)) r s' L') :
    ∃ report, r = .ok (.report report) ∧
      report.reconciliation = pairs.map (fun pair => pair.reported window L.db) ∧
      report.variance = (report.reconciliation.map ReportRow.variance).sum ∧
      report.pass = decide (report.variance = 0) := by
  refine hrun.of_wp (fun r _ _ => ∃ report, r = .ok (.report report) ∧
    report.reconciliation = pairs.map (fun pair => pair.reported window L.db) ∧
    report.variance = (report.reconciliation.map ReportRow.variance).sum ∧
    report.pass = decide (report.variance = 0)) ?_
  simp only [handle, reconciliation, bind_eq, pure_eq, wp_bind]
  refine wp_reconcilePairs_alone rfl fun s' => ?_
  -- The rows are not looked into from here on.
  generalize pairs.map (fun pair => pair.reported window L.db) = rows
  exact ⟨_, rfl, rfl, rfl, rfl⟩

theorem Window.contains_unbounded (t : Time) : ({} : Window).contains t = true := rfl

theorem dashboardCount_eq (pair : Pair) (window : Window) (timed : Bool) (db : Db)
    (h : timed = true ∨ window = {}) : dashboardCount pair window db =
      ((db pair.table).filterMap (pair.entry timed)).countP fun entry =>
        entry.2.all window.contains := by
  rw [dashboardCount, ← List.countP_eq_length_filter, List.countP_filterMap]
  refine List.countP_congr fun row _ => ?_
  rcases h with rfl | rfl
  · by_cases hfilter : pair.filter row = true <;> simp [Pair.entry, hfilter]
  · cases timed <;> by_cases hfilter : pair.filter row = true <;>
      simp [Pair.entry, hfilter, Window.contains_unbounded]

theorem receiptCount_eq {pair : Pair} (hpair : pair ∈ pairs) (hdistinct : pair.distinctEvents = false)
    (window : Window) (timed : Bool) {db : Db}
    (htyped : ∀ receipt ∈ db .receipts, Receipt.Typed receipt) (h : timed = true ∨ window = {}) :
    receiptCount pair window db = ((db .receipts).filterMap (pair.credit timed)).countP fun entry =>
      entry.2.all window.contains := by
  rw [receiptCount, hdistinct, if_neg (by simp), pairReceipts, ← List.countP_eq_length_filter,
    List.countP_filterMap]
  refine List.countP_congr fun receipt hreceipt => ?_
  by_cases haction : receipt.actionType = pair.actionType
  · have hentity := htyped receipt hreceipt pair hpair haction
    rcases h with rfl | rfl
    · simp [Pair.credit, haction, hentity]
    · cases timed <;> simp [Pair.credit, haction, hentity, Window.contains_unbounded]
  · simp [Pair.credit, haction]

theorem mem_creations_of_mem_pairs {pair : Pair} (hpair : pair ∈ pairs)
    (hdistinct : pair.distinctEvents = false) : pair ∈ creations := by
  simp only [pairs, List.mem_cons, List.not_mem_nil, or_false] at hpair
  obtain rfl | rfl | rfl | rfl | rfl | rfl | rfl | rfl := hpair <;>
    first | exact absurd hdistinct (by decide) | simp [creations]

theorem variance_eq_zero (pair : Pair) (window : Window) (db : Db) :
    (pair.reported window db).variance = 0 ↔
      dashboardCount pair window db = receiptCount pair window db := by
  change distance _ _ = 0 ↔ _
  unfold distance
  omega

/-- A pair that matches its receipts, with their instants if the window is bounded, has no
variance. -/
theorem counts_eq (lawful : sight.Lawful) (h : History app sight L) {pair : Pair}
    (hpair : pair ∈ pairs) (hdistinct : pair.distinctEvents = false) (window : Window) (timed : Bool)
    (htimed : timed = true → pair ≠ routes) (hwindow : timed = true ∨ window = {}) :
    dashboardCount pair window L.db = receiptCount pair window L.db := by
  rw [dashboardCount_eq pair window timed L.db hwindow,
    receiptCount_eq hpair hdistinct window timed h.typed hwindow]
  exact (h.balanced lawful (mem_creations_of_mem_pairs hpair hdistinct) timed htimed).countP_eq _

/-- Edited events against the events of edit receipts. -/
theorem edited_counts_eq (lawful : sight.Lawful) (h : History app sight L) :
    dashboardCount eventsEdited {} L.db = receiptCount eventsEdited {} L.db := by
  have hedits := h.editsReceipted lawful
  have hids : (((L.db .events).filter Event.isEdit).map Event.id).Nodup :=
    (List.filter_sublist.map Event.id).nodup (h.distinct.nodup_ids .events)
  have hperm : (((L.db .events).filter Event.isEdit).map Event.id).Perm
      ((pairReceipts eventsEdited {} L.db).filterMap Receipt.eventId).dedup := by
    refine (List.perm_ext_iff_of_nodup hids (List.nodup_dedup _)).mpr fun id => ?_
    rw [List.mem_dedup, List.mem_filterMap, List.mem_map]
    constructor
    · rintro ⟨event, hevent, rfl⟩
      obtain ⟨hmem, hedit⟩ := List.mem_filter.mp hevent
      obtain ⟨receipt, hreceipt, haction, heventId⟩ := (hedits _).mp ⟨event, hmem, rfl, hedit⟩
      have hentity := h.typed receipt hreceipt eventsEdited (by simp [pairs]) haction
      refine ⟨receipt, List.mem_filter.mpr ⟨hreceipt, ?_⟩, heventId⟩
      simp [haction, hentity, Window.contains_unbounded, eventsEdited]
    · rintro ⟨receipt, hreceipt, heventId⟩
      obtain ⟨hmem, hp⟩ := List.mem_filter.mp hreceipt
      simp only [Bool.and_eq_true, decide_eq_true_eq] at hp
      obtain ⟨event, hevent, hid, hedit⟩ := (hedits id).mpr ⟨receipt, hmem, hp.1.2, heventId⟩
      exact ⟨event, List.mem_filter.mpr ⟨hevent, hedit⟩, hid⟩
  have hlength := hperm.length_eq
  rw [List.length_map] at hlength
  rw [receiptCount, if_pos (show eventsEdited.distinctEvents = true from rfl), ← hlength,
    dashboardCount]
  congr 1
  refine List.filter_congr fun event _ => ?_
  simp [eventsEdited, Window.contains_unbounded]

end Dashboard

/-! ### Windows -/

namespace Dashboard

/-- The window opens after the first instant and holds the second. -/
def Window.opensBetween (window : Window) (a b : Time) : Bool :=
  window.contains b && window.since.any fun since => a < since

/-- The window holds the first instant and closes before the second. -/
def Window.closesBetween (window : Window) (a b : Time) : Bool :=
  window.contains a && window.upTo.any fun bound => bound < b

/-- The routes for which the instant of the receipt and the assignment are so related. -/
def routesWith (related : Time → Time → Bool) (db : Db) : Nat :=
  (db .routes).countP fun route => (db .receipts).any fun receipt =>
    Receipt.actionType receipt = .routed && Receipt.entityId receipt = Route.id route &&
      related (Receipt.createdAt receipt) (Route.assignedAt route)

theorem Window.contains_split (window : Window) {a b : Time} (h : a ≤ b) :
    (if window.contains b then 1 else 0) + (if window.closesBetween a b then 1 else 0) =
      (if window.contains a then 1 else 0) + if window.opensBetween a b then 1 else 0 := by
  obtain ⟨since, upTo⟩ := window
  cases since <;> cases upTo <;>
    simp only [Window.contains, Window.closesBetween, Window.opensBetween, Option.all_none,
      Option.all_some, Option.any_none, Option.any_some, Bool.true_and, Bool.and_true,
      Bool.and_false, Bool.and_eq_true, decide_eq_true_eq, Bool.false_eq_true, if_true,
      if_false] <;>
    split_ifs <;> first | rfl | (simp only [Time] at *; omega)

theorem Window.count_contains (window : Window) (entries : List (Uuid × Time × Time))
    (hordered : ∀ entry ∈ entries, entry.2.1 ≤ entry.2.2) :
    entries.countP (fun entry => window.contains entry.2.2) +
        entries.countP (fun entry => window.closesBetween entry.2.1 entry.2.2) =
      entries.countP (fun entry => window.contains entry.2.1) +
        entries.countP fun entry => window.opensBetween entry.2.1 entry.2.2 := by
  induction entries with
  | nil => rfl
  | cons entry entries ih =>
      have ih := ih fun entry hentry => hordered entry (List.mem_cons_of_mem _ hentry)
      have hentry := window.contains_split (hordered entry (List.mem_cons_self ..))
      simp only [List.countP_cons]
      omega

theorem routesWith_eq {db : Db} (hdistinct : db.Distinct) {joined : List (Uuid × Time × Time)}
    (h : db.Routed joined) (related : Time → Time → Bool) :
    routesWith related db = joined.countP fun entry => related entry.2.1 entry.2.2 := by
  have hids : (joined.map Prod.fst).Nodup := by
    have hperm := h.routes.map Prod.fst
    rw [List.map_map, List.map_map] at hperm
    exact hperm.nodup (hdistinct.nodup_ids .routes)
  have hreceipts : ∀ entry ∈ joined, (db .receipts).any (fun receipt =>
      Receipt.actionType receipt = .routed && Receipt.entityId receipt = entry.1 &&
        related (Receipt.createdAt receipt) entry.2.2) = related entry.2.1 entry.2.2 := by
    intro entry hentry
    have hcredit : (entry.1, some entry.2.1) ∈
        (db .receipts).filterMap (Dashboard.routes.credit true) :=
      h.receipts.mem_iff.mpr (List.mem_map.mpr ⟨entry, hentry, rfl⟩)
    obtain ⟨receipt, hreceipt, hcredit⟩ := List.mem_filterMap.mp hcredit
    have hunique : ∀ receipt ∈ db .receipts, Receipt.actionType receipt = .routed →
        Receipt.entityId receipt = entry.1 → Receipt.createdAt receipt = entry.2.1 := by
      intro receipt hreceipt haction hentity
      have hmem : (entry.1, some (Receipt.createdAt receipt)) ∈
          (db .receipts).filterMap (Dashboard.routes.credit true) :=
        List.mem_filterMap.mpr ⟨receipt, hreceipt, by simp [Pair.credit, haction, hentity, routes]⟩
      obtain ⟨other, hother, heq⟩ := List.mem_map.mp (h.receipts.mem_iff.mp hmem)
      simp only [Prod.mk.injEq, Option.some.injEq] at heq
      rw [← heq.2, List.inj_on_of_nodup_map hids hother hentry heq.1]
    rw [Bool.eq_iff_iff, List.any_eq_true]
    constructor
    · rintro ⟨receipt, hreceipt, hp⟩
      simp only [Bool.and_eq_true, decide_eq_true_eq] at hp
      rw [← hunique receipt hreceipt hp.1.1 hp.1.2]
      exact hp.2
    · intro hrelated
      by_cases haction : receipt.actionType = Dashboard.routes.actionType
      · simp only [Pair.credit, haction, if_true, Option.some.injEq, Prod.mk.injEq] at hcredit
        refine ⟨receipt, hreceipt, ?_⟩
        simp only [Bool.and_eq_true, decide_eq_true_eq]
        exact ⟨⟨haction, hcredit.1⟩, by rw [hcredit.2]; exact hrelated⟩
      · simp [Pair.credit, haction] at hcredit
  let p : Uuid × Time → Bool := fun route => (db .receipts).any fun receipt =>
    Receipt.actionType receipt = .routed && Receipt.entityId receipt = route.1 &&
      related (Receipt.createdAt receipt) route.2
  calc routesWith related db
      = ((db .routes).map fun route => (Route.id route, Route.assignedAt route)).countP p := by
        rw [List.countP_map]
        rfl
    _ = (joined.map fun entry => (entry.1, entry.2.2)).countP p := h.routes.countP_eq p
    _ = joined.countP fun entry => related entry.2.1 entry.2.2 := by
        rw [List.countP_map]
        exact List.countP_congr fun entry hentry => by
          rw [Function.comp_apply, show p (entry.1, entry.2.2) = _ from hreceipts entry hentry]

theorem eq_routes_of_metric {pair : Pair} (hpair : pair ∈ pairs) (h : pair.metric = "routes") :
    pair = routes := by
  simp only [pairs, List.mem_cons, List.not_mem_nil, or_false] at hpair
  obtain rfl | rfl | rfl | rfl | rfl | rfl | rfl | rfl := hpair <;>
    first | rfl | exact absurd h (ne_of_beq_false rfl)

/-- The routes of a window and their receipts differ by those that straddle its bounds. -/
theorem routes_count (window : Window) {db : Db} (hdistinct : db.Distinct)
    (htyped : ∀ receipt ∈ db .receipts, Receipt.Typed receipt) {joined : List (Uuid × Time × Time)}
    (h : db.Routed joined) :
    dashboardCount routes window db + routesWith window.closesBetween db =
      receiptCount routes window db + routesWith window.opensBetween db := by
  have hrows : dashboardCount routes window db =
      joined.countP fun entry => window.contains entry.2.2 := by
    calc dashboardCount routes window db
        = ((db .routes).map fun route => (Route.id route, Route.assignedAt route)).countP
            fun route => window.contains route.2 := by
          rw [dashboardCount, List.countP_map, ← List.countP_eq_length_filter]
          exact List.countP_congr fun route _ => Iff.rfl
      _ = (joined.map fun entry => (entry.1, entry.2.2)).countP
            fun route => window.contains route.2 := h.routes.countP_eq _
      _ = joined.countP fun entry => window.contains entry.2.2 := by
          rw [List.countP_map]
          rfl
  have hreceipts : receiptCount routes window db =
      joined.countP fun entry => window.contains entry.2.1 := by
    rw [receiptCount_eq (by simp [pairs]) rfl window true htyped (.inl rfl), h.receipts.countP_eq,
      List.countP_map]
    rfl
  rw [hrows, hreceipts, routesWith_eq hdistinct h, routesWith_eq hdistinct h]
  exact window.count_contains joined h.ordered

end Dashboard

/-! ### The report of the whole database -/

/-- Entities and receipts correspond, and the report says so. -/
structure Reconciled (app : App) (L : Ledger Db Write) : Prop where
  receipt : ∀ pair ∈ pairs, pair.distinctEvents = false → ∀ row ∈ L.db pair.table,
    pair.filter row = true → ((L.db .receipts).filter fun receipt =>
      Receipt.actionType receipt = pair.actionType && Receipt.entityId receipt = row.id).length = 1
  entity : ∀ pair ∈ pairs, pair.distinctEvents = false → ∀ receipt ∈ L.db .receipts,
    Receipt.actionType receipt = pair.actionType →
      ∃ row ∈ L.db pair.table, pair.filter row = true ∧ row.id = Receipt.entityId receipt
  edited : ∀ id, (∃ event ∈ L.db .events, Event.id event = id ∧ Event.isEdit event = true) ↔
    ∃ receipt ∈ L.db .receipts, Receipt.actionType receipt = .eventEdited ∧
      Receipt.eventId receipt = some id
  report : ∀ r s' L', Runs ((service app).solo (.reconciliation {})) {} L
    (handle app (.reconciliation {})) r s' L' →
      ∃ report, r = .ok (.report report) ∧ report.variance = 0 ∧ report.pass = true ∧
        report.reconciliation.map ReportRow.entity = pairs.map Pair.metric ∧
        ∀ row ∈ report.reconciliation, row.variance = 0

/-- **Every reachable state is reconciled.** -/
theorem receipts_match_entities
    {config : Config Request Db Write Error Question Reply Response}
    (h : Reachable (service app) emptyLedger config) : Reconciled app config.ledger := by
  have hhistory := reachable_history h
  refine ⟨fun pair hpair hdistinct row hrow hfilter => ?_,
    fun pair hpair hdistinct receipt hreceipt haction => ?_, hhistory.editsReceipted lawful_once,
    fun r s' L' hrun => ?_⟩
  · exact hhistory.receipt_count lawful_once (mem_creations_of_mem_pairs hpair hdistinct) hrow hfilter
  · exact hhistory.entity_of_receipt lawful_once (mem_creations_of_mem_pairs hpair hdistinct) hreceipt
      haction
  · obtain ⟨report, hr, hrows, hvariance, hpass⟩ := report_of_run hrun
    have hzero : ∀ row ∈ report.reconciliation, row.variance = 0 := by
      intro row hrow
      rw [hrows] at hrow
      obtain ⟨pair, hpair, rfl⟩ := List.mem_map.mp hrow
      rw [variance_eq_zero]
      by_cases hdistinct : pair.distinctEvents = false
      · exact counts_eq lawful_once hhistory hpair hdistinct {} false (by simp) (.inr rfl)
      · obtain rfl : pair = eventsEdited := by
          simp only [pairs, List.mem_cons, List.not_mem_nil, or_false] at hpair
          obtain rfl | rfl | rfl | rfl | rfl | rfl | rfl | rfl := hpair <;>
            first | rfl | exact absurd rfl hdistinct
        exact edited_counts_eq lawful_once hhistory
    have hsum : report.variance = 0 := by
      rw [hvariance]
      exact List.sum_eq_zero fun n hn => by
        obtain ⟨row, hrow, rfl⟩ := List.mem_map.mp hn
        exact hzero row hrow
    refine ⟨report, hr, hsum, by simp [hpass, hsum], ?_, hzero⟩
    rw [hrows, List.map_map]
    rfl

/-- Two forms of one sender, submitted together. -/
def twoForms : List (Action Request) :=
  [.spawn (webForm "1" firstDay "hi"), .spawn (webForm "2" secondDay "hi")] ++
    List.replicate 20 (.step 0) ++ List.replicate 20 (.step 1) ++ List.replicate 32 (.step 0)

theorem receipts_match_entities_twoForms :
    ∃ config, interleave unreachable twoForms = some config ∧ Reconciled shipped config.ledger := by
  have hplayed : (interleave unreachable twoForms).isSome = true := by
    rw [interleave, shipped_eq_bucketed]
    decide +kernel
  obtain ⟨config, hconfig⟩ := Option.isSome_iff_exists.mp hplayed
  exact ⟨config, hconfig, receipts_match_entities (interleave_reachable hconfig)⟩

/-! ### The report of a window -/

/-- **A windowed report is exact just when its bounds part no more routes from their receipts on one
side than on the other.** Every other pair is exact for every window. -/
theorem windowed_report_exact_iff {visits : List (Visit Request Db Write Error Reply Response)}
    (h : Served (service app) emptyLedger visits L) (window : Window) :
    ∀ r s' L', Runs ((service app).solo (.reconciliation window)) {} L
      (handle app (.reconciliation window)) r s' L' →
      ∃ report, r = .ok (.report report) ∧
        report.reconciliation.map ReportRow.entity = pairs.map Pair.metric ∧
        (∀ row ∈ report.reconciliation, row.entity ≠ "events_edited" → row.entity ≠ "routes" →
          row.variance = 0) ∧
        ((∀ row ∈ report.reconciliation, row.entity ≠ "events_edited" → row.variance = 0) ↔
          routesWith window.opensBetween L.db = routesWith window.closesBetween L.db) := by
  intro r s' L' hrun
  have hhistory := (served_history h).1
  obtain ⟨report, hr, hrows, -, -⟩ := report_of_run hrun
  obtain ⟨joined, hrouted⟩ := hhistory.routed lawful_still
  have hcount := routes_count window hhistory.distinct hhistory.typed hrouted
  have hothers : ∀ row ∈ report.reconciliation, row.entity ≠ "events_edited" →
      row.entity ≠ "routes" → row.variance = 0 := by
    intro row hrow hedited hroutes
    rw [hrows] at hrow
    obtain ⟨pair, hpair, rfl⟩ := List.mem_map.mp hrow
    rw [variance_eq_zero]
    refine counts_eq lawful_still hhistory hpair ?_ window true ?_ (.inl rfl)
    · simp only [pairs, List.mem_cons, List.not_mem_nil, or_false] at hpair
      obtain rfl | rfl | rfl | rfl | rfl | rfl | rfl | rfl := hpair <;>
        first | rfl | exact absurd rfl hedited
    · rintro - rfl
      exact hroutes rfl
  refine ⟨report, hr, by rw [hrows, List.map_map]; rfl, hothers, ?_⟩
  have hroutes : (routes.reported window L.db).variance = 0 ↔
      routesWith window.opensBetween L.db = routesWith window.closesBetween L.db := by
    rw [variance_eq_zero]
    omega
  rw [← hroutes]
  constructor
  · intro hzero
    refine hzero _ ?_ (show "routes" ≠ "events_edited" by decide)
    rw [hrows]
    exact List.mem_map_of_mem (by simp [pairs])
  · intro hzero row hrow hedited
    by_cases hentity : row.entity = "routes"
    · rw [hrows] at hrow
      obtain ⟨pair, hpair, rfl⟩ := List.mem_map.mp hrow
      obtain rfl : pair = routes := eq_routes_of_metric hpair hentity
      exact hzero
    · exact hothers row hrow hedited hentity

/-- One form, and no further request. -/
def oneForm : List Turn := failing [webForm "1" firstDay "hi"]

theorem windowed_report_exact_iff_oneForm :
    ∃ L, Served (service shipped) emptyLedger (simulate shipped oneForm emptyLedger) L ∧
      ∀ r s' L', Runs ((service shipped).solo (.reconciliation ⟨none, some 0⟩)) {} L
        (handle shipped (.reconciliation ⟨none, some 0⟩)) r s' L' →
        ∃ report, r = .ok (.report report) ∧
          ∀ row ∈ report.reconciliation, row.entity ≠ "events_edited" → row.variance = 0 := by
  refine ⟨_, simulate_served shipped oneForm, fun r s' L' hrun => ?_⟩
  obtain ⟨report, hr, -, -, hiff⟩ :=
    windowed_report_exact_iff (simulate_served shipped oneForm) ⟨none, some 0⟩ r s' L' hrun
  exact ⟨report, hr, hiff.mpr (by decide +kernel)⟩

/-- The form's transaction began at 17 and its route was assigned at 19. -/
theorem windowed_report_not_exact :
    ¬ ∀ (visits : List (Visit Request Db Write Error Reply Response)) (L : Ledger Db Write)
      (window : Window), Served (service shipped) emptyLedger visits L →
      ∀ r s' L', Runs ((service shipped).solo (.reconciliation window)) {} L
        (handle shipped (.reconciliation window)) r s' L' →
        ∃ report, r = .ok (.report report) ∧
          ∀ row ∈ report.reconciliation, row.entity ≠ "events_edited" → row.variance = 0 := by
  intro hexact
  let window : Window := ⟨some 18, none⟩
  let L := outcome shipped oneForm emptyLedger
  obtain ⟨r, s', L', hrun⟩ := exists_served shipped (.reconciliation window) L
  obtain ⟨report, hr, hzero⟩ := hexact _ _ window (simulate_served shipped oneForm) r s' L' hrun
  obtain ⟨report', hr', hrows, -, -⟩ := report_of_run hrun
  obtain rfl : report = report' := by
    rw [hr] at hr'
    simpa using hr'
  have hvariance := hzero (routes.reported window L.db)
    (by rw [hrows]; exact List.mem_map_of_mem (by simp [pairs]))
    (show "routes" ≠ "events_edited" by decide)
  have hcount : dashboardCount routes window L.db ≠ receiptCount routes window L.db := by
    decide +kernel
  exact hcount ((variance_eq_zero routes window L.db).mp hvariance)

end DemandSignal
