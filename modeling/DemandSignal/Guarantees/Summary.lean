import DemandSignal.Guarantees.Queries
import DemandSignal.Guarantees.Reconciliation
import Mathlib.Algebra.Order.BigOperators.Group.List

/-!
# The dashboard adds up

A summary that is read while nobody writes can be recomputed from the receipts. One that is read while
others write may mix moments, but its parts never fall short of the whole, and a report never shows a
row without its receipt.
-/

namespace DemandSignal

open Txn Program

variable {app : App} {sight : Sight} {L₀ L : Ledger Db Write} {window : Dashboard.Window}
  {summary : Summarize.Summary}

/-- The counts of a summary fit together: nothing is in a whole and not in its parts. -/
structure Summarize.Summary.Coherent (summary : Summarize.Summary) : Prop where
  events : summary.totalEvents ≤ summary.validEvents + summary.invalidEvents
  bySource : summary.validEvents ≤ (summary.bySource.map Prod.snd).sum
  byStatus : ∀ entry ∈ summary.byStatus, entry.1 ≠ "routed" → entry.2 = 0
  leads : (summary.byStatus.map Prod.snd).sum ≤ summary.totalLeads

theorem Counted.history (h : History app sight L) {α : Type} {q : Db → α} {a : α}
    (hcounted : Counted Extends L₀ L q a) : ∃ M, Extends L₀ M ∧ Extends M L ∧ History app sight M ∧
      a = q M.db := by
  obtain ⟨M, hM, hL, ha⟩ := hcounted
  exact ⟨M, hM, hL, h.of_extends hL, ha⟩

/-- **A summary is coherent**, whatever happens while it is read. -/
theorem Summarized.coherent (h : Summarized Extends window L₀ summary L)
    (hhistory : History app sight L) : summary.Coherent := by
  obtain @⟨L₁, L₂, L₃, L₄, L₅, L₆, L₇, L₈, _, bySource, byDecision, byStatus, h₁, h₂, h₃, h₄, h₅, h₆,
    h₇, h₈, h₉, hsources, hbySource, hdecisions, hbyDecision, hstatuses, hbyStatus⟩ := h
  have hhistory₂ : History app sight L₂ := hhistory.of_extends
    (h₃.trans (h₄.trans (h₅.trans (h₆.trans (h₇.trans (h₈.trans h₉))))))
  have hhistory₆ : History app sight L₆ := hhistory.of_extends (h₇.trans (h₈.trans h₉))
  constructor
  · calc Summarize.events window (fun _ => true) L₁.db
        = Summarize.events window Event.isValid L₁.db +
            Summarize.events window (fun event => !event.isValid) L₁.db :=
          Summarize.events_split window L₁.db
      _ ≤ _ := Nat.add_le_add (Summarize.events_le h₂ window fun isValid _ => isValid)
          (Summarize.events_le (h₂.trans h₃) window fun isValid _ => !isValid)
  · calc Summarize.events window Event.isValid L₂.db
        ≤ Summarize.events window (fun event => event.source ∈ Summarize.sources) L₂.db :=
          Summarize.valid_le_bySource hhistory₂ window
      _ = (Summarize.sources.map fun source =>
            Summarize.events window (fun event => event.source = source) L₂.db).sum :=
          (Summarize.sum_bySource window L₂.db).symm
      _ ≤ (bySource.map Prod.snd).sum := by
          rw [← hsources, List.map_map]
          refine List.sum_le_sum fun entry hentry => ?_
          obtain ⟨M, hM, -, hcount⟩ := hbySource entry hentry
          rw [hcount]
          exact Summarize.events_le (h₃.trans hM) window fun _ source => source = entry.1
  · intro entry hentry hstatus
    obtain ⟨M, -, -, hM, hcount⟩ := (hbyStatus entry hentry).history hhistory₆
    rw [hcount, Summarize.leads_byStatus hM, if_neg hstatus]
  · calc (byStatus.map Prod.snd).sum
        ≤ (byStatus.map fun entry => if entry.1 = "routed" then
            Summarize.leads window (fun _ => true) L.db else 0).sum := by
          refine List.sum_le_sum fun entry hentry => ?_
          obtain ⟨M, -, hM, hhistory, hcount⟩ := (hbyStatus entry hentry).history hhistory₆
          rw [hcount, Summarize.leads_byStatus hhistory]
          split
          · exact Summarize.leads_le (hM.trans (h₇.trans (h₈.trans h₉))) window
          · exact le_rfl
      _ = ((byStatus.map Prod.fst).map fun status => if status = "routed" then
            Summarize.leads window (fun _ => true) L.db else 0).sum := by rw [List.map_map]; rfl
      _ = Summarize.leads window (fun _ => true) L.db := by
          rw [hstatuses]
          simp [Summarize.statuses]

theorem Summarized.bounded (h : Summarized Extends window L₀ summary L) :
    summary.totalEvents ≤ Summarize.events window (fun _ => true) L.db ∧
      summary.totalLeads ≤ Summarize.leads window (fun _ => true) L.db := by
  obtain ⟨-, h₂, h₃, h₄, h₅, h₆, h₇, h₈, h₉, -, -, -, -, -, -⟩ := h
  refine ⟨Summarize.events_le ?_ window fun _ _ => true, le_rfl⟩
  exact h₂.trans (h₃.trans (h₄.trans (h₅.trans (h₆.trans (h₇.trans (h₈.trans h₉))))))

/-- **A summary never misses a part of what it counts.** -/
theorem summary_coherent
    {config : Config (Request ⊕ Query) Db Write Error Question Reply (Response ⊕ View)}
    (h : Reachable (site app) emptyLedger config) {s : Session Write Reply}
    {r : Except Error (Response ⊕ View)}
    (hthread : ⟨.inr (.summary window), s, .ended r⟩ ∈ config.threads) :
    ∃ summary, r = .ok (.inr (.summary summary)) ∧ summary.Coherent ∧
      summary.totalEvents ≤ Summarize.events window (fun _ => true) config.ledger.db ∧
      summary.totalLeads ≤ Summarize.leads window (fun _ => true) config.ledger.db := by
  obtain ⟨served, hserved, hledger, hsifted⟩ := site_sifted h
  obtain ⟨_, rfl, _, summary, L₀, L₁, rfl, hsummary, hextends⟩ := hsifted.ended hthread
  have hhistory : History app once config.ledger := hledger ▸ reachable_history hserved
  obtain ⟨hevents, hleads⟩ := hsummary.bounded
  exact ⟨summary, rfl, hsummary.coherent (hhistory.of_extends hextends),
    hevents.trans (Summarize.events_le hextends window fun _ _ => true),
    hleads.trans (Summarize.leads_le hextends window)⟩

/-- A summary, and a form that is stored once the events have been counted. -/
def skim : List (Action (Request ⊕ Query)) :=
  [.spawn (.inl (webForm "1" firstDay "hi")), .spawn (.inr (.summary {}))] ++
    List.replicate 3 (.step 1) ++ List.replicate 8 (.step 0) ++ List.replicate 16 (.step 1)

/-- A summary that counts more events by their sources than in all. -/
def overtook : Query × View → Bool
  | (.summary _, .summary summary) => summary.totalEvents < (summary.bySource.map Prod.snd).sum
  | _ => false

theorem summary_coherent_skim : ∃ config, browse unreachable skim = some config ∧ ∃ s window summary,
    ⟨.inr (.summary window), s, .ended (.ok (.inr (.summary summary)))⟩ ∈ config.threads ∧
      summary.totalEvents < (summary.bySource.map Prod.snd).sum ∧ summary.Coherent := by
  obtain ⟨config, hconfig, query, s, view, hthread, htest⟩ :=
    exists_shown unreachable skim overtook (by rw [browse, shipped_eq_bucketed]; decide +kernel)
  unfold overtook at htest
  split at htest
  · next heq =>
    cases heq
    obtain ⟨_, heq, hcoherent, -⟩ := summary_coherent (browse_reachable hconfig) hthread
    cases heq
    exact ⟨config, hconfig, s, _, _, hthread, of_decide_eq_true htest, hcoherent⟩
  · cases htest

/-! ### The report -/

theorem Dashboard.receiptCount_le {L' : Ledger Db Write} (h : Extends L L') (pair : Dashboard.Pair)
    (window : Dashboard.Window) :
    Dashboard.receiptCount pair window L.db ≤ Dashboard.receiptCount pair window L'.db := by
  have hreceipts : L.db .receipts <+: L'.db .receipts := h.grows fun _ _ _ => rfl
  have hsublist : (Dashboard.pairReceipts pair window L.db).Sublist
      (Dashboard.pairReceipts pair window L'.db) := hreceipts.sublist.filter _
  unfold Dashboard.receiptCount
  split
  · have hsubset : ((Dashboard.pairReceipts pair window L.db).filterMap Receipt.eventId).dedup ⊆
        ((Dashboard.pairReceipts pair window L'.db).filterMap Receipt.eventId).dedup := by
      intro id hid
      rw [List.mem_dedup] at hid ⊢
      exact (hsublist.filterMap _).subset hid
    exact (List.subperm_of_subset (List.nodup_dedup _) hsubset).length_le
  · exact hsublist.length_le

/-- No row is counted without its receipt. Edits have no instant of their own, and a route has
another one than its receipt, so a window may part these. -/
structure Dashboard.Report.Covered (report : Dashboard.Report) (window : Dashboard.Window) :
    Prop where
  pairs : report.reconciliation.map Dashboard.ReportRow.entity =
    Dashboard.pairs.map Dashboard.Pair.metric
  rows : ∀ row ∈ report.reconciliation,
    window = {} ∨ row.entity ≠ "events_edited" ∧ row.entity ≠ "routes" →
      row.dashboardCount ≤ row.receiptCount

theorem Compared.covered (lawful : sight.Lawful) {pair : Dashboard.Pair} {row : Dashboard.ReportRow}
    (h : Compared Extends window L₀ L pair row) (hhistory : History app sight L)
    (hpair : pair ∈ Dashboard.pairs)
    (hwindow : window = {} ∨ row.entity ≠ "events_edited" ∧ row.entity ≠ "routes") :
    row.dashboardCount ≤ row.receiptCount := by
  obtain ⟨M, M', -, hM, hL, hdashboard, hreceipt⟩ := h.counts
  have hhistoryM : History app sight M := hhistory.of_extends (hM.trans hL)
  have hcounts : Dashboard.dashboardCount pair window M.db = Dashboard.receiptCount pair window M.db := by
    by_cases hedited : pair = Dashboard.eventsEdited
    · subst hedited
      obtain rfl | ⟨hmetric, -⟩ := hwindow
      · exact Dashboard.edited_counts_eq lawful hhistoryM
      · exact absurd h.entity hmetric
    · have hdistinct : pair.distinctEvents = false := by
        simp only [Dashboard.pairs, List.mem_cons, List.not_mem_nil, or_false] at hpair
        obtain rfl | rfl | rfl | rfl | rfl | rfl | rfl | rfl := hpair <;>
          first | exact absurd rfl hedited | rfl
      obtain hunbounded | ⟨-, hmetric⟩ := hwindow
      · exact Dashboard.counts_eq lawful hhistoryM hpair hdistinct window false (by simp) (.inr hunbounded)
      · refine Dashboard.counts_eq lawful hhistoryM hpair hdistinct window true (fun _ hroutes => ?_)
          (.inl rfl)
        exact hmetric (h.entity.trans (by rw [hroutes]; rfl))
  calc row.dashboardCount = Dashboard.dashboardCount pair window M.db := hdashboard
    _ = Dashboard.receiptCount pair window M.db := hcounts
    _ ≤ Dashboard.receiptCount pair window M'.db := Dashboard.receiptCount_le hM pair window
    _ = row.receiptCount := hreceipt.symm

theorem Reported.covered (lawful : sight.Lawful) {report : Dashboard.Report}
    (h : Reported Extends window L₀ report L) (hhistory : History app sight L) :
    report.Covered window := by
  have hrows : List.Forall₂ (fun pair row => pair ∈ Dashboard.pairs ∧
      Compared Extends window L₀ L pair row) Dashboard.pairs report.reconciliation :=
    (List.forall₂_and_left ..).mpr ⟨fun _ hpair => hpair, h.rows⟩
  constructor
  · refine List.forall₂_eq_eq_eq ▸ ?_
    rw [List.forall₂_map_left_iff, List.forall₂_map_right_iff]
    exact hrows.flip.imp fun row pair hrow => hrow.2.entity
  · intro row hrow hwindow
    obtain ⟨n, hn⟩ := List.mem_iff_get.mp hrow
    have hget := hrows.get (hrows.length_eq.symm ▸ n.2) n.2
    rw [hn] at hget
    exact hget.2.covered lawful hhistory hget.1 hwindow

/-- What a request that reports has shown. -/
def Request.Shows : Request → Except Error Response → Ledger Db Write → Prop
  | .reconciliation window, r, L => ∃ report L₀ L₁, r = .ok (.report report) ∧
      Reported Extends window L₀ report L₁ ∧ Extends L₁ L
  | _, _, _ => True

attribute [local irreducible] Dashboard.reconciliation

theorem reachable_shows {config : Config Request Db Write Error Question Reply Response}
    (h : Reachable (service app) emptyLedger config) :
    config.Sound (service app) (History app once) (Pays app once) Explains
      fun request r _ L => request.Shows r L := by
  refine h.sound (fun _ _ hL hs => History.pays hL hs) (fun request L _ => ?_)
    (fun request r s L L' hshows hamid => ?_) .empty
  · have hserved : wp (among (service app) (Pays app once) Explains request) (handle app request)
        (fun _ _ _ => True) {} L :=
      wp_handle (fair_among (fun _ _ hs => hs.1) (fun _ _ _ _ => .intro) request) rfl
        (owes_pays rfl {})
    cases request with
    | reconciliation window =>
        have browses : Browses (among (service app) (Pays app once) Explains
            (.reconciliation window)) Extends :=
          ⟨fun _ _ _ hrely => amid_extends hrely, fun _ => .refl, fun _ _ _ h h' => h.trans h'⟩
        simp only [service, handle, bind_eq, pure_eq, wp_bind]
        refine browses.wp_reconciliation rfl fun s' L' report _ hreported => ?_
        exact ⟨report, L, L', rfl, hreported, .refl⟩
    | _ => exact hserved
  · cases request with
    | reconciliation window =>
        obtain ⟨report, L₀, L₁, hr, hreported, hextends⟩ := hshows
        exact ⟨report, L₀, L₁, hr, hreported, hextends.trans (amid_extends hamid)⟩
    | _ => trivial

/-- **A report never counts a row without its receipt**, whatever is written while it is read. The
page that shows one adds up as well. -/
theorem reports_covered
    {config : Config (Request ⊕ Query) Db Write Error Question Reply (Response ⊕ View)}
    (h : Reachable (site app) emptyLedger config) :
    (∀ window s r, ⟨.inl (.reconciliation window), s, .ended r⟩ ∈ config.threads →
      ∃ report, r = .ok (.inl (.report report)) ∧ report.Covered window) ∧
    ∀ s r, ⟨.inr .dashboard, s, .ended r⟩ ∈ config.threads →
      ∃ summary report, r = .ok (.inr (.dashboard summary report)) ∧ summary.Coherent ∧
        report.Covered {} := by
  obtain ⟨served, hserved, hledger, hsifted⟩ := site_sifted h
  have hhistory : History app once config.ledger := hledger ▸ reachable_history hserved
  constructor
  · intro window s r hthread
    obtain ⟨status, hstatus, hmem⟩ := hsifted.mem_served hthread
    cases status with
    | ended r₀ =>
        obtain rfl := Status.ended.inj hstatus
        have hsound := (reachable_shows hserved).threads _ hmem
        obtain ⟨_, -, report, L₀, L₁, rfl, hreported, hextends⟩ := hsound
        rw [hledger] at hextends
        exact ⟨report, rfl, hreported.covered lawful_once (hhistory.of_extends hextends)⟩
    | running => cases hstatus
    | aborted => cases hstatus
  · intro s r hthread
    obtain ⟨_, rfl, _, summary, report, L₀, L₁, L₂, rfl, hsummary, hreported, hextends⟩ :=
      hsifted.ended hthread
    have hhistory₂ : History app once L₂ := hhistory.of_extends hextends
    exact ⟨summary, report, rfl, hsummary.coherent (hhistory₂.of_extends hreported.grown),
      hreported.covered lawful_once hhistory₂⟩

/-- A page that counts a receipt without its row. -/
def outran : Query × View → Bool
  | (.dashboard, .dashboard _ report) =>
      report.reconciliation.any fun row => row.dashboardCount < row.receiptCount
  | _ => false

theorem reports_covered_glance : ∃ config, browse unreachable glance = some config ∧
    ∃ s summary report,
      ⟨.inr .dashboard, s, .ended (.ok (.inr (.dashboard summary report)))⟩ ∈ config.threads ∧
        (∃ row ∈ report.reconciliation, row.dashboardCount < row.receiptCount) ∧
        report.Covered {} := by
  obtain ⟨config, hconfig, query, s, view, hthread, htest⟩ :=
    exists_shown unreachable glance outran (by rw [browse, shipped_eq_bucketed]; decide +kernel)
  unfold outran at htest
  split at htest
  · next heq =>
    cases heq
    obtain ⟨row, hrow, hlt⟩ := List.any_eq_true.mp htest
    obtain ⟨_, _, heq, -, hcovered⟩ := (reports_covered (browse_reachable hconfig)).2 _ _ hthread
    cases heq
    exact ⟨config, hconfig, s, _, _, hthread, ⟨row, hrow, of_decide_eq_true hlt⟩, hcovered⟩
  · cases htest

/-! ### A summary that is read alone -/

/-- The counts of a summary are those of the receipts, and the parts make the whole. -/
structure Summarize.Summary.Exact (summary : Summarize.Summary) (window : Dashboard.Window) (db : Db) :
    Prop where
  valid : summary.validEvents = Dashboard.receiptCount Dashboard.eventsCreated window db
  invalid : summary.invalidEvents = Dashboard.receiptCount Dashboard.eventsRejected window db
  total : summary.totalEvents = summary.validEvents + summary.invalidEvents
  bySource : summary.validEvents ≤ (summary.bySource.map Prod.snd).sum ∧
    (summary.bySource.map Prod.snd).sum ≤ summary.totalEvents
  leads : summary.totalLeads = Dashboard.receiptCount Dashboard.leads window db
  byStatus : summary.byStatus =
    [("new", 0), ("routed", summary.totalLeads), ("qualified", 0), ("escalated", 0), ("closed", 0)]
  reviews : summary.pendingReviews = reviewDocket.outstanding (db .receipts)
  letters : summary.deadLetters = letterDocket.outstanding (db .receipts)

theorem entries_eq {entries : List (String × Nat)} {f : String → Nat}
    (hentries : ∀ entry ∈ entries, entry.2 = f entry.1) :
    entries = (entries.map Prod.fst).map fun value => (value, f value) := by
  induction entries with
  | nil => rfl
  | cons entry entries ih =>
      rw [List.map_cons, List.map_cons, ← hentries entry (List.mem_cons_self ..),
        ← ih fun entry hentry => hentries entry (List.mem_cons_of_mem _ hentry)]

theorem Counted.alone {α : Type} {q : Db → α} {a : α}
    (h : Counted (fun L L' => L' = L) L L q a) : a = q L.db := by
  obtain ⟨M, rfl, -, ha⟩ := h
  exact ha

/-- The pairs of the counts that a summary shows. -/
theorem Dashboard.created_counts_eq (lawful : sight.Lawful) (h : History app sight L)
    {pair : Dashboard.Pair} (hpair : pair = Dashboard.eventsCreated ∨
      pair = Dashboard.eventsRejected ∨ pair = Dashboard.leads) (window : Dashboard.Window) :
    Dashboard.dashboardCount pair window L.db = Dashboard.receiptCount pair window L.db := by
  refine Dashboard.counts_eq lawful h ?_ ?_ window true (fun _ => ?_) (.inl rfl) <;>
    obtain rfl | rfl | rfl := hpair <;>
    simp [Dashboard.pairs, Dashboard.eventsCreated, Dashboard.eventsRejected, Dashboard.leads,
      Dashboard.routes]

theorem Summarize.pending_eq (db : Db) : Summarize.pending db =
    ((db .manualReviewQueue).filter fun review => !reviewDocket.mark review).length := by
  apply congrArg List.length
  refine List.filter_congr fun review _ => ?_
  cases hstatus : ManualReviewQueue.status review <;> simp [reviewDocket, hstatus]

theorem Summarized.exact (lawful : sight.Lawful) (hhistory : History app sight L)
    (h : Summarized (fun L L' => L' = L) window L summary L₀) : summary.Exact window L.db := by
  obtain @⟨_, _, _, _, _, _, _, _, _, bySource, byDecision, byStatus, rfl, rfl, rfl, rfl, rfl, rfl, rfl,
    rfl, rfl, hsources, hbySource, hdecisions, hbyDecision, hstatuses, hbyStatus⟩ := h
  have hreviews : reviewDocket.Kept L₀.db := hhistory.docket rfl fun htransaction happ hkept =>
    htransaction.keeps_reviews lawful happ hkept
  have hletters : letterDocket.Kept L₀.db := hhistory.docket rfl fun htransaction happ hkept =>
    htransaction.keeps_letters lawful happ hkept
  have hentries := entries_eq (f := fun source => Summarize.events window (fun event =>
    event.source = source) L₀.db) fun entry hentry => (hbySource entry hentry).alone
  have hsum : (bySource.map Prod.snd).sum =
      Summarize.events window (fun event => event.source ∈ Summarize.sources) L₀.db := by
    rw [hentries, hsources, List.map_map, ← Summarize.sum_bySource]
    rfl
  constructor
  · exact Dashboard.created_counts_eq lawful hhistory (.inl rfl) window
  · exact Dashboard.created_counts_eq lawful hhistory (.inr (.inl rfl)) window
  · exact Summarize.events_split window L₀.db
  · rw [hsum]
    exact ⟨Summarize.valid_le_bySource hhistory window, Summarize.bySource_le window L₀.db⟩
  · exact Dashboard.created_counts_eq lawful hhistory (.inr (.inr rfl)) window
  · rw [entries_eq (f := fun status => Summarize.leads window (fun lead =>
      Leads.LeadStatus.text lead.status = status) L₀.db) fun entry hentry =>
        (hbyStatus entry hentry).alone, hstatuses]
    simp [Summarize.statuses, Summarize.leads_byStatus hhistory]
  · rw [← hreviews.outstanding hhistory.distinct]
    exact Summarize.pending_eq L₀.db
  · exact (hletters.outstanding hhistory.distinct).symm ▸ rfl

/-- **A summary that is read alone can be recomputed from the receipts.** -/
theorem summary_exact
    {config : Config (Request ⊕ Query) Db Write Error Question Reply (Response ⊕ View)}
    (h : Reachable (site app) emptyLedger config) {r : Except Error (Response ⊕ View)}
    {s' : Session Write Reply} {L' : Ledger Db Write}
    (hrun : Runs ((site app).solo (.inr (.summary window))) {} config.ledger
      ((site app).program (.inr (.summary window))) r s' L') :
    L' = config.ledger ∧ ∃ summary, r = .ok (.inr (.summary summary)) ∧
      summary.Exact window config.ledger.db := by
  obtain ⟨served, hserved, hledger, -⟩ := site_sifted h
  have hhistory : History app once config.ledger := hledger ▸ reachable_history hserved
  refine hrun.of_wp (fun r _ L' => L' = config.ledger ∧ ∃ summary,
    r = .ok (.inr (.summary summary)) ∧ summary.Exact window config.ledger.db) ?_
  simp only [site, Service.withReaders, Program.map, answer, bind_eq, pure_eq, wp_bind]
  refine browses_alone.wp_getSummary rfl fun s' L' summary _ hsummary => ?_
  have hgrown := hsummary.grown (@browses_alone (site app).Answers fun _ _ => True)
  exact ⟨hgrown, summary, rfl, hsummary.exact lawful_once hhistory⟩

theorem summary_exact_skim : ∃ config, browse unreachable skim = some config ∧
    ∃ s' summary, Runs ((site shipped).solo (.inr (.summary {}))) {} config.ledger
        ((site shipped).program (.inr (.summary {}))) (.ok (.inr (.summary summary))) s' config.ledger ∧
      summary.Exact {} config.ledger.db ∧ summary.totalEvents = 1 := by
  have hplayed : (browse unreachable skim).any (fun config =>
      Dashboard.receiptCount Dashboard.eventsCreated {} config.ledger.db = 1 &&
        Dashboard.receiptCount Dashboard.eventsRejected {} config.ledger.db = 0) = true := by
    rw [browse, shipped_eq_bucketed]
    decide +kernel
  obtain ⟨config, hconfig, h⟩ := (Option.any_eq_true _ _).mp hplayed
  simp only [Bool.and_eq_true, decide_eq_true_eq] at h
  have hrun : Runs ((site shipped).solo (.inr (.summary {}))) {} config.ledger
      ((site shipped).program (.inr (.summary {}))) _ _ _ :=
    exec_runs ⟨fun n => n, fun _ => unreachable⟩ (fun _ => id) (fun _ => id) (fun _ _ _ => trivial)
      (fun _ _ => trivial) _ _ _ 0
  obtain ⟨hledger, summary, hr, hexact⟩ := summary_exact (browse_reachable hconfig) hrun
  rw [hledger, hr] at hrun
  refine ⟨config, hconfig, _, summary, hrun, hexact, ?_⟩
  rw [hexact.total, hexact.valid, hexact.invalid, h.1, h.2]

end DemandSignal
