import DemandSignal.Routers.Queries
import DemandSignal.Spec.Audit
import DemandSignal.Spec.Payloads

/-!
# What a reader counts

Each count of the dashboard is read from a committed ledger of its own, later ones from later ledgers.
Counts of columns that no update changes only grow from one to the next.
-/

namespace DemandSignal

open Txn Program

variable {rules : Rules Db Write Question Reply} {grows : Ledger Db Write → Ledger Db Write → Prop}
  {s : Session Write Reply} {L L' L'' : Ledger Db Write} {α : Type}

/-- A reader of these rules reads from ledgers that `grows` relates. -/
structure Browses (rules : Rules Db Write Question Reply)
    (grows : Ledger Db Write → Ledger Db Write → Prop) : Prop where
  rely : ∀ s L L', rules.rely s L L' → grows L L'
  refl : ∀ L, grows L L
  trans : ∀ L L' L'', grows L L' → grows L' L'' → grows L L''

theorem browses_alone {Answers : Question → Reply → Prop}
    {commits : Session Write Reply → Ledger Db Write → Prop} :
    Browses (alone Answers commits) fun L L' => L' = L where
  rely _ _ _ h := h
  refl _ := rfl
  trans _ _ _ h h' := h'.trans h

/-- The value was that of a ledger in between. -/
def Counted (grows : Ledger Db Write → Ledger Db Write → Prop) (L L' : Ledger Db Write) (q : Db → α)
    (a : α) : Prop :=
  ∃ M, grows L M ∧ grows M L' ∧ a = q M.db

namespace Browses

variable (browses : Browses rules grows)

include browses

theorem wp_select (hs : s.pending = []) {q : Db → α} {post : Post Db Write Error Reply α}
    (hpost : ∀ s' L', s'.pending = [] → grows L L' → post (.ok (q L'.db)) s' L') :
    wp rules (.select q) post s L := by
  intro L' hrely now _ _
  have hview : s.view L'.db = L'.db := by simp [Session.view, hs]
  rw [hview]
  exact hpost _ L' hs (browses.rely s L L' hrely)

theorem wp_countEach {counts : String → Db → Nat} :
    ∀ {values : List String} {s : Session Write Reply} {L : Ledger Db Write}
      {post : Post Db Write Error Reply (List (String × Nat))}, s.pending = [] →
      (∀ s' L' entries, s'.pending = [] → grows L L' → entries.map Prod.fst = values →
        (∀ entry ∈ entries, Counted grows L L' (counts entry.1) entry.2) →
        post (.ok entries) s' L') →
      wp rules (Summarize.countEach counts values) post s L := by
  intro values
  induction values with
  | nil => exact fun hs hpost => hpost _ _ [] hs (browses.refl _) rfl (by simp)
  | cons value values ih =>
      intro s L post hs hpost
      unfold Summarize.countEach
      simp only [bind_eq, pure_eq, Txn.wp_bind]
      refine browses.wp_select hs fun s₁ L₁ hs₁ h₁ => ?_
      simp only [Post.andThen_ok, Txn.wp_bind]
      refine ih hs₁ fun s₂ L₂ entries hs₂ h₂ hvalues hentries => ?_
      refine hpost s₂ L₂ _ hs₂ (browses.trans _ _ _ h₁ h₂) (by rw [List.map_cons, hvalues]) ?_
      intro entry hentry
      rcases List.mem_cons.mp hentry with rfl | hentry
      · exact ⟨L₁, h₁, h₂, rfl⟩
      · obtain ⟨M, hM, hM', hcount⟩ := hentries entry hentry
        exact ⟨M, browses.trans _ _ _ h₁ hM, hM', hcount⟩

end Browses

/-- How a summary came about: the ledgers its counts were read from. -/
inductive Summarized (grows : Ledger Db Write → Ledger Db Write → Prop) (window : Dashboard.Window)
    (L : Ledger Db Write) : Summarize.Summary → Ledger Db Write → Prop
  | intro {L₁ L₂ L₃ L₄ L₅ L₆ L₇ L₈ L₉ bySource byDecision byStatus}
      (h₁ : grows L L₁) (h₂ : grows L₁ L₂) (h₃ : grows L₂ L₃) (h₄ : grows L₃ L₄) (h₅ : grows L₄ L₅)
      (h₆ : grows L₅ L₆) (h₇ : grows L₆ L₇) (h₈ : grows L₇ L₈) (h₉ : grows L₈ L₉)
      (hsources : bySource.map Prod.fst = Summarize.sources)
      (hbySource : ∀ entry ∈ bySource, Counted grows L₃ L₄ (Summarize.events window fun event =>
        event.source = entry.1) entry.2)
      (hdecisions : byDecision.map Prod.fst = Summarize.decisions)
      (hbyDecision : ∀ entry ∈ byDecision, Counted grows L₄ L₅ (Summarize.scores window fun score =>
        score.decision = entry.1) entry.2)
      (hstatuses : byStatus.map Prod.fst = Summarize.statuses)
      (hbyStatus : ∀ entry ∈ byStatus, Counted grows L₅ L₆ (Summarize.leads window fun lead =>
        Leads.LeadStatus.text lead.status = entry.1) entry.2) :
      Summarized grows window L
        { totalEvents := Summarize.events window (fun _ => true) L₁.db
          validEvents := Summarize.events window Event.isValid L₂.db
          invalidEvents := Summarize.events window (fun event => !event.isValid) L₃.db
          bySource, byDecision, byStatus
          totalLeads := Summarize.leads window (fun _ => true) L₉.db
          pendingReviews := Summarize.pending L₇.db
          deadLetters := Summarize.unresolved L₈.db } L₉

theorem Summarized.grown (browses : Browses rules grows) {window : Dashboard.Window}
    {summary : Summarize.Summary} (h : Summarized grows window L summary L') : grows L L' := by
  obtain ⟨h₁, h₂, h₃, h₄, h₅, h₆, h₇, h₈, h₉, -⟩ := h
  have h₃ := browses.trans _ _ _ (browses.trans _ _ _ h₁ h₂) h₃
  have h₆ := browses.trans _ _ _ (browses.trans _ _ _ (browses.trans _ _ _ h₃ h₄) h₅) h₆
  exact browses.trans _ _ _ (browses.trans _ _ _ (browses.trans _ _ _ h₆ h₇) h₈) h₉

theorem Browses.wp_getSummary (browses : Browses rules grows) (hs : s.pending = [])
    {window : Dashboard.Window} {post : Post Db Write Error Reply Summarize.Summary}
    (hpost : ∀ s' L' summary, s'.pending = [] → Summarized grows window L summary L' →
      post (.ok summary) s' L') :
    wp rules (Summarize.getSummary window) post s L := by
  unfold Summarize.getSummary
  simp only [bind_eq, pure_eq, Txn.wp_bind]
  refine browses.wp_select hs fun s₁ L₁ hs₁ h₁ => ?_
  simp only [Post.andThen_ok, Txn.wp_bind]
  refine browses.wp_select hs₁ fun s₂ L₂ hs₂ h₂ => ?_
  simp only [Post.andThen_ok, Txn.wp_bind]
  refine browses.wp_select hs₂ fun s₃ L₃ hs₃ h₃ => ?_
  simp only [Post.andThen_ok, Txn.wp_bind]
  refine browses.wp_countEach hs₃ fun s₄ L₄ bySource hs₄ h₄ hsources hbySource => ?_
  simp only [Post.andThen_ok, Txn.wp_bind]
  refine browses.wp_countEach hs₄ fun s₅ L₅ byDecision hs₅ h₅ hdecisions hbyDecision => ?_
  simp only [Post.andThen_ok, Txn.wp_bind]
  refine browses.wp_countEach hs₅ fun s₆ L₆ byStatus hs₆ h₆ hstatuses hbyStatus => ?_
  simp only [Post.andThen_ok, Txn.wp_bind]
  refine browses.wp_select hs₆ fun s₇ L₇ hs₇ h₇ => ?_
  simp only [Post.andThen_ok, Txn.wp_bind]
  refine browses.wp_select hs₇ fun s₈ L₈ hs₈ h₈ => ?_
  simp only [Post.andThen_ok, Txn.wp_bind]
  refine browses.wp_select hs₈ fun s₉ L₉ hs₉ h₉ => ?_
  exact hpost s₉ L₉ _ hs₉ (.intro h₁ h₂ h₃ h₄ h₅ h₆ h₇ h₈ h₉ hsources hbySource hdecisions hbyDecision
    hstatuses hbyStatus)

/-! ### The report -/

/-- A row of the report: the rows of the pair were counted before its receipts. -/
structure Compared (grows : Ledger Db Write → Ledger Db Write → Prop) (window : Dashboard.Window)
    (L L' : Ledger Db Write) (pair : Dashboard.Pair) (row : Dashboard.ReportRow) : Prop where
  entity : row.entity = pair.metric
  variance : row.variance = Dashboard.distance row.dashboardCount row.receiptCount
  ok : row.ok = decide (row.variance = 0)
  counts : ∃ M M', grows L M ∧ grows M M' ∧ grows M' L' ∧
    row.dashboardCount = Dashboard.dashboardCount pair window M.db ∧
    row.receiptCount = Dashboard.receiptCount pair window M'.db

/-- How a report came about. -/
structure Reported (grows : Ledger Db Write → Ledger Db Write → Prop) (window : Dashboard.Window)
    (L : Ledger Db Write) (report : Dashboard.Report) (L' : Ledger Db Write) : Prop where
  grown : grows L L'
  rows : List.Forall₂ (Compared grows window L L') Dashboard.pairs report.reconciliation
  variance : report.variance = (report.reconciliation.map Dashboard.ReportRow.variance).sum
  pass : report.pass = decide (report.variance = 0)

namespace Browses

variable (browses : Browses rules grows)

include browses

theorem wp_reconcilePairs {window : Dashboard.Window} :
    ∀ {pairs : List Dashboard.Pair} {s : Session Write Reply} {L : Ledger Db Write}
      {post : Post Db Write Error Reply (List Dashboard.ReportRow)}, s.pending = [] →
      (∀ s' L' rows, s'.pending = [] → grows L L' →
        List.Forall₂ (Compared grows window L L') pairs rows → post (.ok rows) s' L') →
      wp rules (Dashboard.reconcilePairs window pairs) post s L := by
  intro pairs
  induction pairs with
  | nil => exact fun hs hpost => hpost _ _ [] hs (browses.refl _) .nil
  | cons pair pairs ih =>
      intro s L post hs hpost
      unfold Dashboard.reconcilePairs Dashboard.reconcilePair
      simp only [bind_eq, pure_eq, Txn.wp_bind]
      refine browses.wp_select hs fun s₁ L₁ hs₁ h₁ => ?_
      simp only [Post.andThen_ok, Txn.wp_bind]
      refine browses.wp_select hs₁ fun s₂ L₂ hs₂ h₂ => ?_
      simp only [Post.andThen_ok, Txn.wp_ret, Txn.wp_bind]
      refine ih hs₂ fun s₃ L₃ rows hs₃ h₃ hrows => ?_
      have h₁₂ := browses.trans _ _ _ h₁ h₂
      refine hpost s₃ L₃ _ hs₃ (browses.trans _ _ _ h₁₂ h₃) (.cons ⟨rfl, rfl, rfl, L₁, L₂, h₁, h₂, h₃,
        rfl, rfl⟩ (hrows.imp fun pair row hrow => ?_))
      obtain ⟨M, M', hM, hM', hL, hcounts⟩ := hrow.counts
      exact ⟨hrow.entity, hrow.variance, hrow.ok, M, M', browses.trans _ _ _ h₁₂ hM, hM', hL, hcounts⟩

theorem wp_reconciliation (hs : s.pending = []) {window : Dashboard.Window}
    {post : Post Db Write Error Reply Dashboard.Report}
    (hpost : ∀ s' L' report, s'.pending = [] → Reported grows window L report L' →
      post (.ok report) s' L') :
    wp rules (Dashboard.reconciliation window) post s L := by
  unfold Dashboard.reconciliation
  simp only [bind_eq, pure_eq, Txn.wp_bind]
  refine browses.wp_reconcilePairs hs fun s' L' rows hs' hgrown hrows => ?_
  exact hpost s' L' _ hs' ⟨hgrown, hrows, rfl, rfl⟩

end Browses

/-! ### Counts -/

/-- A count of columns that no update changes grows. -/
theorem Extends.countP_le {t : Table} {β : Type} {column : Row t → β} (hstatic : Row.Static column)
    (p : β → Bool) (h : Extends L L') :
    ((L.db t).countP fun row => p (column row)) ≤ (L'.db t).countP fun row => p (column row) := by
  induction h with
  | refl => exact le_rfl
  | @tail M _ _ hlast ih =>
      obtain ⟨ws, rfl⟩ := hlast
      have hmap : ∀ rows : List (Row t), (rows.countP fun row => p (column row)) =
          (rows.map column).countP p := fun rows => List.countP_map.symm
      have hrows : ((M.commit ws).db t).map column = (M.db t).map column ++
          (inserted t ws).map column := Db.map_foldl_apply hstatic ws M.db
      refine ih.trans ?_
      rw [hmap, hmap, hrows, List.countP_append]
      exact Nat.le_add_right _ _

/-- Of distinct values, each row has at most one. -/
theorem sum_countP {β : Type} {f : β → String} {values : List String} (hvalues : values.Nodup)
    (w : β → Bool) (rows : List β) :
    (values.map fun value => rows.countP fun row => f row = value && w row).sum =
      rows.countP fun row => decide (f row ∈ values) && w row := by
  induction values with
  | nil => simp
  | cons value values ih =>
      obtain ⟨hnot, hnodup⟩ := List.nodup_cons.mp hvalues
      rw [List.map_cons, List.sum_cons, ih hnodup]
      clear ih
      induction rows with
      | nil => rfl
      | cons row rows ih =>
          simp only [List.countP_cons]
          have hrow : (if (decide (f row = value) && w row) = true then 1 else 0) +
              (if (decide (f row ∈ values) && w row) = true then 1 else 0) =
              if (decide (f row ∈ value :: values) && w row) = true then 1 else 0 := by
            by_cases hvalue : f row = value
            · simp [hvalue, hnot]
            · simp [hvalue]
          omega

/-! ### The columns that are counted -/

variable {app : App} {sight : Sight} {ws : List Write}

/-- An accepted event comes from one of the sources. -/
theorem History.validSources (h : History app sight L) : ∀ event ∈ L.db .events,
    Event.isValid event = true → Event.source event ∈ Summarize.sources := by
  induction h with
  | empty => exact fun event hevent => absurd hevent List.not_mem_nil
  | @commit L ws _ htransaction _ ih =>
      intro event hevent hvalid
      obtain ⟨model, payload, id, hcreates⟩ | hrejects | ⟨model, payload, existing, hedits⟩ | hsame :=
        htransaction.events
      · obtain ⟨row, -, hrows, now, rfl⟩ := hcreates.rows (L := L)
        rw [hrows, List.mem_append, List.mem_singleton] at hevent
        obtain hevent | rfl := hevent
        · exact ih event hevent hvalid
        · cases hcreates with
          | intro hvalidate => exact (Schemas.validate_ok hvalidate).2.1
      · obtain ⟨row, -, hrows, hinvalid, -⟩ := hrejects.rows (L := L)
        rw [hrows, List.mem_append, List.mem_singleton] at hevent
        obtain hevent | rfl := hevent
        · exact ih event hevent hvalid
        · rw [hinvalid] at hvalid
          cases hvalid
      · rw [hedits.rows] at hevent
        obtain ⟨old, hold, rfl⟩ := Db.mem_updated.mp hevent
        by_cases hid : Row.id (t := .events) old = Row.id (t := .events) existing
        · rw [if_pos hid] at hvalid ⊢
          exact ih old hold hvalid
        · rw [if_neg hid] at hvalid ⊢
          exact ih old hold hvalid
      · rw [hsame] at hevent
        exact ih event hevent hvalid

/-- An update to a routed lead leaves routed leads so. -/
theorem Lead.status_merge {loaded new current : Lead} (hnew : new.status = .routed)
    (hcurrent : current.status = .routed ∨ loaded.status = .new) :
    Lead.status (Row.merge (t := .leads) loaded new current) = .routed := by
  by_cases hsame : new.status = loaded.status
  · have hloaded : loaded.status ≠ .new := by
      rw [← hsame, hnew]
      decide
    simp [Row.merge, Row.column, hsame, hcurrent.resolve_right hloaded]
  · rw [hnew] at hsame
    simp [Row.merge, Row.column, hnew, hsame]

theorem Act.Acts.statuses {event : Event} {identityId : Uuid} {score : Option Score}
    (h : Act.Acts app sight L event identityId score ws)
    (hrouted : ∀ lead ∈ L.db .leads, Lead.status lead = .routed) :
    ∀ lead ∈ (L.commit ws).db .leads, Lead.status lead = .routed := by
  obtain @⟨lead, route, touch, leadRid, routeRid, touchRid, now, assignedAt, updatedAt, h⟩ := h
  intro current hcurrent
  rw [commit_rows, Act.writes_leads] at hcurrent
  have hled := h.led
  cases lead with
  | created row =>
      have hstatus : Lead.status row = .new := by rw [hled.2]
      have hne : ({ (row : Lead) with status := .routed } : Lead) ≠ row := by
        intro heq
        rw [← heq] at hstatus
        cases hstatus
      rw [Upsert.writes_created, Upsert.row, saved_of_ne (t := .leads) hne] at hcurrent
      simp only [List.cons_append, List.nil_append, List.foldl_cons, List.foldl_nil,
        Db.apply_update_self, Db.apply_insert_self] at hcurrent
      obtain ⟨old, hold, rfl⟩ := Db.mem_updated.mp hcurrent
      split
      · exact Lead.status_merge rfl (.inr hstatus)
      · next hid =>
        rw [List.mem_append, List.mem_singleton] at hold
        obtain hold | rfl := hold
        · exact hrouted old hold
        · exact absurd rfl hid
  | updated loaded new =>
      have hstatus : Lead.status new = .routed := by rw [hled.2.2]
      have hself : ({ (new : Lead) with status := .routed } : Lead) = new := by rw [← hstatus]
      rw [Upsert.writes_updated, Upsert.row, saved_self (t := .leads) hself, List.append_nil] at hcurrent
      by_cases hsame : new = loaded
      · rw [saved_self hsame] at hcurrent
        exact hrouted current hcurrent
      · rw [saved_of_ne hsame, List.foldl_cons, List.foldl_nil, Db.apply_update_self] at hcurrent
        obtain ⟨old, hold, rfl⟩ := Db.mem_updated.mp hcurrent
        split
        · exact Lead.status_merge hstatus (.inl (hrouted old hold))
        · exact hrouted old hold

/-- A lead that is committed is routed. -/
theorem History.leadStatus (h : History app sight L) :
    ∀ lead ∈ L.db .leads, Lead.status lead = .routed := by
  induction h with
  | empty => exact fun lead hlead => absurd hlead List.not_mem_nil
  | @commit L ws _ htransaction _ ih =>
      have hsame : ∀ {ts}, Names ws ts → Table.leads ∉ ts →
          ∀ lead ∈ (L.commit ws).db .leads, Lead.status lead = .routed := by
        intro ts hnames hts
        rw [commit_of_untouched (hnames.ne hts)]
        exact ih
      cases htransaction with
      | acts h => exact h.statuses ih
      | creates h => exact hsame h.tables (by decide)
      | edits h => exact hsame h.tables (by decide)
      | rejects h => exact hsame h.tables (by decide)
      | links h => exact hsame h.tables (by decide)
      | parks h => exact hsame h.tables (by decide)
      | resolves h => exact hsame h.tables (by decide)
      | interprets h => exact hsame h.tables (by decide)
      | scores h => exact hsame h.tables (by decide)
      | deadLetters h => exact hsame h.tables (by decide)
      | revives h => exact hsame h.tables (by decide)
      | escalates h => exact hsame h.tables (by decide)

namespace Summarize

theorem windowed_eq {t : Table} (timestamp : Row t → Time) (window : Dashboard.Window) (p : Row t → Bool)
    (db : Db) : windowed timestamp window p db =
      (db t).countP fun row => p row && window.contains (timestamp row) :=
  List.countP_eq_length_filter.symm

/-- Every event is accepted or rejected. -/
theorem events_split (window : Dashboard.Window) (db : Db) : events window (fun _ => true) db =
    events window Event.isValid db + events window (fun event => !event.isValid) db := by
  simp only [events, windowed_eq]
  induction db .events with
  | nil => rfl
  | cons event rows ih =>
      simp only [List.countP_cons, ih]
      cases Event.isValid event <;> simp <;> omega

/-- The events of the sources. -/
theorem sum_bySource (window : Dashboard.Window) (db : Db) :
    (sources.map fun source => events window (fun event => event.source = source) db).sum =
      events window (fun event => event.source ∈ sources) db := by
  simp only [events, windowed_eq]
  exact sum_countP (f := Event.source) (by decide) _ _

theorem valid_le_bySource (h : History app sight L) (window : Dashboard.Window) :
    events window Event.isValid L.db ≤ events window (fun event => event.source ∈ sources) L.db := by
  simp only [events, windowed_eq]
  refine List.countP_mono_left fun event hevent hcounted => ?_
  rw [Bool.and_eq_true] at hcounted ⊢
  exact ⟨decide_eq_true (h.validSources event hevent hcounted.1), hcounted.2⟩

theorem bySource_le (window : Dashboard.Window) (db : Db) :
    events window (fun event => event.source ∈ sources) db ≤ events window (fun _ => true) db := by
  simp only [events, windowed_eq]
  refine List.countP_mono_left fun event _ hcounted => ?_
  rw [Bool.and_eq_true] at hcounted ⊢
  exact ⟨rfl, hcounted.2⟩

/-- Every lead is counted as routed. -/
theorem leads_byStatus (h : History app sight L) (window : Dashboard.Window) (status : String) :
    leads window (fun lead => Leads.LeadStatus.text lead.status = status) L.db =
      if status = "routed" then leads window (fun _ => true) L.db else 0 := by
  simp only [leads, windowed_eq]
  split
  · next hstatus =>
    refine List.countP_congr fun lead hlead => ?_
    simp [h.leadStatus lead hlead, Leads.LeadStatus.text, hstatus]
  · next hstatus =>
    rw [List.countP_eq_zero]
    intro lead hlead hcounted
    rw [Bool.and_eq_true, decide_eq_true_eq, h.leadStatus lead hlead] at hcounted
    exact hstatus hcounted.1.symm

/-- Counts of events by columns that stay grow. -/
theorem events_le (h : Extends L L') (window : Dashboard.Window) (p : Bool → String → Bool) :
    events window (fun event => p event.isValid event.source) L.db ≤
      events window (fun event => p event.isValid event.source) L'.db := by
  simp only [events, windowed_eq]
  have hstatic : Row.Static (t := .events) fun event : Event =>
      (event.isValid, event.source, event.createdAt) := fun _ _ _ => rfl
  exact h.countP_le hstatic fun columns => p columns.1 columns.2.1 && window.contains columns.2.2

theorem leads_le (h : Extends L L') (window : Dashboard.Window) :
    leads window (fun _ => true) L.db ≤ leads window (fun _ => true) L'.db := by
  simp only [leads, windowed_eq]
  have hstatic : Row.Static (t := .leads) Lead.createdAt := fun _ _ _ => rfl
  exact h.countP_le hstatic fun createdAt => true && window.contains createdAt

end Summarize

end DemandSignal
