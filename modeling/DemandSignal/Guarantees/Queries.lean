import DemandSignal.Simulation
import DemandSignal.Spec.Lifecycles
import DemandSignal.Spec.Summary

/-!
# Readers

The requests that only read are not noticed by the others and wait for nobody. What they show may be
of several moments, but never more than there is.
-/

namespace DemandSignal

open Txn Program

variable {app : App}

/-! ### Reading only -/

theorem Summarize.readOnly_countEach (counts : String → Db → Nat) (values : List String) :
    (Summarize.countEach counts values).ReadOnly := by
  induction values with
  | nil => trivial
  | cons value values ih => exact (readOnly_select _).bind fun _ => ih.bind fun _ => trivial

theorem Summarize.readOnly_getSummary (window : Dashboard.Window) :
    (Summarize.getSummary window).ReadOnly := by
  refine (readOnly_select _).bind fun _ => (readOnly_select _).bind fun _ =>
    (readOnly_select _).bind fun _ => (Summarize.readOnly_countEach _ _).bind fun _ =>
      (Summarize.readOnly_countEach _ _).bind fun _ => (Summarize.readOnly_countEach _ _).bind fun _ => ?_
  exact (readOnly_select _).bind fun _ => (readOnly_select _).bind fun _ =>
    (readOnly_select _).bind fun _ => trivial

theorem Dashboard.readOnly_reconcilePair (window : Dashboard.Window) (pair : Dashboard.Pair) :
    (Dashboard.reconcilePair window pair).ReadOnly :=
  (readOnly_select _).bind fun _ => (readOnly_select _).bind fun _ => trivial

theorem Dashboard.readOnly_reconcilePairs (window : Dashboard.Window) (pairs : List Dashboard.Pair) :
    (Dashboard.reconcilePairs window pairs).ReadOnly := by
  induction pairs with
  | nil => trivial
  | cons pair pairs ih =>
      exact (Dashboard.readOnly_reconcilePair window pair).bind fun _ => ih.bind fun _ => trivial

theorem Dashboard.readOnly_reconciliation (window : Dashboard.Window) :
    (Dashboard.reconciliation window).ReadOnly :=
  (Dashboard.readOnly_reconcilePairs window _).bind fun _ => trivial

-- From here on these two are known by their lemmas: unification would evaluate them.
attribute [local irreducible] Summarize.getSummary Dashboard.reconciliation

theorem Dashboard.readOnly_dashboardPage : Dashboard.dashboardPage.ReadOnly :=
  (Summarize.readOnly_getSummary {}).bind fun _ => (Dashboard.readOnly_reconciliation {}).bind
    fun _ => trivial

theorem ManualReview.readOnly_manualReviewPage : ManualReview.manualReviewPage.ReadOnly :=
  (readOnly_select _).bind fun _ => (readOnly_select _).bind fun _ => trivial

theorem Events.readOnly_getEvent (eventId : Option Uuid) : (Events.getEvent eventId).ReadOnly := by
  cases eventId with
  | none => trivial
  | some eventId =>
      refine (readOnly_select _).bind fun event => ?_
      cases event with
      | none => trivial
      | some event => exact (readOnly_select _).bind fun _ => trivial

theorem readOnly_answer (query : Query) : (answer query).ReadOnly := by
  cases query with
  | event eventId => exact (Events.readOnly_getEvent eventId).bind fun _ => trivial
  | deadLetters resolved => exact (readOnly_select _).bind fun _ => trivial
  | reviews statusFilter => exact (readOnly_select _).bind fun _ => trivial
  | reviewPage => exact ManualReview.readOnly_manualReviewPage.bind fun _ => trivial
  | summary window => exact (Summarize.readOnly_getSummary window).bind fun _ => trivial
  | dashboard => exact Dashboard.readOnly_dashboardPage.bind fun _ => trivial

/-! ### What is shown -/

theorem browses_reading : Browses (reading Extends) Extends where
  rely _ _ _ h := h
  refl _ := .refl
  trans _ _ _ h h' := h.trans h'

/-- What a query has shown, of ledgers that the present one extends. -/
def Query.Shows : Query → Except Error View → Ledger Db Write → Prop
  | .deadLetters resolved, r, L => ∃ M, Extends M L ∧
      r = .ok (.deadLetters (DeadLetter.listed resolved M.db))
  | .reviews statusFilter, r, L => ∃ M, Extends M L ∧
      r = .ok (.reviews (ManualReview.listed ((statusFilter.bind Python.orNone).getD "pending") M.db))
  | .reviewPage, r, L => ∃ M M', Extends M M' ∧ Extends M' L ∧
      r = .ok (.reviews (ManualReview.shownPage (ManualReview.listed "pending" M.db)
        (ManualReview.listed "resolved" M'.db)))
  | .summary window, r, L => ∃ summary L₀ L₁, r = .ok (.summary summary) ∧
      Summarized Extends window L₀ summary L₁ ∧ Extends L₁ L
  | .dashboard, r, L => ∃ summary report L₀ L₁ L₂, r = .ok (.dashboard summary report) ∧
      Summarized Extends {} L₀ summary L₁ ∧ Reported Extends {} L₁ report L₂ ∧ Extends L₂ L
  | _, _, _ => True

theorem Query.Shows.extends {query : Query} {r : Except Error View} {L L' : Ledger Db Write}
    (h : query.Shows r L) (hextends : Extends L L') : query.Shows r L' := by
  cases query with
  | deadLetters resolved =>
      obtain ⟨M, hM, hr⟩ := h
      exact ⟨M, hM.trans hextends, hr⟩
  | reviews statusFilter =>
      obtain ⟨M, hM, hr⟩ := h
      exact ⟨M, hM.trans hextends, hr⟩
  | reviewPage =>
      obtain ⟨M, M', hM, hM', hr⟩ := h
      exact ⟨M, M', hM, hM'.trans hextends, hr⟩
  | summary window =>
      obtain ⟨summary, L₀, L₁, hr, hsummary, hL⟩ := h
      exact ⟨summary, L₀, L₁, hr, hsummary, hL.trans hextends⟩
  | dashboard =>
      obtain ⟨summary, report, L₀, L₁, L₂, hr, hsummary, hreport, hL⟩ := h
      exact ⟨summary, report, L₀, L₁, L₂, hr, hsummary, hreport, hL.trans hextends⟩
  | event => trivial

theorem wp_answer (query : Query) (L : Ledger Db Write) :
    wp (reading Extends) (answer query) (fun r _ L' => query.Shows r L') {} L := by
  cases query with
  | deadLetters resolved =>
      simp only [answer, DeadLetter.listDeadLetter, bind_eq, pure_eq, wp_bind]
      refine browses_reading.wp_select rfl fun s' L' _ _ => ?_
      exact ⟨L', .refl, rfl⟩
  | reviews statusFilter =>
      simp only [answer, ManualReview.getPendingReviews, bind_eq, pure_eq, wp_bind]
      refine browses_reading.wp_select rfl fun s' L' _ _ => ?_
      exact ⟨L', .refl, rfl⟩
  | reviewPage =>
      simp only [answer, ManualReview.manualReviewPage, ManualReview.getPendingReviews, bind_eq, pure_eq,
        wp_bind]
      refine browses_reading.wp_select rfl fun s₁ L₁ hs₁ _ => ?_
      simp only [Post.andThen_ok, wp_bind]
      refine browses_reading.wp_select hs₁ fun s₂ L₂ _ h₂ => ?_
      exact ⟨L₁, L₂, h₂, .refl, rfl⟩
  | summary window =>
      simp only [answer, bind_eq, pure_eq, wp_bind]
      refine browses_reading.wp_getSummary rfl fun s' L' summary _ hsummary => ?_
      exact ⟨summary, L, L', rfl, hsummary, .refl⟩
  | dashboard =>
      simp only [answer, Dashboard.dashboardPage, bind_eq, pure_eq, wp_bind]
      refine browses_reading.wp_getSummary rfl fun s₁ L₁ summary hs₁ hsummary => ?_
      simp only [Post.andThen_ok, wp_bind]
      refine browses_reading.wp_reconciliation hs₁ fun s₂ L₂ report _ hreport => ?_
      exact ⟨summary, report, L, L₁, L₂, rfl, hsummary, hreport, .refl⟩
  | event => exact (readOnly_answer _).wp_of_forall fun _ _ _ => trivial

/-- What is left of the site without its readers, and what they have shown. -/
theorem site_sifted {config : Config (Request ⊕ Query) Db Write Error Question Reply (Response ⊕ View)}
    (h : Reachable (site app) emptyLedger config) :
    ∃ served, Reachable (service app) emptyLedger served ∧ served.ledger = config.ledger ∧
      Sifted Extends (fun query r _ L => query.Shows r L) config.ledger config.threads served.threads :=
  h.sift (fun _ => .refl) (fun _ _ _ h h' => h.trans h') (fun _ _ _ _ _ h h' => h.extends h')
    readOnly_answer (fun _ _ _ hstep => hstep.extends) fun query config _ => wp_answer query config.ledger

/-- **Queries go unnoticed and wait for nobody.** Take the requests that only read out of an
interleaving: what is left is an interleaving of the others, which return the same and lead to the same
ledger. And a query takes its next step whatever the others hold. -/
theorem queries_unnoticed
    {config : Config (Request ⊕ Query) Db Write Error Question Reply (Response ⊕ View)}
    (h : Reachable (site app) emptyLedger config) :
    (∃ served, Reachable (service app) emptyLedger served ∧ served.ledger = config.ledger ∧
      (config.threads.filterMap fun thread =>
          thread.input.getLeft?.map fun request => (request, thread.result)) =
        served.threads.map fun thread => (thread.input, thread.result.map fun r => r.map .inl)) ∧
    ∀ (n : ℕ) (query : Query) s p, config.threads[n]? = some ⟨.inr query, s, .running p⟩ →
      ∃ s' status, Step (site app) config
        { config with threads := config.threads.set n ⟨.inr query, s', status⟩ } := by
  obtain ⟨served, hreachable, hledger, hsifted⟩ := site_sifted h
  exact ⟨⟨served, hreachable, hledger, hsifted.results⟩,
    fun n query s p hthread => hsifted.exists_step hthread⟩

/-- What a schedule of requests and queries leads to. -/
def browse (reply : Question → Reply) (schedule : List (Action (Request ⊕ Query))) :
    Option (Config (Request ⊕ Query) Db Write Error Question Reply (Response ⊕ View)) :=
  Config.play (site shipped) reply 0 ⟨emptyLedger, []⟩ schedule

theorem browse_reachable {reply : Question → Reply} {schedule : List (Action (Request ⊕ Query))}
    {config : Config (Request ⊕ Query) Db Write Error Question Reply (Response ⊕ View)}
    (h : browse reply schedule = some config) : Reachable (site shipped) emptyLedger config := by
  refine Config.play_reachable (fun input _ _ _ => ?_) (fun _ => trivial) .refl h
  cases input <;> trivial

/-- What a thread has shown. -/
def shown (thread : Thread (Request ⊕ Query) Db Write Error Question Reply (Response ⊕ View)) :
    Option (Query × View) :=
  match thread.input, thread.status with
  | .inr query, .ended (.ok (.inr view)) => some (query, view)
  | _, _ => none

/-- A schedule under which a thread has shown what the test asks for. -/
theorem exists_shown (reply : Question → Reply) (schedule : List (Action (Request ⊕ Query)))
    (test : Query × View → Bool)
    (h : (browse reply schedule).any (fun config =>
      config.threads.any fun thread => (shown thread).any test) = true) :
    ∃ config, browse reply schedule = some config ∧ ∃ query s view,
      ⟨.inr query, s, .ended (.ok (.inr view))⟩ ∈ config.threads ∧ test (query, view) = true := by
  obtain ⟨config, hconfig, h⟩ := (Option.any_eq_true _ _).mp h
  obtain ⟨⟨input, s, status⟩, hthread, h⟩ := List.any_eq_true.mp h
  obtain ⟨⟨query, view⟩, hshown, htest⟩ := (Option.any_eq_true _ _).mp h
  unfold shown at hshown
  split at hshown
  · next hinput hstatus =>
    cases hinput
    cases hstatus
    cases hshown
    exact ⟨config, hconfig, query, s, view, hthread, htest⟩
  · cases hshown

/-- The dashboard, and a form that is stored while the first pair of the report is counted. -/
def glance : List (Action (Request ⊕ Query)) :=
  [.spawn (.inl (webForm "1" firstDay "hi")), .spawn (.inr .dashboard)] ++
    List.replicate 19 (.step 1) ++ List.replicate 8 (.step 0) ++ List.replicate 16 (.step 1)

theorem queries_unnoticed_glance : ∃ config, browse unreachable glance = some config ∧
    config.ledger.log.length = 1 ∧ ∃ served, Reachable (service shipped) emptyLedger served ∧
      served.ledger = config.ledger ∧ served.threads.length = 1 := by
  have hplayed : (browse unreachable glance).any (fun config => config.ledger.log.length = 1 &&
      (config.threads.filterMap fun thread =>
        thread.input.getLeft?.map fun request => (request, thread.result)).length = 1) = true := by
    rw [browse, shipped_eq_bucketed]
    decide +kernel
  obtain ⟨config, hconfig, h⟩ := (Option.any_eq_true _ _).mp hplayed
  simp only [Bool.and_eq_true, decide_eq_true_eq] at h
  obtain ⟨⟨served, hreachable, hledger, hresults⟩, -⟩ := queries_unnoticed (browse_reachable hconfig)
  have hlength := congrArg List.length hresults
  rw [h.2, List.length_map] at hlength
  exact ⟨config, hconfig, h.1, served, hreachable, hledger, hlength.symm⟩

end DemandSignal
