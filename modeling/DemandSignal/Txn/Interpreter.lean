import DemandSignal.Txn.Interleave

/-!
# An interpreter

`exec` runs one program alone and `Config.play` runs a schedule of steps of many, both with a given
clock and given replies. What they compute is one of the runs the semantics allows.
-/

namespace DemandSignal.Txn

variable {ι D W K X Q A α : Type} [Store D W K]

/-- The clock readings and replies of one run. -/
structure Oracle (Q A : Type) where
  clock : Nat → Time
  reply : Nat → Q → A

/-- Run a program alone; the counter indexes the oracle. -/
def exec (oracle : Oracle Q A) : Program D W X Q A α → Session W A → Ledger D W → Nat →
    Except X α × Session W A × Ledger D W × Nat
  | .ret a, s, L, n => (.ok a, s, L, n)
  | .raise x, s, L, n => (.error x, s, L, n)
  | .read q k, s, L, n =>
      exec oracle (k (q (s.view L.db))) (s.begin (s.start.getD (oracle.clock n))) L (n + 1)
  | .write f k, s, L, n =>
      let t := s.start.getD (oracle.clock n)
      match f t (s.view L.db) with
      | (none, b) => exec oracle (k (some b)) (s.begin t) L (n + 1)
      | (some w, b) =>
          if Store.refuses (s.view L.db) w then exec oracle (k none) (s.begin t) L (n + 1)
          else exec oracle (k (some b)) ((s.begin t).add w) L (n + 1)
  | .commit k, s, L, n => exec oracle k s.close (L.commit s.pending) n
  | .rollback k, s, L, n => exec oracle k s.undo L n
  | .uuid k, s, L, n =>
      exec oracle (k (Store.fresh L.db s.own)) (s.draw (Store.fresh L.db s.own)) L n
  | .now k, s, L, n =>
      exec oracle (k (max (oracle.clock n) (s.start.getD (oracle.clock n)))) s L (n + 1)
  | .ask q k, s, L, n => exec oracle (k (oracle.reply n q)) (s.hear (oracle.reply n q)) L (n + 1)

omit [Store D W K] in
theorem Session.startsAt_getD (s : Session W A) (t : Time) : s.StartsAt (s.start.getD t) := by
  intro start hstart
  rw [Option.mem_def] at hstart
  simp [hstart]

/-- **The interpreter runs the program.** -/
theorem exec_runs {setting : Setting D W K Q A} (oracle : Oracle Q A)
    (hbusy : ∀ key, ¬ setting.Busy key) (htaken : ∀ u, ¬ setting.Taken u)
    (hpermits : ∀ s L v, setting.Permits s L v) (hreply : ∀ n q, setting.Answers q (oracle.reply n q))
    (p : Program D W X Q A α) (s : Session W A) (L : Ledger D W) (n : Nat) :
    Runs setting s L p (exec oracle p s L n).1 (exec oracle p s L n).2.1
      (exec oracle p s L n).2.2.1 := by
  induction p generalizing s L n with
  | ret a => exact .ret
  | raise x => exact .raise
  | read q k ih =>
      exact .move (.read (s.startsAt_getD _) (hpermits _ _ _)) (ih _ _ _ _)
  | write f k ih =>
      rw [exec]
      split
      · rename_i b hf
        exact .move (.skipped (s.startsAt_getD _) hf (hpermits _ _ _)) (ih _ _ _ _)
      · rename_i w b hf
        split
        · rename_i hrefuse
          exact .move (.refused (s.startsAt_getD _) hf hrefuse (fun key _ => hbusy key)
            (hpermits _ _ _)) (ih _ _ _ _)
        · rename_i haccept
          exact .move (.wrote (s.startsAt_getD _) hf (by simpa using haccept)
            (fun key _ => hbusy key) (hpermits _ _ _)) (ih _ _ _ _)
  | commit k ih => exact .move .commit (ih _ _ _)
  | rollback k ih => exact .move .rollback (ih _ _ _)
  | uuid k ih =>
      exact .move (.uuid (Store.fresh_not_inUse _ _) (Store.fresh_not_mem _ _) (htaken _))
        (ih _ _ _ _)
  | now k ih =>
      refine .move (.now fun start hstart => ?_) (ih _ _ _ _)
      rw [Option.mem_def] at hstart
      rw [hstart, Option.getD_some]
      exact Int.le_max_right _ _
  | ask q k ih => exact .move (.ask (hreply n q)) (ih _ _ _ _)

/-- A program has a run from every state, whatever the outside world is known to answer. -/
theorem exists_run {setting : Setting D W K Q A} (hbusy : ∀ key, ¬ setting.Busy key)
    (htaken : ∀ u, ¬ setting.Taken u) (hpermits : ∀ s L v, setting.Permits s L v)
    (hanswer : ∀ q, ∃ a, setting.Answers q a) (p : Program D W X Q A α) (s : Session W A)
    (L : Ledger D W) : ∃ r s' L', Runs setting s L p r s' L' := by
  choose reply hreply using hanswer
  exact ⟨_, _, _, exec_runs ⟨fun _ => 0, fun _ => reply⟩ hbusy htaken hpermits
    (fun _ q => hreply q) p s L 0⟩

/-! ### Schedules -/

/-- What a scheduler may do: start a request, or let a thread take its next step. -/
inductive Action (ι : Type) where
  | spawn (i : ι)
  | step (n : Nat)

section Schedule

variable [DecidableEq K]

/-- Some other thread holds a lock the write needs. -/
def Config.blocked (config : Config ι D W X Q A α) (n : Nat) (w : W) : Bool :=
  (List.range config.threads.length).any fun m => m != n &&
    (config.threads[m]?.any fun thread => thread.session.pending.any fun w' =>
      (Store.locks D w).any fun key => decide (key ∈ Store.locks D w'))

/-- Let thread `n` take one step at time `t`; `none` when it waits for a lock or has stopped. -/
def Config.advance (config : Config ι D W X Q A α) (reply : Q → A) (t : Time) (n : Nat) :
    Option (Config ι D W X Q A α) :=
  match config.threads[n]? with
  | none => none
  | some thread =>
    let s := thread.session
    let L := config.ledger
    let start := s.start.getD t
    let become (s' : Session W A) (L' : Ledger D W) (p' : Program D W X Q A α) :=
      some { ledger := L', threads := config.threads.set n ⟨thread.input, s', .running p'⟩ }
    match thread.status with
    | .running (.ret a) =>
        some { config with threads := config.threads.set n ⟨thread.input, s.close, .ended (.ok a)⟩ }
    | .running (.raise x) =>
        some { config with
          threads := config.threads.set n ⟨thread.input, s.close, .ended (.error x)⟩ }
    | .running (.read q k) => become (s.begin start) L (k (q (s.view L.db)))
    | .running (.write f k) =>
        match f start (s.view L.db) with
        | (none, b) => become (s.begin start) L (k (some b))
        | (some w, b) =>
            if config.blocked n w then none
            else if Store.refuses (s.view L.db) w then become (s.begin start) L (k none)
            else become ((s.begin start).add w) L (k (some b))
    | .running (.commit k) => become s.close (L.commit s.pending) k
    | .running (.rollback k) => become s.undo L k
    | .running (.uuid k) =>
        let u := Store.fresh L.db (config.threads.flatMap fun thread => thread.session.own)
        become (s.draw u) L (k u)
    | .running (.now k) => become s L (k (max t start))
    | .running (.ask q k) => become (s.hear (reply q)) L (k (reply q))
    | .ended _ => none
    | .aborted => none

def Config.play (service : Service ι D W X Q A α) (reply : Q → A) :
    Time → Config ι D W X Q A α → List (Action ι) → Option (Config ι D W X Q A α)
  | _, config, [] => some config
  | t, config, .spawn i :: rest =>
      Config.play service reply (t + 1)
        { config with threads := config.threads ++ [⟨i, {}, .running (service.program i)⟩] } rest
  | t, config, .step n :: rest =>
      match config.advance reply t n with
      | none => none
      | some config' => Config.play service reply (t + 1) config' rest

theorem Config.not_busy {service : Service ι D W X Q A α} {config : Config ι D W X Q A α} {n : Nat}
    {i : ι} {w : W} (h : config.blocked n w = false) :
    ∀ key ∈ Store.locks D w, ¬ (config.setting service n i).Busy key := by
  rintro key hkey ⟨m, hmn, thread, hthread, w', hw', hkey'⟩
  rw [Option.mem_def] at hthread
  have hlt : m < config.threads.length := (List.getElem?_eq_some_iff.mp hthread).1
  have htrue : config.blocked n w = true := by
    simp only [Config.blocked, List.any_eq_true, List.mem_range]
    refine ⟨m, hlt, ?_⟩
    simp only [hthread, Option.any_some, Bool.and_eq_true, bne_iff_ne, List.any_eq_true]
    exact ⟨hmn, w', hw', key, hkey, decide_eq_true hkey'⟩
  rw [h] at htrue
  cases htrue

theorem Config.advance_step {service : Service ι D W X Q A α} {reply : Q → A} {t : Time} {n : Nat}
    {config config' : Config ι D W X Q A α}
    (hpermits : ∀ thread ∈ config.threads[n]?, ∀ v,
      service.Permits thread.input thread.session config.ledger v)
    (hreply : ∀ q, service.Answers q (reply q)) (h : config.advance reply t n = some config') :
    Step service config config' := by
  unfold Config.advance at h
  split at h
  · cases h
  · rename_i thread hthread
    have hpermits := hpermits thread hthread
    obtain ⟨i, s, status⟩ := thread
    cases status with
    | running p =>
        cases p with
        | ret a =>
            cases h
            exact .ret hthread
        | raise x =>
            cases h
            exact .raise hthread
        | read q k =>
            cases h
            exact .move hthread (.read (s.startsAt_getD _) (hpermits _))
        | write f k =>
            simp only at h
            split at h
            · rename_i b hf
              cases h
              exact .move hthread (.skipped (s.startsAt_getD _) hf (hpermits _))
            · rename_i w b hf
              split at h
              · cases h
              · rename_i hfree
                have hfree : ∀ key ∈ Store.locks D w, ¬ (config.setting service n i).Busy key :=
                  Config.not_busy (Bool.eq_false_iff.mpr hfree)
                split at h
                · rename_i hrefuse
                  cases h
                  exact .move hthread (.refused (s.startsAt_getD _) hf hrefuse hfree
                    (hpermits _))
                · rename_i haccept
                  cases h
                  exact .move hthread (.wrote (s.startsAt_getD _) hf (by simpa using haccept) hfree
                    (hpermits _))
        | commit k =>
            cases h
            exact .move hthread .commit
        | rollback k =>
            cases h
            exact .move hthread .rollback
        | uuid k =>
            cases h
            have hown := Store.fresh_not_mem config.ledger.db
              (config.threads.flatMap fun thread => thread.session.own)
            rw [List.mem_flatMap] at hown
            refine .move hthread (.uuid (Store.fresh_not_inUse _ _) ?_ ?_)
            · exact fun hmem => hown ⟨_, List.mem_of_getElem? hthread, hmem⟩
            · rintro ⟨m, _, other, hother, hmem⟩
              exact hown ⟨other, List.mem_of_getElem? hother, hmem⟩
        | now k =>
            cases h
            refine .move hthread (.now fun start hstart => ?_)
            rw [Option.mem_def] at hstart
            rw [hstart, Option.getD_some]
            exact Int.le_max_right _ _
        | ask q k =>
            cases h
            exact .move hthread (.ask (hreply q))
    | ended r => cases h
    | aborted => cases h

/-- **A played schedule is an interleaving.** -/
theorem Config.play_reachable {service : Service ι D W X Q A α} {reply : Q → A}
    (hpermits : ∀ i s L v, service.Permits i s L v) (hreply : ∀ q, service.Answers q (reply q))
    {start : Ledger D W} :
    ∀ {schedule : List (Action ι)} {t : Time} {config config' : Config ι D W X Q A α},
      Reachable service start config → config.play service reply t schedule = some config' →
      Reachable service start config'
  | [], _, _, _, hreach, h => by
      cases h
      exact hreach
  | .spawn i :: rest, _, _, _, hreach, h =>
      Config.play_reachable hpermits hreply (hreach.tail (.spawn i)) h
  | .step n :: rest, t, config, config', hreach, h => by
      rw [Config.play] at h
      split at h
      · cases h
      · rename_i next hnext
        exact Config.play_reachable hpermits hreply
          (hreach.tail (Config.advance_step (fun _ _ v => hpermits _ _ _ v) hreply hnext)) h

/-- A schedule whose steps are all allowed. -/
def Config.playAllowed (allowed : Thread ι D W X Q A α → Ledger D W → Bool)
    (service : Service ι D W X Q A α) (reply : Q → A) :
    Time → Config ι D W X Q A α → List (Action ι) → Option (Config ι D W X Q A α)
  | _, config, [] => some config
  | t, config, .spawn i :: rest =>
      Config.playAllowed allowed service reply (t + 1)
        { config with threads := config.threads ++ [⟨i, {}, .running (service.program i)⟩] } rest
  | t, config, .step n :: rest =>
      if config.threads[n]?.all fun thread => allowed thread config.ledger then
        match config.advance reply t n with
        | none => none
        | some config' => Config.playAllowed allowed service reply (t + 1) config' rest
      else none

theorem Config.playAllowed_reachable {service : Service ι D W X Q A α} {reply : Q → A}
    {allowed : Thread ι D W X Q A α → Ledger D W → Bool}
    (hallowed : ∀ thread L v, allowed thread L = true →
      service.Permits thread.input thread.session L v)
    (hreply : ∀ q, service.Answers q (reply q)) {start : Ledger D W} :
    ∀ {schedule : List (Action ι)} {t : Time} {config config' : Config ι D W X Q A α},
      Reachable service start config →
      config.playAllowed allowed service reply t schedule = some config' →
      Reachable service start config'
  | [], _, _, _, hreach, h => by
      cases h
      exact hreach
  | .spawn i :: rest, _, _, _, hreach, h =>
      Config.playAllowed_reachable hallowed hreply (hreach.tail (.spawn i)) h
  | .step n :: rest, t, config, config', hreach, h => by
      rw [Config.playAllowed] at h
      split at h
      · rename_i hall
        split at h
        · cases h
        · rename_i next hnext
          refine Config.playAllowed_reachable hallowed hreply
            (hreach.tail (Config.advance_step (fun thread hthread v => ?_) hreply hnext)) h
          rw [Option.mem_def] at hthread
          rw [hthread] at hall
          exact hallowed thread _ v hall
      · cases h

end Schedule

end DemandSignal.Txn
