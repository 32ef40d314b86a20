import DemandSignal.Txn.Interleave
import DemandSignal.Txn.Walks
import DemandSignal.Txn.Census
import Mathlib.Logic.Hydra
import Mathlib.Tactic.Abel

/-!
# Progress

Sessions that take their locks in one order never wait for each other in a circle. A lock either
belongs to the session that drew its id, and no other asks for it, or it has a rank, and a session that
asks for it holds locks of lower ranks only. So one of the sessions that run can always go on. Every
program is finite, so however the sessions are scheduled, all of them come to an end.
-/

namespace DemandSignal.Txn

variable {ι D W K X Q A α : Type} [Store D W K]

/-- The order in which locks are taken. A lock with an owner is asked for only by the session that has
drawn the owner. -/
structure Ladder (K : Type) where
  owner : K → Option Uuid
  rank : K → ℕ
  height : ℕ
  rank_le : ∀ key, rank key ≤ height

namespace Ladder

variable (ladder : Ladder K)

/-- The session holds the lock, or only locks below it. -/
def Reaches (s : Session W A) (key : K) : Prop :=
  (∃ w ∈ s.pending, key ∈ Store.locks D w) ∨
    ∀ w ∈ s.pending, ∀ held ∈ Store.locks D w, ladder.owner held = none →
      ladder.rank held < ladder.rank key

/-- The session may ask for the locks of a write. -/
structure Admits (s : Session W A) (w : W) : Prop where
  owned : ∀ key ∈ Store.locks D w, ∀ u ∈ ladder.owner key, u ∈ s.own
  climbs : ∀ key ∈ Store.locks D w, ladder.owner key = none → ladder.Reaches (D := D) s key

/-- The owned locks of a session are its own. -/
def Owns (s : Session W A) : Prop :=
  ∀ w ∈ s.pending, ∀ key ∈ Store.locks D w, ∀ u ∈ ladder.owner key, u ∈ s.own

end Ladder

/-- A step of a request that runs: none starts and none is aborted. -/
inductive Advance (service : Service ι D W X Q A α) :
    Config ι D W X Q A α → Config ι D W X Q A α → Prop where
  | move {config n i s p s' L' p'}
      (hthread : config.threads[n]? = some ⟨i, s, .running p⟩)
      (hmove : Move (config.setting service n i) s config.ledger p s' L' p') :
      Advance service config
        { ledger := L', threads := config.threads.set n ⟨i, s', .running p'⟩ }
  | ret {config n i s a} (hthread : config.threads[n]? = some ⟨i, s, .running (.ret a)⟩) :
      Advance service config
        { config with threads := config.threads.set n ⟨i, s.close, .ended (.ok a)⟩ }
  | raise {config n i s x} (hthread : config.threads[n]? = some ⟨i, s, .running (.raise x)⟩) :
      Advance service config
        { config with threads := config.threads.set n ⟨i, s.close, .ended (.error x)⟩ }

/-- No schedule can go on. -/
def Stuck (service : Service ι D W X Q A α) (config : Config ι D W X Q A α) : Prop :=
  ∀ later, ¬ Advance service config later

/-- Every request has ended or was aborted. -/
def Config.Finished (config : Config ι D W X Q A α) : Prop :=
  ∀ thread ∈ config.threads, ∀ p, thread.status ≠ .running p

variable {service : Service ι D W X Q A α}

theorem Advance.step {config later : Config ι D W X Q A α} (h : Advance service config later) :
    Step service config later := by
  cases h with
  | move hthread hmove => exact .move hthread hmove
  | ret hthread => exact .ret hthread
  | raise hthread => exact .raise hthread

/-! ### Somebody can go on -/

theorem wp_true {i : ι} (p : Program D W X Q A α) (s : Session W A) (L : Ledger D W) :
    wp (among service (fun _ _ => True) (fun _ _ _ => True) i) p (fun _ _ _ => True) s L := by
  induction p generalizing s L with
  | ret a => trivial
  | raise x => trivial
  | read q k ih => exact fun _ _ _ _ _ => ih _ _ _
  | write f k ih =>
      exact fun _ _ _ _ => ⟨fun _ _ _ => ih _ _ _, fun _ _ _ _ _ => ih _ _ _,
        fun _ _ _ _ _ => ⟨trivial, ih _ _ _⟩⟩
  | commit k ih => exact fun _ _ => ⟨trivial, ih _ _⟩
  | rollback k ih => exact fun _ _ => ih _ _
  | uuid k ih => exact fun _ _ _ _ _ => ih _ _ _
  | now k ih => exact fun _ _ _ _ => ih _ _ _
  | ask q k ih => exact fun _ _ _ _ => ih _ _ _

/-- Two sessions share no lock and no id. -/
theorem Reachable.apart {start : Ledger D W} {config : Config ι D W X Q A α}
    (h : Reachable service start config) :
    config.Sound service (fun _ => True) (fun _ _ => True) (fun _ _ _ => True)
      fun _ _ _ _ => True :=
  h.sound_of_commits (fun _ _ _ _ => trivial) (fun _ L _ => wp_true _ _ L) trivial

/-- The thread asks for a lock that another session holds. -/
def Config.Waits (ladder : Ladder K) (config : Config ι D W X Q A α) (n : ℕ)
    (thread : Thread ι D W X Q A α) (key : K) : Prop :=
  (∃ m other, m ≠ n ∧ config.threads[m]? = some other ∧
    ∃ w ∈ other.session.pending, key ∈ Store.locks D w) ∧
  (∀ u ∈ ladder.owner key, u ∈ thread.session.own) ∧
  (ladder.owner key = none → ladder.Reaches (D := D) thread.session key)

theorem exists_unused (config : Config ι D W X Q A α) (s : Session W A) :
    ∃ u, ¬ Store.InUse config.ledger.db u ∧ u ∉ s.own ∧
      ∀ thread ∈ config.threads, u ∉ thread.session.own := by
  have hfresh := Store.fresh_not_mem config.ledger.db
    (s.own ++ config.threads.flatMap fun thread => thread.session.own)
  rw [List.mem_append, List.mem_flatMap, not_or] at hfresh
  refine ⟨_, Store.fresh_not_inUse _ _, hfresh.1, fun thread hthread hown => ?_⟩
  exact hfresh.2 ⟨thread, hthread, hown⟩

/-- A thread that runs can go on, unless it waits for a lock. -/
theorem Config.advances_or_waits {watch : Watch W Q A} {ladder : Ladder K}
    (hpermits : ∀ i s L v, service.Permits i s L v) (hanswers : ∀ q, ∃ a, service.Answers q a)
    (hwatch : ∀ s w, watch.writes s w → ladder.Admits (D := D) s w)
    {config : Config ι D W X Q A α} {n : ℕ} {i : ι} {s : Session W A} {p : Program D W X Q A α}
    (hthread : config.threads[n]? = some ⟨i, s, .running p⟩)
    (hwalks : p.Walks watch (fun _ _ => True) s) :
    (∃ later, Advance service config later) ∨
      ∃ key, config.Waits ladder n ⟨i, s, .running p⟩ key := by
  obtain ⟨t, hstart⟩ : ∃ t, s.StartsAt t := by
    cases hs : s.start with
    | none => exact ⟨0, fun start h => by rw [hs] at h; cases h⟩
    | some start =>
        refine ⟨start, fun start' h => ?_⟩
        rw [hs] at h
        exact Option.some_injective _ h
  cases p with
  | ret a => exact .inl ⟨_, .ret hthread⟩
  | raise x => exact .inl ⟨_, .raise hthread⟩
  | read q k => exact .inl ⟨_, .move hthread (.read hstart (hpermits _ _ _ _))⟩
  | write f k =>
      cases hwrite : f t (s.view config.ledger.db) with
      | mk w b =>
        cases w with
        | none => exact .inl ⟨_, .move hthread (.skipped hstart hwrite (hpermits _ _ _ _))⟩
        | some w =>
            by_cases hfree : ∀ key ∈ Store.locks D w, ¬ (config.setting service n i).Busy key
            · left
              cases hrefuses : Store.refuses (s.view config.ledger.db) w with
              | false => exact ⟨_, .move hthread (.wrote hstart hwrite hrefuses hfree (hpermits _ _ _ _))⟩
              | true => exact ⟨_, .move hthread (.refused hstart hwrite hrefuses hfree (hpermits _ _ _ _))⟩
            · right
              push Not at hfree
              obtain ⟨key, hkey, m, hmn, other, hother, w', hw', hheld⟩ := hfree
              have hadmits := hwatch s w (((hwalks t).1 _ w b hwrite).1)
              exact ⟨key, ⟨m, other, hmn, hother, w', hw', hheld⟩, hadmits.owned key hkey,
                hadmits.climbs key hkey⟩
  | commit k => exact .inl ⟨_, .move hthread .commit⟩
  | rollback k => exact .inl ⟨_, .move hthread .rollback⟩
  | uuid k =>
      obtain ⟨u, hunused, hown, hothers⟩ := exists_unused config s
      refine .inl ⟨_, .move hthread (.uuid hunused hown ?_)⟩
      rintro ⟨m, -, other, hother, hu⟩
      exact hothers other (List.mem_of_getElem? hother) hu
  | now k => exact .inl ⟨_, .move hthread (.now fun start h => (hstart start h).ge)⟩
  | ask q k =>
      obtain ⟨a, ha⟩ := hanswers q
      exact .inl ⟨_, .move hthread (.ask ha)⟩

/-- Whoever waits, waits for a session that holds a lock of a rank above all its own. -/
theorem Config.exists_advance {ladder : Ladder K} {watches : ι → Watch W Q A}
    (hpermits : ∀ i s L v, service.Permits i s L v) (hanswers : ∀ q, ∃ a, service.Answers q a)
    (hwatch : ∀ i s w, (watches i).writes s w → ladder.Admits (D := D) s w)
    {start : Ledger D W} {config : Config ι D W X Q A α} (hreach : Reachable service start config)
    (hwalks : ∀ thread ∈ config.threads,
      thread.OnWalk (watches thread.input) (ladder.Owns (D := D)))
    (hrunning : ¬ config.Finished) : ∃ later, Advance service config later := by
  by_contra hstuck
  have hapart := hreach.apart
  have hwaits : ∀ {n : ℕ} {thread : Thread ι D W X Q A α}, config.threads[n]? = some thread →
      (∃ p, thread.status = .running p) → ∃ key, config.Waits ladder n thread key := by
    rintro n ⟨i, s, status⟩ hthread ⟨p, rfl⟩
    exact (Config.advances_or_waits hpermits hanswers (hwatch i) hthread
      ((hwalks _ (List.mem_of_getElem? hthread)).walks p rfl)).resolve_left hstuck
  -- the holder of a lock waits for one of a higher rank
  have hclimb : ∀ (k : ℕ) {n : ℕ} {thread : Thread ι D W X Q A α} {key : K},
      config.threads[n]? = some thread → config.Waits ladder n thread key →
      ladder.height < ladder.rank key + k → False := by
    intro k
    induction k with
    | zero => exact fun {n thread key} _ _ hlt => by have := ladder.rank_le key; omega
    | succ k ih =>
        rintro n thread key hthread ⟨⟨m, other, hmn, hother, w, hw, hheld⟩, howned, -⟩ hlt
        have hholder := hwalks other (List.mem_of_getElem? hother)
        have howner : ladder.owner key = none := by
          cases hkey : ladder.owner key with
          | none => rfl
          | some u =>
              have hu := hholder.holds w hw key hheld u (by rw [hkey]; rfl)
              exact absurd (howned u (by rw [hkey]; rfl))
                (hapart.own m n other thread hmn hother hthread u hu)
        have hruns : ∃ p, other.status = .running p := by
          by_contra hidle
          push Not at hidle
          rw [hholder.idle hidle] at hw
          cases hw
        obtain ⟨key', hnext⟩ := hwaits hother hruns
        obtain ⟨⟨m', other', hmn', hother', w', hw', hheld'⟩, howned', hreaches⟩ := id hnext
        have howner' : ladder.owner key' = none := by
          cases hkey : ladder.owner key' with
          | none => rfl
          | some u =>
              have hu := (hwalks other' (List.mem_of_getElem? hother')).holds w' hw' key' hheld' u
                (by rw [hkey]; rfl)
              exact absurd (howned' u (by rw [hkey]; rfl))
                (hapart.own m' m other' other hmn' hother' hother u hu)
        have hrank : ladder.rank key < ladder.rank key' := by
          rcases hreaches howner' with ⟨w'', hw'', hown⟩ | hbelow
          · exact absurd hown (hapart.locks m' m other' other hmn' hother' hother w' hw' key' hheld'
              w'' hw'')
          · exact hbelow w hw key hheld howner
        exact ih hother hnext (by omega)
  rw [Config.Finished] at hrunning
  push Not at hrunning
  obtain ⟨thread, hthread, p, hp⟩ := hrunning
  obtain ⟨n, hn⟩ := List.mem_iff_getElem?.mp hthread
  obtain ⟨key, hkey⟩ := hwaits hn ⟨p, hp⟩
  exact hclimb (ladder.height + 1) hn hkey (by omega)

/-! ### Every schedule ends -/

/-- What a program goes on with. -/
inductive Program.Child : Program D W X Q A α → Program D W X Q A α → Prop where
  | read {β : Type} {q : D → β} {k} (b : β) : Child (k b) (.read q k)
  | write {β : Type} {f : Time → D → Option W × β} {k} (r : Option β) : Child (k r) (.write f k)
  | commit {k} : Child k (.commit k)
  | rollback {k} : Child k (.rollback k)
  | uuid {k} (u : Uuid) : Child (k u) (.uuid k)
  | now {k} (t : Time) : Child (k t) (.now k)
  | ask {q k} (a : A) : Child (k a) (.ask q k)

theorem Program.wellFounded_child :
    WellFounded (Child : Program D W X Q A α → Program D W X Q A α → Prop) := by
  refine ⟨fun p => ?_⟩
  induction p with
  | ret a => exact ⟨_, fun _ h => by cases h⟩
  | raise x => exact ⟨_, fun _ h => by cases h⟩
  | read q k ih => exact ⟨_, fun _ h => by cases h; exact ih _⟩
  | write f k ih => exact ⟨_, fun _ h => by cases h; exact ih _⟩
  | commit k ih => exact ⟨_, fun _ h => by cases h; exact ih⟩
  | rollback k ih => exact ⟨_, fun _ h => by cases h; exact ih⟩
  | uuid k ih => exact ⟨_, fun _ h => by cases h; exact ih _⟩
  | now k ih => exact ⟨_, fun _ h => by cases h; exact ih _⟩
  | ask q k ih => exact ⟨_, fun _ h => by cases h; exact ih _⟩

theorem Move.child {setting : Setting D W K Q A} {s s' : Session W A} {L L' : Ledger D W}
    {p p' : Program D W X Q A α} (h : Move setting s L p s' L' p') : p'.Child p := by
  cases h with
  | read => exact .read _
  | skipped => exact .write _
  | wrote => exact .write _
  | refused => exact .write _
  | commit => exact .commit
  | rollback => exact .rollback
  | uuid => exact .uuid _
  | now => exact .now _
  | ask => exact .ask _

def Thread.program? (thread : Thread ι D W X Q A α) : Option (Program D W X Q A α) :=
  match thread.status with
  | .running p => some p
  | _ => none

/-- The programs that run. -/
def Config.programs (config : Config ι D W X Q A α) : Multiset (Program D W X Q A α) :=
  ↑(config.threads.filterMap Thread.program?)

/-- A program that goes on is replaced by what it goes on with, and one that ends by nothing. -/
theorem filterMap_program_set {threads : List (Thread ι D W X Q A α)} {n : ℕ}
    {thread thread' : Thread ι D W X Q A α} {p : Program D W X Q A α}
    (hthread : threads[n]? = some thread) (hp : thread.program? = some p) :
    ((threads.set n thread').filterMap Thread.program? : Multiset _) + {p} =
      (threads.filterMap Thread.program? : Multiset _) + (thread'.program?.toList : Multiset _) := by
  obtain ⟨hlt, rfl⟩ := List.getElem?_eq_some_iff.mp hthread
  have hsplit : threads.filterMap Thread.program? =
      (threads.take n).filterMap Thread.program? ++
        p :: (threads.drop (n + 1)).filterMap Thread.program? := by
    conv_lhs => rw [← List.take_append_drop n threads, List.drop_eq_getElem_cons hlt]
    rw [List.filterMap_append, List.filterMap_cons, hp]
  rw [List.set_eq_take_append_cons_drop, if_pos hlt, hsplit, List.filterMap_append,
    List.filterMap_cons]
  have hcons : ∀ (q : Program D W X Q A α) (l : List (Program D W X Q A α)),
      ((q :: l : List _) : Multiset (Program D W X Q A α)) = {q} + ↑l := fun q l => by
    rw [Multiset.singleton_add, Multiset.cons_coe]
  cases thread'.program? with
  | none =>
      simp only [Option.toList_none, Multiset.coe_nil, ← Multiset.coe_add, hcons]
      abel
  | some p' =>
      simp only [Option.toList_some, Multiset.coe_nil, ← Multiset.coe_add, hcons]
      abel

theorem Advance.cutExpand {config later : Config ι D W X Q A α} (h : Advance service config later) :
    Relation.CutExpand Program.Child later.programs config.programs := by
  cases h with
  | move hthread hmove =>
      refine ⟨_, _, ?_, filterMap_program_set hthread rfl⟩
      intro p hp
      obtain rfl : p = _ := by simpa [Thread.program?] using hp
      exact hmove.child
  | ret hthread => exact ⟨_, _, by simp [Thread.program?], filterMap_program_set hthread rfl⟩
  | raise hthread => exact ⟨_, _, by simp [Thread.program?], filterMap_program_set hthread rfl⟩

/-- **Every schedule is finite.** -/
theorem wellFounded_advance :
    WellFounded fun later config : Config ι D W X Q A α => Advance service config later :=
  Subrelation.wf (fun h => h.cutExpand)
    (InvImage.wf Config.programs Program.wellFounded_child.cutExpand)

theorem Advance.inputs {config later : Config ι D W X Q A α} (h : Advance service config later) :
    later.threads.map Thread.input = config.threads.map Thread.input := by
  cases h with
  | move hthread => exact map_input_set hthread _ rfl
  | ret hthread => exact map_input_set hthread _ rfl
  | raise hthread => exact map_input_set hthread _ rfl

theorem inputs_of_schedule {config last : Config ι D W X Q A α}
    (h : Relation.ReflTransGen (Advance service) config last) :
    last.threads.map Thread.input = config.threads.map Thread.input := by
  induction h with
  | refl => rfl
  | tail _ hstep ih => rw [hstep.inputs, ih]

/-! ### Every schedule completes -/

theorem Move.owns {watch : Watch W Q A} {ladder : Ladder K}
    (hwatch : ∀ s w, watch.writes s w → ladder.Admits (D := D) s w) {setting : Setting D W K Q A}
    {post : α → Session W A → Prop} {s s' : Session W A} {L L' : Ledger D W}
    {p p' : Program D W X Q A α} (h : p.Walks watch post s) (hmove : Move setting s L p s' L' p')
    (hs : ladder.Owns (D := D) s) : ladder.Owns (D := D) s' := by
  cases hmove with
  | wrote _ hwrite =>
      have hadmits := hwatch _ _ ((h _).1 _ _ _ hwrite).1
      intro w' hw' key hkey
      rcases List.mem_append.mp hw' with hw' | hw'
      · exact hs w' hw' key hkey
      · rw [List.mem_singleton] at hw'
        subst hw'
        exact hadmits.owned key hkey
  | commit => exact fun w hw => by cases hw
  | rollback => exact fun w hw => by cases hw
  | uuid => exact fun w hw key hkey u hu => List.mem_cons_of_mem _ (hs w hw key hkey u hu)
  | _ => exact hs

/-- **Every schedule completes.** Among requests that take their locks in the order of the ladder, every
schedule is finite, and it cannot stop before all of them have ended. -/
theorem Reachable.completes {ladder : Ladder K} {watches : ι → Watch W Q A} (Allowed : ι → Prop)
    (hpermits : ∀ i s L v, service.Permits i s L v) (hanswers : ∀ q, ∃ a, service.Answers q a)
    (hwatch : ∀ i s w, (watches i).writes s w → ladder.Admits (D := D) s w)
    (hprogram : ∀ i, Allowed i → (service.program i).Walks (watches i) (fun _ _ => True) {})
    {start : Ledger D W} {config : Config ι D W X Q A α} (hreach : Reachable service start config)
    (hallowed : ∀ thread ∈ config.threads, Allowed thread.input) :
    Acc (fun later earlier => Advance service earlier later) config ∧
      ∀ last, Relation.ReflTransGen (Advance service) config last → Stuck service last →
        last.Finished := by
  refine ⟨wellFounded_advance.apply config, fun last hschedule hstuck => ?_⟩
  have hlast : Reachable service start last :=
    hreach.trans (Relation.ReflTransGen.mono (fun _ _ h => h.step) _ _ hschedule)
  have hinputs : last.threads.map Thread.input = config.threads.map Thread.input :=
    inputs_of_schedule hschedule
  by_contra hrunning
  have hwalks := hlast.onWalk Allowed watches (fun _ => ladder.Owns (D := D)) hprogram
    (fun _ w hw => by cases hw) (fun _ _ _ w hw => by cases hw)
    (fun i _ _ _ _ _ _ _ h hmove => hmove.owns (hwatch i) h)
  have hallowed' : ∀ thread ∈ last.threads, Allowed thread.input := by
    intro thread hthread
    have hinput : thread.input ∈ config.threads.map Thread.input := by
      rw [← hinputs]
      exact List.mem_map_of_mem hthread
    obtain ⟨before, hbefore, heq⟩ := List.mem_map.mp hinput
    rw [← heq]
    exact hallowed before hbefore
  obtain ⟨later, hlater⟩ := Config.exists_advance hpermits hanswers hwatch hlast
    (fun thread hthread => hwalks thread hthread (hallowed' thread hthread)) hrunning
  exact hstuck later hlater

end DemandSignal.Txn
