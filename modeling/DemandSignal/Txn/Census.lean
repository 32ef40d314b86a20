import DemandSignal.Txn.Exclusion
import Mathlib.Data.List.Perm.Subperm

/-!
# A census of commits

Among requests that each commit once, when they are done, every commit has an author of its own, and is
what this author owed.
-/

namespace DemandSignal.Txn

variable {ι D W K X Q A α β : Type} [Store D W K]

namespace Program

/-- The program does not commit. -/
def Withholds : Program D W X Q A α → Prop
  | ret _ => True
  | raise _ => True
  | read _ k => ∀ b, (k b).Withholds
  | write _ k => ∀ r, (k r).Withholds
  | commit _ => False
  | rollback k => k.Withholds
  | uuid k => ∀ u, (k u).Withholds
  | now k => ∀ t, (k t).Withholds
  | ask _ k => ∀ a, (k a).Withholds

/-- The program returns only once it has committed, and stops then. -/
def Settles : Program D W X Q A α → Prop
  | ret _ => False
  | raise _ => True
  | read _ k => ∀ b, (k b).Settles
  | write _ k => ∀ r, (k r).Settles
  | commit k => k.Stops
  | rollback k => k.Settles
  | uuid k => ∀ u, (k u).Settles
  | now k => ∀ t, (k t).Settles
  | ask _ k => ∀ a, (k a).Settles

theorem Uncommitted.withholds {p : Program D W X Q A α} (hp : p.Uncommitted) : p.Withholds := by
  induction p with
  | ret a => trivial
  | raise x => trivial
  | read q k ih => exact fun b => ih b (hp b)
  | write f k ih => exact fun r => ih r (hp r)
  | commit k => exact hp.elim
  | rollback k => exact hp.elim
  | uuid k ih => exact fun u => ih u (hp u)
  | now k ih => exact fun t => ih t (hp t)
  | ask q k ih => exact fun a => ih a (hp a)

theorem Withholds.bind_settles {p : Program D W X Q A α} {g : α → Program D W X Q A β}
    (hp : p.Withholds) (hg : ∀ a, (g a).Settles) : (p.bind g).Settles := by
  induction p with
  | ret a => exact hg a
  | raise x => trivial
  | read q k ih => exact fun b => ih b (hp b)
  | write f k ih => exact fun r => ih r (hp r)
  | commit k => exact hp.elim
  | rollback k ih => exact ih hp
  | uuid k ih => exact fun u => ih u (hp u)
  | now k ih => exact fun t => ih t (hp t)
  | ask q k ih => exact fun a => ih a (hp a)

end Program

theorem Program.Stops.not_move {setting : Setting D W K Q A} {p p' : Program D W X Q A α}
    (hp : p.Stops) {s s' : Session W A} {L L' : Ledger D W} : ¬ Move setting s L p s' L' p' := by
  intro hmove
  obtain ⟨a, rfl⟩ | ⟨x, rfl⟩ := hp <;> cases hmove

/-- A step towards the commit leaves the ledger alone. -/
theorem Move.settles {setting : Setting D W K Q A} {p p' : Program D W X Q A α} {s s' : Session W A}
    {L L' : Ledger D W} (h : Move setting s L p s' L' p') (hp : p.Settles) :
    (p'.Settles ∧ L' = L) ∨ (p = .commit p' ∧ p'.Stops ∧ L' = L.commit s.pending) := by
  cases h with
  | read => exact .inl ⟨hp _, rfl⟩
  | skipped => exact .inl ⟨hp _, rfl⟩
  | wrote => exact .inl ⟨hp _, rfl⟩
  | refused => exact .inl ⟨hp _, rfl⟩
  | commit => exact .inr ⟨rfl, hp, rfl⟩
  | rollback => exact .inl ⟨hp, rfl⟩
  | uuid => exact .inl ⟨hp _, rfl⟩
  | now => exact .inl ⟨hp _, rfl⟩
  | ask => exact .inl ⟨hp _, rfl⟩

/-- The ledger after commits that these requests owed, in this order. -/
inductive Trail (commits : ι → Session W A → Ledger D W → Prop) (start : Ledger D W) :
    List ι → Ledger D W → Prop where
  | nil : Trail commits start [] start
  | snoc {inputs L i s} (h : Trail commits start inputs L) (hs : commits i s L) :
      Trail commits start (inputs ++ [i]) (L.commit s.pending)

section Beside

variable {service : Service ι D W X Q A α} {commits : ι → Session W A → Ledger D W → Prop}
  {start : Ledger D W}

/-- The rules of one request among others that owe commits of their own. -/
def beside (service : Service ι D W X Q A α) (commits : ι → Session W A → Ledger D W → Prop) (i : ι) :
    Rules D W Q A where
  rely := amid fun s L => ∃ j, commits j s L
  Permits := service.Permits i
  Answers := service.Answers
  commits := commits i

theorem wp_among_of_beside {i : ι} {p : Program D W X Q A α} {post : Post D W X A α}
    {s : Session W A} {L : Ledger D W} (h : wp (beside service commits i) p post s L) :
    wp (among service (fun s L => ∃ j, commits j s L) (fun _ _ _ => True) i) p post s L := by
  induction p generalizing s L with
  | ret a => exact h
  | raise x => exact h
  | read q k ih => exact fun L' hL t ht hp => ih _ (h L' hL t ht hp)
  | write f k ih =>
      intro L' hL t ht
      obtain ⟨hskip, hwrote, hrefused⟩ := h L' hL t ht
      exact ⟨fun b hb hp => ih _ (hskip b hb hp), fun w b hw ha hp => ih _ (hwrote w b hw ha hp),
        fun w b hw hr hp => ⟨trivial, ih _ (hrefused w b hw hr hp).2⟩⟩
  | commit k ih => exact fun L' hL => ⟨⟨i, (h L' hL).1⟩, ih (h L' hL).2⟩
  | rollback k ih => exact fun L' hL => ih (h L' hL)
  | uuid k ih => exact fun L' hL u hu hown => ih _ (h L' hL u hu hown)
  | now k ih => exact fun L' hL t ht => ih _ (h L' hL t ht)
  | ask q k ih => exact fun L' hL a ha => ih _ (h L' hL a ha)

/-- The threads that have committed, in order, with their inputs. -/
structure Census (service : Service ι D W X Q A α) (commits : ι → Session W A → Ledger D W → Prop)
    (start : Ledger D W) (config : Config ι D W X Q A α) (authors : List Nat) (inputs : List ι) :
    Prop where
  nodup : authors.Nodup
  trail : Trail commits start inputs config.ledger
  bound : ∀ n ∈ authors, n < config.threads.length
  named : inputs = authors.filterMap fun n => (config.threads.map Thread.input)[n]?
  running : ∀ (n : Nat) thread p, config.threads[n]? = some thread → thread.status = .running p →
    wp (beside service commits thread.input) p (fun _ _ _ => True) thread.session config.ledger ∧
      (n ∈ authors → p.Stops) ∧ (n ∉ authors → p.Settles)
  returned : ∀ (n : Nat) thread a, config.threads[n]? = some thread →
    thread.status = .ended (.ok a) → n ∈ authors

/-- A thread that goes on keeps its input. -/
theorem map_input_set {threads : List (Thread ι D W X Q A α)} {n : Nat}
    {thread : Thread ι D W X Q A α} (hthread : threads[n]? = some thread)
    (thread' : Thread ι D W X Q A α) (hinput : thread'.input = thread.input) :
    (threads.set n thread').map Thread.input = threads.map Thread.input := by
  obtain ⟨hlt, hget⟩ := List.getElem?_eq_some_iff.mp hthread
  rw [List.map_set, hinput, ← hget, ← List.getElem_map Thread.input (h := by simpa using hlt),
    List.set_getElem_self]

/-- A thread that stops without having returned, or after its commit. -/
theorem Census.stop {config : Config ι D W X Q A α} {authors : List Nat} {inputs : List ι}
    (h : Census service commits start config authors inputs) {n : Nat} {i : ι} {s : Session W A}
    {status status' : Status D W X Q A α} (hthread : config.threads[n]? = some ⟨i, s, status⟩)
    (hrunning : ∀ p, status' ≠ .running p) (hreturned : ∀ a, status' = .ended (.ok a) → n ∈ authors) :
    Census service commits start
      { config with threads := config.threads.set n ⟨i, s.close, status'⟩ } authors inputs := by
  have hget : ∀ m thread, (config.threads.set n ⟨i, s.close, status'⟩)[m]? = some thread →
      m = n ∧ thread = ⟨i, s.close, status'⟩ ∨ config.threads[m]? = some thread := by
    intro m thread hm
    by_cases hmn : m = n
    · subst hmn
      rw [List.getElem?_set_self (List.getElem?_eq_some_iff.mp hthread).1] at hm
      exact .inl ⟨rfl, (Option.some.inj hm).symm⟩
    · rw [List.getElem?_set_ne (Ne.symm hmn)] at hm
      exact .inr hm
  refine ⟨h.nodup, h.trail, by simpa using h.bound, ?_, fun m thread p hm hp => ?_,
    fun m thread a hm ha => ?_⟩
  · rw [map_input_set hthread ⟨i, s.close, status'⟩ rfl]
    exact h.named
  · obtain ⟨rfl, rfl⟩ | hm := hget m thread hm
    · exact absurd hp (hrunning p)
    · exact h.running m thread p hm hp
  · obtain ⟨rfl, rfl⟩ | hm := hget m thread hm
    · exact hreturned a ha
    · exact h.returned m thread a hm ha

theorem Census.move {config : Config ι D W X Q A α} {authors : List Nat} {inputs : List ι}
    {inv : Ledger D W → Prop} {post : ι → Post D W X A α}
    (h : Census service commits start config authors inputs)
    (hsound : config.Sound service inv (fun s L => ∃ j, commits j s L) (fun _ _ _ => True) post)
    {n : Nat} {i : ι} {s s' : Session W A} {L' : Ledger D W} {p p' : Program D W X Q A α}
    (hthread : config.threads[n]? = some ⟨i, s, .running p⟩)
    (hmove : Move (config.setting service n i) s config.ledger p s' L' p') :
    ∃ authors' inputs', Census service commits start
      { ledger := L', threads := config.threads.set n ⟨i, s', .running p'⟩ } authors' inputs' := by
  obtain ⟨hwp, hstops, hsettles⟩ := h.running n _ p hthread rfl
  have hn : n ∉ authors := fun hn => (hstops hn).not_move hmove
  have hwp' := (Move.sound (beside service commits i) (fun _ _ => amid_refl _ _) (fun _ _ _ h => h)
    (fun _ _ h => h) hmove hwp).1
  have hget : ∀ m thread, (config.threads.set n ⟨i, s', .running p'⟩)[m]? = some thread →
      m = n ∧ thread = ⟨i, s', .running p'⟩ ∨ m ≠ n ∧ config.threads[m]? = some thread := by
    intro m thread hm
    by_cases hmn : m = n
    · subst hmn
      rw [List.getElem?_set_self (List.getElem?_eq_some_iff.mp hthread).1] at hm
      exact .inl ⟨rfl, (Option.some.inj hm).symm⟩
    · rw [List.getElem?_set_ne (Ne.symm hmn)] at hm
      exact .inr ⟨hmn, hm⟩
  have hinputs := map_input_set hthread ⟨i, s', .running p'⟩ rfl
  have hnamed : inputs = authors.filterMap fun m =>
      ((config.threads.set n ⟨i, s', .running p'⟩).map Thread.input)[m]? := by
    rw [hinputs]
    exact h.named
  have hbound : ∀ m ∈ authors, m < (config.threads.set n ⟨i, s', .running p'⟩).length := by
    simpa using h.bound
  obtain ⟨hp', rfl⟩ | ⟨rfl, hp', rfl⟩ := hmove.settles (hsettles hn)
  · refine ⟨authors, inputs, h.nodup, h.trail, hbound, hnamed, fun m thread q hm hq => ?_,
      fun m thread a hm ha => ?_⟩
    · obtain ⟨rfl, rfl⟩ | ⟨-, hm⟩ := hget m thread hm
      · cases hq
        exact ⟨hwp', fun hm => absurd hm hn, fun _ => hp'⟩
      · exact h.running m thread q hm hq
    · obtain ⟨rfl, rfl⟩ | ⟨-, hm⟩ := hget m thread hm
      · cases ha
      · exact h.returned m thread a hm ha
  · have hcommits : commits i s config.ledger := (hwp _ (amid_refl _ _)).1
    have hinput : ((config.threads.set n ⟨i, s', .running p'⟩).map Thread.input)[n]? = some i := by
      rw [hinputs, List.getElem?_map, hthread]
      rfl
    refine ⟨authors ++ [n], inputs ++ [i], ?_, h.trail.snoc hcommits, fun m hm => ?_, ?_,
      fun m thread q hm hq => ?_, fun m thread a hm ha => ?_⟩
    · exact List.nodup_append.mpr ⟨h.nodup, by simp, fun m hm k hk hmk =>
        hn (by rwa [← List.mem_singleton.mp hk, ← hmk])⟩
    · rcases List.mem_append.mp hm with hm | hm
      · exact hbound m hm
      · rw [List.mem_singleton.mp hm, List.length_set]
        exact (List.getElem?_eq_some_iff.mp hthread).1
    · simp only [List.filterMap_append, ← hnamed, List.filterMap_cons_some hinput, List.filterMap_nil]
    · obtain ⟨rfl, rfl⟩ | ⟨hmn, hm⟩ := hget m thread hm
      · cases hq
        exact ⟨hwp', fun _ => hp', fun hm => absurd (List.mem_append_right _ (List.mem_singleton_self _)) hm⟩
      · obtain ⟨hwpm, hstops, hsettles⟩ := h.running m thread q hm hq
        have hamid : amid (fun s L => ∃ j, commits j s L) thread.session config.ledger
            (config.ledger.commit s.pending) :=
          .single ⟨s, ⟨i, hcommits⟩, hsound.locks n m _ thread (Ne.symm hmn) hthread hm,
            hsound.own n m _ thread (Ne.symm hmn) hthread hm, rfl⟩
        refine ⟨wp_stable (beside service commits thread.input) (fun _ _ _ _ => amid_trans)
          (fun _ _ _ _ _ _ => trivial) hwpm hamid, fun hm => ?_, fun hm => ?_⟩
        · rcases List.mem_append.mp hm with hm | hm
          · exact hstops hm
          · exact absurd (List.mem_singleton.mp hm) hmn
        · exact hsettles fun hmem => hm (List.mem_append_left _ hmem)
    · obtain ⟨rfl, rfl⟩ | ⟨-, hm⟩ := hget m thread hm
      · cases ha
      · exact List.mem_append_left _ (h.returned m thread a hm ha)

/-- **Every commit has an author of its own**, and is what the author owed the ledger it found. -/
theorem Reachable.census {inv : Ledger D W → Prop}
    (hinv : ∀ i s L, inv L → commits i s L → inv (L.commit s.pending))
    (hprogram : ∀ i L, inv L →
      wp (beside service commits i) (service.program i) (fun _ _ _ => True) {} L)
    (hsettles : ∀ i, (service.program i).Settles) (hstart : inv start) {config : Config ι D W X Q A α}
    (h : Reachable service start config) :
    ∃ authors inputs, Census service commits start config authors inputs := by
  have hinv' : ∀ s L, inv L → (∃ i, commits i s L) → inv (L.commit s.pending) :=
    fun s L hL ⟨i, hs⟩ => hinv i s L hL hs
  have hsound : ∀ {config}, Reachable service start config → config.Sound service inv
      (fun s L => ∃ j, commits j s L) (fun _ _ _ => True) fun _ _ _ _ => True := fun h =>
    h.sound_of_commits hinv' (fun i L hL => wp_among_of_beside (hprogram i L hL)) hstart
  induction h with
  | refl => exact ⟨[], [], .nil, .nil, by simp, rfl, by simp, by simp⟩
  | @tail config config' hreach hstep ih =>
      obtain ⟨authors, inputs, h⟩ := ih
      cases hstep with
      | spawn i =>
          have hsplit : ∀ {n thread}, (config.threads ++ [⟨i, {}, .running (service.program i)⟩])[n]? =
              some thread → config.threads[n]? = some thread ∨
                n = config.threads.length ∧ thread = ⟨i, {}, .running (service.program i)⟩ := by
            intro n thread hn
            by_cases hlt : n < config.threads.length
            · rw [List.getElem?_append_left hlt] at hn
              exact .inl hn
            · obtain ⟨hlen, -⟩ := List.getElem?_eq_some_iff.mp hn
              rw [List.length_append, List.length_singleton] at hlen
              obtain rfl : n = config.threads.length := by omega
              rw [List.getElem?_concat_length, Option.some.injEq] at hn
              exact .inr ⟨rfl, hn.symm⟩
          refine ⟨authors, inputs, h.nodup, h.trail, fun n hn => ?_, ?_, fun n thread p hn hp => ?_,
            fun n thread a hn ha => ?_⟩
          · rw [List.length_append]
            exact Nat.lt_add_right _ (h.bound n hn)
          · rw [h.named]
            refine List.filterMap_congr fun n hn => ?_
            rw [List.map_append, List.getElem?_append_left (by simpa using h.bound n hn)]
          · rcases hsplit hn with hn | ⟨rfl, rfl⟩
            · exact h.running n thread p hn hp
            · cases hp
              exact ⟨hprogram i _ (hsound hreach).inv, fun hn => absurd (h.bound _ hn) (by omega),
                fun _ => hsettles i⟩
          · rcases hsplit hn with hn | ⟨rfl, rfl⟩
            · exact h.returned n thread a hn ha
            · cases ha
      | move hthread hmove => exact h.move (hsound hreach) hthread hmove
      | ret hthread =>
          refine ⟨authors, inputs, h.stop hthread (by simp) fun a _ => ?_⟩
          by_contra hn
          exact (h.running _ _ _ hthread rfl).2.2 hn
      | raise hthread => exact ⟨authors, inputs, h.stop hthread (by simp) (by simp)⟩
      | abort hthread => exact ⟨authors, inputs, h.stop hthread (by simp) (by simp)⟩

theorem filterMap_getElem?_range {γ : Type} (l : List γ) :
    ((List.range l.length).filterMap fun n => l[n]?) = l := by
  induction l with
  | nil => rfl
  | cons a l ih =>
      rw [List.length_cons, List.range_succ_eq_map, List.filterMap_cons_some (by rfl),
        List.filterMap_map]
      exact congrArg (a :: ·) ih

/-- The requests that have committed are among those that were made. -/
theorem Census.subperm {config : Config ι D W X Q A α} {authors : List Nat} {inputs : List ι}
    (h : Census service commits start config authors inputs) :
    inputs.Subperm (config.threads.map Thread.input) := by
  obtain ⟨ordered, hperm, hsub⟩ : authors.Subperm (List.range (config.threads.map Thread.input).length) :=
    List.subperm_of_subset h.nodup fun n hn => by simpa using h.bound n hn
  refine ⟨ordered.filterMap fun n => (config.threads.map Thread.input)[n]?, ?_, ?_⟩
  · rw [h.named]
    exact hperm.filterMap _
  · have hall := hsub.filterMap fun n => (config.threads.map Thread.input)[n]?
    rwa [filterMap_getElem?_range] at hall

/-- If all have returned, all have committed. -/
theorem Census.perm {config : Config ι D W X Q A α} {authors : List Nat} {inputs : List ι}
    (h : Census service commits start config authors inputs)
    (hreturned : ∀ thread ∈ config.threads, ∃ a, thread.status = .ended (.ok a)) :
    inputs.Perm (config.threads.map Thread.input) := by
  have hauthors : authors.Perm (List.range (config.threads.map Thread.input).length) := by
    refine (List.perm_ext_iff_of_nodup h.nodup List.nodup_range).mpr fun n => ?_
    rw [List.mem_range, List.length_map]
    refine ⟨h.bound n, fun hlt => ?_⟩
    obtain ⟨a, ha⟩ := hreturned _ (List.getElem_mem hlt)
    exact h.returned n _ a (List.getElem?_eq_getElem hlt) ha
  have hall := hauthors.filterMap fun n => (config.threads.map Thread.input)[n]?
  rwa [filterMap_getElem?_range, ← h.named] at hall

end Beside

end DemandSignal.Txn
