import DemandSignal.Txn.Logic

/-!
# Every interleaving

Each session relies on the others committing only what the rules oblige them to, while holding locks
and ids it does not hold itself. One weakest precondition per program then speaks for every
interleaving of any number of requests.
-/

namespace DemandSignal.Txn

variable {ι D W K X Q A α : Type} [Store D W K]

/-- Another session commits: it owes `commits`, and shares no lock and no id with this one. -/
def Interferes (commits : Session W A → Ledger D W → Prop) (s : Session W A)
    (L L' : Ledger D W) : Prop :=
  ∃ other : Session W A, commits other L ∧
    (∀ w ∈ other.pending, ∀ key ∈ Store.locks D w, ∀ w' ∈ s.pending, key ∉ Store.locks D w') ∧
    (∀ u ∈ other.own, u ∉ s.own) ∧ L' = L.commit other.pending

def amid (commits : Session W A → Ledger D W → Prop) (s : Session W A) :
    Ledger D W → Ledger D W → Prop :=
  Relation.ReflTransGen (Interferes commits s)

variable {commits : Session W A → Ledger D W → Prop}

theorem amid_refl (s : Session W A) (L : Ledger D W) : amid commits s L L :=
  Relation.ReflTransGen.refl

theorem amid_trans {s : Session W A} {L L' L'' : Ledger D W} (h : amid commits s L L')
    (h' : amid commits s L' L'') : amid commits s L L'' :=
  Relation.ReflTransGen.trans h h'

/-- A session that holds less tolerates more. -/
theorem amid_close {s : Session W A} {L L' : Ledger D W} (h : amid commits s L L') :
    amid commits s.close L L' := by
  refine Relation.ReflTransGen.mono (fun L L' => ?_) _ _ h
  rintro ⟨other, hcommits, _, hown, heq⟩
  exact ⟨other, hcommits, by simp [Session.close], by simpa [Session.close] using hown, heq⟩

/-- What every commit preserves, interference preserves. -/
theorem amid_induct {s : Session W A} {L L' : Ledger D W} (h : amid commits s L L')
    (P : Ledger D W → Prop) (hL : P L)
    (hstep : ∀ L₁ L₂, P L₁ → Interferes commits s L₁ L₂ → P L₂) : P L' := by
  induction h with
  | refl => exact hL
  | tail _ hlast ih => exact hstep _ _ ih hlast

/-- The rules of one request among others. -/
def among (service : Service ι D W X Q A α) (commits : Session W A → Ledger D W → Prop)
    (refusals : Session W A → Ledger D W → W → Prop) (i : ι) : Rules D W Q A where
  rely := amid commits
  Permits := service.Permits i
  Answers := service.Answers
  commits := commits
  refusals := refusals

/-- What is known of a thread. -/
def Thread.Sound (service : Service ι D W X Q A α) (commits : Session W A → Ledger D W → Prop)
    (refusals : Session W A → Ledger D W → W → Prop) (post : ι → Post D W X A α) (L : Ledger D W)
    (thread : Thread ι D W X Q A α) : Prop :=
  match thread.status with
  | .running p =>
      wp (among service commits refusals thread.input) p (post thread.input) thread.session L
  | .ended r => ∃ s : Session W A, thread.session = s.close ∧ post thread.input r s L
  | .aborted => True

structure Config.Sound (service : Service ι D W X Q A α) (inv : Ledger D W → Prop)
    (commits : Session W A → Ledger D W → Prop) (refusals : Session W A → Ledger D W → W → Prop)
    (post : ι → Post D W X A α) (config : Config ι D W X Q A α) : Prop where
  inv : inv config.ledger
  threads : ∀ thread ∈ config.threads, thread.Sound service commits refusals post config.ledger
  locks : ∀ (m n : Nat) (thread other : Thread ι D W X Q A α), m ≠ n → config.threads[m]? = some thread →
    config.threads[n]? = some other → ∀ w ∈ thread.session.pending, ∀ key ∈ Store.locks D w,
      ∀ w' ∈ other.session.pending, key ∉ Store.locks D w'
  own : ∀ (m n : Nat) (thread other : Thread ι D W X Q A α), m ≠ n → config.threads[m]? = some thread →
    config.threads[n]? = some other → ∀ u ∈ thread.session.own, u ∉ other.session.own

section Soundness

variable {service : Service ι D W X Q A α} {inv : Ledger D W → Prop} {post : ι → Post D W X A α}
  {refusals : Session W A → Ledger D W → W → Prop}

theorem Thread.Sound.stable
    (hpost : ∀ i r s L L', post i r s L → amid commits s.close L L' → post i r s L')
    {thread : Thread ι D W X Q A α} {L L' : Ledger D W}
    (h : thread.Sound service commits refusals post L) (hamid : amid commits thread.session L L') :
    thread.Sound service commits refusals post L' := by
  obtain ⟨i, s, status⟩ := thread
  cases status with
  | running p =>
      exact wp_stable (among service commits refusals i) (fun _ _ _ _ => amid_trans)
        (fun r s L L' hr hrely => hpost i r s L L' hr (amid_close hrely)) h hamid
  | ended r =>
      obtain ⟨s₀, hs, hends⟩ := h
      simp only at hs
      subst hs
      exact ⟨s₀, rfl, hpost i r s₀ L L' hends hamid⟩
  | aborted => trivial

theorem Config.Sound.replace {config : Config ι D W X Q A α}
    (hsound : config.Sound service inv commits refusals post) {n : Nat}
    {thread thread' : Thread ι D W X Q A α} {L' : Ledger D W}
    (hthread : config.threads[n]? = some thread)
    (hinv : inv L') (hthread' : thread'.Sound service commits refusals post L')
    (hothers : ∀ m other, m ≠ n → config.threads[m]? = some other →
      other.Sound service commits refusals post L')
    (hlocks : ∀ m other, m ≠ n → config.threads[m]? = some other →
      ∀ w ∈ thread'.session.pending, ∀ key ∈ Store.locks D w,
        ∀ w' ∈ other.session.pending, key ∉ Store.locks D w')
    (hown : ∀ m other, m ≠ n → config.threads[m]? = some other →
      ∀ u ∈ thread'.session.own, u ∉ other.session.own) :
    Config.Sound service inv commits refusals post
      { ledger := L', threads := config.threads.set n thread' } := by
  have hlt : n < config.threads.length := (List.getElem?_eq_some_iff.mp hthread).1
  have hget : ∀ m, (config.threads.set n thread')[m]? =
      if m = n then some thread' else config.threads[m]? := by
    intro m
    by_cases hmn : m = n
    · subst hmn
      simp [hlt]
    · rw [List.getElem?_set_ne (Ne.symm hmn), if_neg hmn]
  refine ⟨hinv, ?_, ?_, ?_⟩
  · intro other hother
    obtain ⟨m, hm⟩ := List.mem_iff_getElem?.mp hother
    rw [hget] at hm
    split at hm
    · cases hm
      exact hthread'
    · exact hothers m other ‹_› hm
  · intro m k t o hmk hm hk
    rw [hget] at hm hk
    split at hm
    · cases hm
      rw [if_neg (by omega)] at hk
      exact hlocks k o (by omega) hk
    · split at hk
      · cases hk
        intro w hw key hkey w' hw' hkey'
        exact hlocks m t ‹_› hm w' hw' key hkey' w hw hkey
      · exact hsound.locks m k t o hmk hm hk
  · intro m k t o hmk hm hk
    rw [hget] at hm hk
    split at hm
    · cases hm
      rw [if_neg (by omega)] at hk
      exact hown k o (by omega) hk
    · split at hk
      · cases hk
        intro u hu hu'
        exact hown m t ‹_› hm u hu' hu
      · exact hsound.own m k t o hmk hm hk

/-- A thread that stops releases its locks and leaves the ledger alone. -/
theorem Config.Sound.stop {config : Config ι D W X Q A α}
    (hsound : config.Sound service inv commits refusals post) {n : Nat} {i : ι} {s : Session W A}
    {status status' : Status D W X Q A α} (hthread : config.threads[n]? = some ⟨i, s, status⟩)
    (hstatus : Thread.Sound service commits refusals post config.ledger ⟨i, s.close, status'⟩) :
    Config.Sound service inv commits refusals post
      { config with threads := config.threads.set n ⟨i, s.close, status'⟩ } := by
  refine hsound.replace hthread hsound.inv hstatus
    (fun m other _ hother => hsound.threads other (List.mem_of_getElem? hother))
    (by simp [Session.close]) ?_
  intro m other hmn hother
  exact hsound.own n m ⟨i, s, status⟩ other (Ne.symm hmn) hthread hother

/-- What a session holds after one of its steps: its old writes and at most one more, whose locks
nobody else had, and its old ids and at most one more. -/
theorem Move.holds {setting : Setting D W K Q A} {s s' : Session W A} {L L' : Ledger D W}
    {p p' : Program D W X Q A α} (hmove : Move setting s L p s' L' p') :
    (∀ w ∈ s'.pending, w ∈ s.pending ∨ ∀ key ∈ Store.locks D w, ¬ setting.Busy key) ∧
      (∀ u ∈ s'.own, u ∈ s.own ∨ ¬ setting.Taken u) := by
  cases hmove with
  | read | skipped | refused | now | ask => exact ⟨fun _ hw => .inl hw, fun _ hu => .inl hu⟩
  | wrote hstart hwrite haccept hfree hpermit =>
      refine ⟨fun w hw => ?_, fun _ hu => .inl hu⟩
      simp only [Session.add, Session.begin, List.mem_append, List.mem_singleton] at hw
      rcases hw with hw | rfl
      · exact .inl hw
      · exact .inr hfree
  | commit | rollback =>
      exact ⟨by simp [Session.close, Session.undo], fun _ hu => .inl hu⟩
  | uuid hunused hown hfree =>
      refine ⟨fun _ hw => .inl hw, fun u hu => ?_⟩
      simp only [Session.draw, List.mem_cons] at hu
      rcases hu with rfl | hu
      · exact .inr hfree
      · exact .inl hu

theorem Config.Sound.step
    (hinv : ∀ s L, inv L → commits s L → inv (L.commit s.pending))
    (hprogram : ∀ i L, inv L →
      wp (among service commits refusals i) (service.program i) (post i) {} L)
    (hpost : ∀ i r s L L', post i r s L → amid commits s.close L L' → post i r s L')
    {config config' : Config ι D W X Q A α}
    (hsound : config.Sound service inv commits refusals post)
    (hstep : Step service config config') : config'.Sound service inv commits refusals post := by
  have hmem : ∀ {n thread}, config.threads[n]? = some thread → thread ∈ config.threads :=
    fun h => List.mem_of_getElem? h
  cases hstep with
  | spawn i =>
      have hlast : ∀ m thread, (config.threads ++ [⟨i, {}, .running (service.program i)⟩])[m]? =
          some thread → config.threads[m]? = some thread ∨
            thread = ⟨i, {}, .running (service.program i)⟩ ∧ m = config.threads.length := by
        intro m thread hm
        rcases Nat.lt_trichotomy m config.threads.length with hlt | heq | hgt
        · rw [List.getElem?_append_left hlt] at hm
          exact .inl hm
        · subst heq
          rw [List.getElem?_append_right (Nat.le_refl _)] at hm
          simp only [Nat.sub_self, List.getElem?_cons_zero, Option.some.injEq] at hm
          exact .inr ⟨hm.symm, rfl⟩
        · rw [List.getElem?_append_right (by omega), List.getElem?_eq_none (by simp; omega)] at hm
          cases hm
      refine ⟨hsound.inv, ?_, ?_, ?_⟩
      · intro thread hthread
        rcases List.mem_append.mp hthread with h | h
        · exact hsound.threads thread h
        · rw [List.mem_singleton] at h
          subst h
          exact hprogram i _ hsound.inv
      · intro m n thread other hmn hm hn w hw key hkey w' hw'
        rcases hlast m thread hm with hm | ⟨rfl, hm⟩
        · rcases hlast n other hn with hn | ⟨rfl, hn⟩
          · exact hsound.locks m n thread other hmn hm hn w hw key hkey w' hw'
          · exact absurd hw' (by simp)
        · exact absurd hw (by simp)
      · intro m n thread other hmn hm hn u hu
        rcases hlast m thread hm with hm | ⟨rfl, hm⟩
        · rcases hlast n other hn with hn | ⟨rfl, hn⟩
          · exact hsound.own m n thread other hmn hm hn u hu
          · simp
        · exact absurd hu (by simp)
  | @move n i s p s' L' p' hthread hmove =>
      have hwp := hsound.threads _ (hmem hthread)
      obtain ⟨hwp', hledger⟩ := Move.sound (among service commits refusals i)
        (fun _ _ => amid_refl _ _) (fun _ _ _ h => h) (fun _ _ h => h) hmove hwp
      obtain ⟨hpending, hdrawn⟩ := hmove.holds
      have hamid : ∀ m other, m ≠ n → config.threads[m]? = some other →
          amid commits other.session config.ledger L' := by
        intro m other hmn hother
        rcases hledger with rfl | ⟨hcommits, rfl, _⟩
        · exact amid_refl _ _
        · refine Relation.ReflTransGen.single ⟨s, hcommits, ?_, ?_, rfl⟩
          · exact hsound.locks n m _ other (Ne.symm hmn) hthread hother
          · exact hsound.own n m _ other (Ne.symm hmn) hthread hother
      refine hsound.replace hthread ?_ hwp' ?_ ?_ ?_
      · rcases hledger with rfl | ⟨hcommits, rfl, _⟩
        · exact hsound.inv
        · exact hinv s _ hsound.inv hcommits
      · intro m other hmn hother
        exact (hsound.threads other (hmem hother)).stable hpost (hamid m other hmn hother)
      · intro m other hmn hother w hw key hkey w' hw' hkey'
        rcases hpending w hw with hw | hfree
        · exact hsound.locks n m _ other (Ne.symm hmn) hthread hother w hw key hkey w' hw' hkey'
        · exact hfree key hkey ⟨m, hmn, other, hother, w', hw', hkey'⟩
      · intro m other hmn hother u hu hu'
        rcases hdrawn u hu with hu | hfree
        · exact hsound.own n m _ other (Ne.symm hmn) hthread hother u hu hu'
        · exact hfree ⟨m, hmn, other, hother, hu'⟩
  | ret hthread => exact hsound.stop hthread ⟨_, rfl, hsound.threads _ (hmem hthread)⟩
  | raise hthread => exact hsound.stop hthread ⟨_, rfl, hsound.threads _ (hmem hthread)⟩
  | abort hthread => exact hsound.stop hthread trivial

/-- **Every interleaving is sound.** If each program meets its weakest precondition from every ledger
that satisfies the invariant, and each commit keeps the invariant, then the invariant holds in every
reachable configuration and every request that has ended satisfies its postcondition there. -/
theorem Reachable.sound
    (hinv : ∀ s L, inv L → commits s L → inv (L.commit s.pending))
    (hprogram : ∀ i L, inv L →
      wp (among service commits refusals i) (service.program i) (post i) {} L)
    (hpost : ∀ i r s L L', post i r s L → amid commits s.close L L' → post i r s L')
    {start : Ledger D W} (hstart : inv start) {config : Config ι D W X Q A α}
    (hreach : Reachable service start config) : config.Sound service inv commits refusals post := by
  induction hreach with
  | refl => exact ⟨hstart, by simp, by simp, by simp⟩
  | tail _ hstep ih => exact ih.step hinv hprogram hpost hstep

/-- An invariant of the commits, whatever the requests return. -/
theorem Reachable.sound_of_commits
    (hinv : ∀ s L, inv L → commits s L → inv (L.commit s.pending))
    (hprogram : ∀ i L, inv L →
      wp (among service commits refusals i) (service.program i) (fun _ _ _ => True) {} L)
    {start : Ledger D W} {config : Config ι D W X Q A α} (hreach : Reachable service start config)
    (hstart : inv start) : config.Sound service inv commits refusals fun _ _ _ _ => True :=
  hreach.sound hinv hprogram (fun _ _ _ _ _ _ _ => trivial) hstart

/-- A refusal that a sound configuration is about to meet pays what it owes. -/
theorem Config.Sound.refusal {config : Config ι D W X Q A α}
    (hsound : config.Sound service inv commits refusals post) {n : Nat} {i : ι} {s : Session W A}
    {β : Type} {f : Time → D → Option W × β} {k : Option β → Program D W X Q A α}
    (hthread : config.threads[n]? = some ⟨i, s, .running (.write f k)⟩) {t : Time}
    (hstart : s.StartsAt t) {w : W} {b : β} (hwrite : f t (s.view config.ledger.db) = (some w, b))
    (hrefuse : Store.refuses (s.view config.ledger.db) w = true)
    (hpermit : service.Permits i s config.ledger (.refused w)) :
    refusals (s.begin t) config.ledger w := by
  have hwp : wp (among service commits refusals i) (.write f k) (post i) s config.ledger :=
    hsound.threads _ (List.mem_of_getElem? hthread)
  exact ((hwp _ (amid_refl _ _) t hstart).2.2 w b hwrite hrefuse hpermit).1

end Soundness

end DemandSignal.Txn
