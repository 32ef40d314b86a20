import DemandSignal.Txn.Run

/-!
# Walks

What a program does on every path, whatever the database and the outside world answer. A watch says
what is demanded of the session at each write and at each call. A walk pays it without a look at the
database, so it is paid in every interleaving, and by requests that are aborted.
-/

namespace DemandSignal.Txn

variable {ι D W K X Q A α β : Type}

/-- What is demanded of a session when it writes and when it calls. -/
structure Watch (W Q A : Type) where
  writes : Session W A → W → Prop := fun _ _ => True
  asks : Session W A → Q → Prop := fun _ _ => True

namespace Program

variable {watch : Watch W Q A}

/-- Every path of the program pays the watch, and `post` holds of what it returns. -/
def Walks (watch : Watch W Q A) :
    Program D W X Q A α → (α → Session W A → Prop) → Session W A → Prop
  | ret a, post, s => post a s
  | raise _, _, _ => True
  | read _ k, post, s => ∀ b t, (k b).Walks watch post (s.begin t)
  | write f k, post, s => ∀ t,
      (∀ d w b, f t d = (some w, b) →
        watch.writes s w ∧ (k (some b)).Walks watch post ((s.begin t).add w)) ∧
      (∀ d b, f t d = (none, b) → (k (some b)).Walks watch post (s.begin t)) ∧
      (k none).Walks watch post (s.begin t)
  | commit k, post, s => k.Walks watch post s.close
  | rollback k, post, s => k.Walks watch post s.undo
  | uuid k, post, s => ∀ u, (k u).Walks watch post (s.draw u)
  | now k, post, s => ∀ t, (k t).Walks watch post s
  | ask q k, post, s => watch.asks s q ∧ ∀ a, (k a).Walks watch post (s.hear a)

theorem walks_bind {p : Program D W X Q A α} {g : α → Program D W X Q A β}
    {post : β → Session W A → Prop} {s : Session W A} : (p.bind g).Walks watch post s ↔
      p.Walks watch (fun a s => (g a).Walks watch post s) s := by
  induction p generalizing s with
  | ret a => exact Iff.rfl
  | raise x => exact Iff.rfl
  | read q k ih => exact forall_congr' fun b => forall_congr' fun t => ih b
  | write f k ih => simp only [Program.bind, Walks, ih]
  | commit k ih => exact ih
  | rollback k ih => exact ih
  | uuid k ih => exact forall_congr' fun u => ih u
  | now k ih => exact forall_congr' fun t => ih t
  | ask q k ih => exact and_congr_right fun _ => forall_congr' fun a => ih a

theorem Walks.mono {p : Program D W X Q A α} {post post' : α → Session W A → Prop}
    (hpost : ∀ a s, post a s → post' a s) {s : Session W A} (h : p.Walks watch post s) :
    p.Walks watch post' s := by
  induction p generalizing s with
  | ret a => exact hpost a s h
  | raise x => trivial
  | read q k ih => exact fun b t => ih b (h b t)
  | write f k ih =>
      intro t
      obtain ⟨hwrote, hskip, hrefused⟩ := h t
      exact ⟨fun d w b hw => ⟨(hwrote d w b hw).1, ih _ (hwrote d w b hw).2⟩,
        fun d b hb => ih _ (hskip d b hb), ih _ hrefused⟩
  | commit k ih => exact ih h
  | rollback k ih => exact ih h
  | uuid k ih => exact fun u => ih u (h u)
  | now k ih => exact fun t => ih t (h t)
  | ask q k ih => exact ⟨h.1, fun a => ih a (h.2 a)⟩

end Program

open Program

variable [Store D W K] {watch : Watch W Q A} {service : Service ι D W X Q A α}

/-- A step goes on with the walk. -/
theorem Move.walks {setting : Setting D W K Q A} {post : α → Session W A → Prop}
    {s s' : Session W A} {L L' : Ledger D W} {p p' : Program D W X Q A α}
    (hmove : Move setting s L p s' L' p') (h : p.Walks watch post s) : p'.Walks watch post s' := by
  cases hmove with
  | read => exact h _ _
  | skipped _ hwrite => exact (h _).2.1 _ _ hwrite
  | wrote _ hwrite => exact ((h _).1 _ _ _ hwrite).2
  | refused => exact (h _).2.2
  | commit => exact h
  | rollback => exact h
  | uuid => exact h _
  | now => exact h _
  | ask => exact h.2 _

/-- A thread whose session keeps `holds`, and walks on while it runs. -/
structure Thread.OnWalk (watch : Watch W Q A) (holds : Session W A → Prop)
    (thread : Thread ι D W X Q A α) : Prop where
  holds : holds thread.session
  walks : ∀ p, thread.status = .running p → p.Walks watch (fun _ _ => True) thread.session
  idle : (∀ p, thread.status ≠ .running p) → thread.session.pending = []

/-- **Every request walks.** If each program pays its watch, then in every interleaving the requests
that run go on paying it, and the sessions keep what paid steps keep. -/
theorem Reachable.onWalk (Allowed : ι → Prop) (watches : ι → Watch W Q A)
    (holds : ι → Session W A → Prop)
    (hprogram : ∀ i, Allowed i → (service.program i).Walks (watches i) (fun _ _ => True) {})
    (hstart : ∀ i, holds i {}) (hclose : ∀ i s, holds i s → holds i s.close)
    (hmove : ∀ (i : ι) (setting : Setting D W K Q A) (s s' : Session W A) (L L' : Ledger D W)
      (p p' : Program D W X Q A α), p.Walks (watches i) (fun _ _ => True) s →
      Move setting s L p s' L' p' → holds i s → holds i s')
    {start : Ledger D W} {config : Config ι D W X Q A α} (hreach : Reachable service start config) :
    ∀ thread ∈ config.threads, Allowed thread.input →
      thread.OnWalk (watches thread.input) (holds thread.input) := by
  induction hreach with
  | refl => simp
  | @tail config config' _ hstep ih =>
      have hset : ∀ {n : ℕ} {i : ι} {s : Session W A} {status : Status D W X Q A α},
          config.threads[n]? = some ⟨i, s, status⟩ → ∀ {s' status'}, (Allowed i →
            Thread.OnWalk (watches i) (holds i) (⟨i, s', status'⟩ : Thread ι D W X Q A α)) →
          ∀ thread ∈ config.threads.set n ⟨i, s', status'⟩, Allowed thread.input →
            thread.OnWalk (watches thread.input) (holds thread.input) := by
        intro n i s status hthread s' status' hnew thread hmem
        rcases List.mem_or_eq_of_mem_set hmem with hold | rfl
        · exact ih thread hold
        · exact hnew
      have hstopped : ∀ {n : ℕ} {i : ι} {s : Session W A} {status status' : Status D W X Q A α},
          config.threads[n]? = some ⟨i, s, status⟩ → (∀ p, status' ≠ .running p) → Allowed i →
            Thread.OnWalk (watches i) (holds i) (⟨i, s.close, status'⟩ : Thread ι D W X Q A α) := by
        intro n i s status status' hthread hstatus hallowed
        have hwalk := ih _ (List.mem_of_getElem? hthread) hallowed
        exact ⟨hclose i s hwalk.holds, fun p hp => absurd hp (hstatus p), fun _ => rfl⟩
      cases hstep with
      | spawn i =>
          intro thread hthread hallowed
          rcases List.mem_append.mp hthread with hold | hnew
          · exact ih thread hold hallowed
          · rw [List.mem_singleton] at hnew
            subst hnew
            refine ⟨hstart i, fun p hp => ?_, fun hidle => absurd rfl (hidle _)⟩
            cases hp
            exact hprogram i hallowed
      | move hthread hmoves =>
          refine hset hthread fun hallowed => ?_
          have hwalk := ih _ (List.mem_of_getElem? hthread) hallowed
          have hwalks := hwalk.walks _ rfl
          refine ⟨hmove _ _ _ _ _ _ _ _ hwalks hmoves hwalk.holds, fun p hp => ?_,
            fun hidle => absurd rfl (hidle _)⟩
          cases hp
          exact hmoves.walks hwalks
      | ret hthread => exact hset hthread (hstopped hthread fun p h => by cases h)
      | raise hthread => exact hset hthread (hstopped hthread fun p h => by cases h)
      | abort hthread => exact hset hthread (hstopped hthread fun p h => by cases h)

/-! ### Budgets -/

theorem Move.heard_le {setting : Setting D W K Q A} {post : α → Session W A → Prop} {n : ℕ}
    (hasks : ∀ s q, watch.asks s q → s.replies.length < n) {s s' : Session W A} {L L' : Ledger D W}
    {p p' : Program D W X Q A α} (hmove : Move setting s L p s' L' p') (h : p.Walks watch post s)
    (hs : s.replies.length ≤ n) : s'.replies.length ≤ n := by
  cases hmove with
  | ask =>
      have hlt := hasks _ _ h.1
      simp only [Session.hear, List.length_append, List.length_singleton]
      omega
  | _ => exact hs

/-- **A budget of calls.** A request whose program stays within its budget never hears more replies,
however it is interleaved and even if it is aborted. -/
theorem Reachable.heard_le (watches : ι → Watch W Q A) (budget : ι → ℕ)
    (hasks : ∀ i s q, (watches i).asks s q → s.replies.length < budget i)
    (hprogram : ∀ i, (service.program i).Walks (watches i) (fun _ _ => True) {})
    {start : Ledger D W} {config : Config ι D W X Q A α} (hreach : Reachable service start config)
    {thread : Thread ι D W X Q A α} (hthread : thread ∈ config.threads) :
    thread.session.replies.length ≤ budget thread.input :=
  (hreach.onWalk (fun _ => True) watches (fun i s => s.replies.length ≤ budget i)
    (fun i _ => hprogram i) (fun _ => Nat.zero_le _) (fun _ _ h => h)
    (fun i _ _ _ _ _ _ _ h hmove => hmove.heard_le (hasks i) h) thread hthread trivial).holds

end DemandSignal.Txn
