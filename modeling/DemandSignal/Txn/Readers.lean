import DemandSignal.Txn.Interpreter
import DemandSignal.Txn.Logic

/-!
# Requests that only read

A session that only reads holds no lock, draws no id and commits nothing, so no other session can tell
that it is there: without the readers an interleaving is still an interleaving, to the same ledger. A
reader reads from one committed ledger after the other.
-/

namespace DemandSignal.Txn

variable {ι κ D W K X Q A α β γ : Type}

/-- The program does nothing but read. -/
def Program.ReadOnly : Program D W X Q A α → Prop
  | .ret _ | .raise _ => True
  | .read _ k => ∀ b, (k b).ReadOnly
  | .write .. | .commit _ | .rollback _ | .uuid _ | .now _ | .ask .. => False

theorem Program.ReadOnly.bind {p : Program D W X Q A α} {g : α → Program D W X Q A β}
    (hp : p.ReadOnly) (hg : ∀ a, (g a).ReadOnly) : (p.bind g).ReadOnly := by
  induction p with
  | ret a => exact hg a
  | raise => trivial
  | read q k ih => exact fun b => ih b (hp b)
  | write | commit | rollback | uuid | now | ask => exact hp.elim

theorem Program.readOnly_select (q : D → α) : (select q : Program D W X Q A α).ReadOnly :=
  fun _ => trivial

/-- The same program with another answer. -/
def Program.map (f : α → γ) (p : Program D W X Q A α) : Program D W X Q A γ :=
  p.bind fun a => .ret (f a)

def Status.map (f : α → γ) : Status D W X Q A α → Status D W X Q A γ
  | .running p => .running (p.map f)
  | .ended r => .ended (r.map f)
  | .aborted => .aborted

/-- The service with requests beside it that are answered by `reader`. -/
def Service.withReaders (service : Service ι D W X Q A α) (reader : κ → Program D W X Q A β) :
    Service (ι ⊕ κ) D W X Q A (α ⊕ β) where
  program
    | .inl i => (service.program i).map .inl
    | .inr k => (reader k).map .inr
  Permits
    | .inl i => service.Permits i
    | .inr _ => fun _ _ _ => True
  Answers := service.Answers

/-- The rules of a reader: `grows` relates the ledgers that it reads from. -/
def reading (grows : Ledger D W → Ledger D W → Prop) : Rules D W Q A where
  rely _ := grows

variable [Store D W K]

section Readers

variable {service : Service ι D W X Q A α} {reader : κ → Program D W X Q A β}
  {grows : Ledger D W → Ledger D W → Prop} {post : κ → Post D W X A β} {L L' : Ledger D W}

theorem Program.ReadOnly.wp_of_forall {p : Program D W X Q A α} (hp : p.ReadOnly)
    {post : Post D W X A α} (hpost : ∀ r s L, post r s L) {s : Session W A} {L : Ledger D W} :
    wp (reading grows) p post s L := by
  induction p generalizing s L with
  | ret => exact hpost _ _ _
  | raise => exact hpost _ _ _
  | read q k ih => exact fun L' _ _ _ _ => ih _ (hp _)
  | write | commit | rollback | uuid | now | ask => exact hp.elim

/-- What is known of a reader. -/
def Status.Reads (grows : Ledger D W → Ledger D W → Prop) (post : Post D W X A β) (s : Session W A)
    (L : Ledger D W) : Status D W X Q A (α ⊕ β) → Prop
  | .running p => ∃ q : Program D W X Q A β, p = q.map .inr ∧ q.ReadOnly ∧
      wp (reading grows) q post s L
  | .ended r => ∃ r' : Except X β, r = r'.map .inr ∧ ∃ s₀ : Session W A, post r' s₀ L
  | .aborted => True

/-- `served` is what is left of the threads without the readers. -/
inductive Sifted (grows : Ledger D W → Ledger D W → Prop) (post : κ → Post D W X A β)
    (L : Ledger D W) : List (Thread (ι ⊕ κ) D W X Q A (α ⊕ β)) → List (Thread ι D W X Q A α) → Prop
  | nil : Sifted grows post L [] []
  | served {i s status threads served} (h : Sifted grows post L threads served) :
      Sifted grows post L (⟨.inl i, s, status.map .inl⟩ :: threads) (⟨i, s, status⟩ :: served)
  | reader {k s status threads served} (hpending : s.pending = []) (hown : s.own = [])
      (hreads : status.Reads grows (post k) s L) (h : Sifted grows post L threads served) :
      Sifted grows post L (⟨.inr k, s, status⟩ :: threads) served

variable {threads : List (Thread (ι ⊕ κ) D W X Q A (α ⊕ β))} {served : List (Thread ι D W X Q A α)}

theorem Sifted.append {threads' : List (Thread (ι ⊕ κ) D W X Q A (α ⊕ β))}
    {served' : List (Thread ι D W X Q A α)} (h : Sifted grows post L threads served)
    (h' : Sifted grows post L threads' served') :
    Sifted grows post L (threads ++ threads') (served ++ served') := by
  induction h with
  | nil => exact h'
  | served _ ih => exact .served ih
  | reader hpending hown hreads _ ih => exact .reader hpending hown hreads ih

/-- What is known of a reader outlives the growth of the ledger. -/
theorem Status.Reads.grow (htrans : ∀ L L' L'', grows L L' → grows L' L'' → grows L L'')
    {post : Post D W X A β} (hpost : ∀ r s L L', post r s L → grows L L' → post r s L')
    {s : Session W A} {status : Status D W X Q A (α ⊕ β)} (h : status.Reads grows post s L)
    (hgrows : grows L L') : status.Reads grows post s L' := by
  cases status with
  | running p =>
      obtain ⟨q, hq, hreadOnly, hwp⟩ := h
      exact ⟨q, hq, hreadOnly, wp_stable (reading grows) (fun _ => htrans)
        (fun r s L L' => hpost r s L L') hwp hgrows⟩
  | ended r =>
      obtain ⟨r', hr, s₀, hends⟩ := h
      exact ⟨r', hr, s₀, hpost _ _ _ _ hends hgrows⟩
  | aborted => trivial

theorem Sifted.grow (htrans : ∀ L L' L'', grows L L' → grows L' L'' → grows L L'')
    (hpost : ∀ k r s L L', post k r s L → grows L L' → post k r s L')
    (h : Sifted grows post L threads served) (hgrows : grows L L') :
    Sifted grows post L' threads served := by
  induction h with
  | nil => exact .nil
  | served _ ih => exact .served ih
  | reader hpending hown hreads _ ih =>
      exact .reader hpending hown (hreads.grow htrans (hpost _) hgrows) ih

theorem Sifted.exists_thread (h : Sifted grows post L threads served) {m : ℕ}
    {other : Thread ι D W X Q A α} (hother : served[m]? = some other) :
    ∃ (n : ℕ) (status : Status D W X Q A (α ⊕ β)),
      threads[n]? = some ⟨.inl other.input, other.session, status⟩ := by
  induction h generalizing m with
  | nil => simp at hother
  | served h ih =>
      cases m with
      | zero =>
          rw [List.getElem?_cons_zero, Option.some.injEq] at hother
          subst hother
          exact ⟨0, _, rfl⟩
      | succ m =>
          obtain ⟨n, status, hn⟩ := ih hother
          exact ⟨n + 1, status, hn⟩
  | reader _ _ _ h ih =>
      obtain ⟨n, status, hn⟩ := ih hother
      exact ⟨n + 1, status, hn⟩

/-- The thread `n` is the thread `m` of those that are left. -/
structure Sifted.At (grows : Ledger D W → Ledger D W → Prop) (post : κ → Post D W X A β)
    (L : Ledger D W) (threads : List (Thread (ι ⊕ κ) D W X Q A (α ⊕ β)))
    (served : List (Thread ι D W X Q A α)) (n m : ℕ) : Prop where
  set : ∀ i s status, Sifted grows post L (threads.set n ⟨.inl i, s, Status.map .inl status⟩)
    (served.set m ⟨i, s, status⟩)
  others : ∀ (m' : ℕ) (other : Thread ι D W X Q A α), m' ≠ m → served[m']? = some other →
    ∃ (n' : ℕ) (status : Status D W X Q A (α ⊕ β)), n' ≠ n ∧
      threads[n']? = some ⟨.inl other.input, other.session, status⟩

/-- A thread is one that is left, or a reader. -/
theorem Sifted.cases_at (h : Sifted grows post L threads served) {n : ℕ}
    {thread : Thread (ι ⊕ κ) D W X Q A (α ⊕ β)} (hthread : threads[n]? = some thread) :
    (∃ i s status m, thread = ⟨.inl i, s, Status.map .inl status⟩ ∧ served[m]? = some ⟨i, s, status⟩ ∧
        Sifted.At grows post L threads served n m) ∨
      ∃ k s status, thread = ⟨.inr k, s, status⟩ ∧ s.pending = [] ∧ s.own = [] ∧
        status.Reads grows (post k) s L ∧
        ∀ s' status', s'.pending = [] → s'.own = [] → status'.Reads grows (post k) s' L →
          Sifted grows post L (threads.set n ⟨.inr k, s', status'⟩) served := by
  induction h generalizing n with
  | nil => simp at hthread
  | @served i s status threads served h ih =>
      cases n with
      | zero =>
          rw [List.getElem?_cons_zero, Option.some.injEq] at hthread
          subst hthread
          refine .inl ⟨i, s, status, 0, rfl, rfl, ⟨fun _ _ _ => .served h, fun m' other hm' hother => ?_⟩⟩
          obtain ⟨m, rfl⟩ := Nat.exists_eq_succ_of_ne_zero hm'
          obtain ⟨n', status, hn'⟩ := h.exists_thread (by simpa using hother)
          exact ⟨n' + 1, status, by omega, hn'⟩
      | succ n =>
          obtain ⟨i', s', status', m, hthread, hm, hat⟩ |
            ⟨k, s', status', hthread, hs, hown, hreads, hset⟩ := ih hthread
          · refine .inl ⟨i', s', status', m + 1, hthread, hm,
              ⟨fun i s status => .served (hat.set i s status), fun m' other hm' hother => ?_⟩⟩
            cases m' with
            | zero =>
                rw [List.getElem?_cons_zero, Option.some.injEq] at hother
                subst hother
                exact ⟨0, _, by omega, rfl⟩
            | succ m' =>
                obtain ⟨n', status, hn', hthread'⟩ := hat.others m' other (by omega) hother
                exact ⟨n' + 1, status, by omega, hthread'⟩
          · exact .inr ⟨k, s', status', hthread, hs, hown, hreads,
              fun s' status' hs hown hreads => .served (hset s' status' hs hown hreads)⟩
  | @reader k s status threads served hs hown hreads h ih =>
      cases n with
      | zero =>
          rw [List.getElem?_cons_zero, Option.some.injEq] at hthread
          subst hthread
          exact .inr ⟨k, s, status, rfl, hs, hown, hreads,
            fun _ _ hs hown hreads => .reader hs hown hreads h⟩
      | succ n =>
          obtain ⟨i', s', status', m, hthread, hm, hat⟩ |
            ⟨k', s', status', hthread, hs', hown', hreads', hset⟩ := ih hthread
          · refine .inl ⟨i', s', status', m, hthread, hm, ⟨fun i s status =>
              .reader hs hown hreads (hat.set i s status), fun m' other hm' hother => ?_⟩⟩
            obtain ⟨n', status, hn', hthread'⟩ := hat.others m' other hm' hother
            exact ⟨n' + 1, status, by omega, hthread'⟩
          · exact .inr ⟨k', s', status', hthread, hs', hown', hreads', fun s' status' hs' hown' hreads' =>
              .reader hs hown hreads (hset s' status' hs' hown' hreads')⟩

/-- A session moves as well where less is held by the others. -/
theorem Move.lessen {setting setting' : Setting D W K Q A} {s s' : Session W A} {p p' : Program D W X Q A α}
    (h : Move setting s L p s' L' p') (hbusy : ∀ key, setting'.Busy key → setting.Busy key)
    (htaken : ∀ u, setting'.Taken u → setting.Taken u)
    (hpermits : ∀ s L v, setting.Permits s L v → setting'.Permits s L v)
    (hanswers : ∀ q a, setting.Answers q a → setting'.Answers q a) :
    Move setting' s L p s' L' p' := by
  cases h with
  | read hstart hpermit => exact .read hstart (hpermits _ _ _ hpermit)
  | skipped hstart hwrite hpermit => exact .skipped hstart hwrite (hpermits _ _ _ hpermit)
  | wrote hstart hwrite haccept hfree hpermit =>
      exact .wrote hstart hwrite haccept (fun key hkey hheld => hfree key hkey (hbusy key hheld))
        (hpermits _ _ _ hpermit)
  | refused hstart hwrite hrefuse hfree hpermit =>
      exact .refused hstart hwrite hrefuse (fun key hkey hheld => hfree key hkey (hbusy key hheld))
        (hpermits _ _ _ hpermit)
  | commit => exact .commit
  | rollback => exact .rollback
  | uuid hunused hown hfree => exact .uuid hunused hown fun hheld => hfree (htaken _ hheld)
  | now hread => exact .now hread
  | ask hanswer => exact .ask (hanswers _ _ hanswer)

/-- A reader reads, or has nothing left to do. -/
theorem Move.of_readOnly {setting : Setting D W K Q A} {post : Post D W X A β} {s s' : Session W A}
    {q : Program D W X Q A β}
    {p' : Program D W X Q A (α ⊕ β)} (h : Move setting s L (q.map .inr) s' L' p') (hq : q.ReadOnly)
    (hwp : wp (reading grows) q post s L) (hrefl : ∀ L, grows L L) :
    L' = L ∧ s'.pending = s.pending ∧ s'.own = s.own ∧
      Status.Reads grows post s' L (.running p' : Status D W X Q A (α ⊕ β)) := by
  cases q with
  | ret => cases h
  | raise => cases h
  | read q k =>
      cases h with
      | read hstart =>
          exact ⟨rfl, rfl, rfl, _, rfl, hq _, hwp _ (hrefl _) _ hstart trivial⟩
  | write | commit | rollback | uuid | now | ask => exact hq.elim

/-- What the sessions that are left hold is held among all sessions. -/
theorem Sifted.At.setting (service : Service ι D W X Q A α) (reader : κ → Program D W X Q A β)
    {config : Config (ι ⊕ κ) D W X Q A (α ⊕ β)} {served : Config ι D W X Q A α} {n m : ℕ}
    (h : Sifted.At grows post L config.threads served.threads n m) (i : ι) :
    (∀ key, (served.setting service m i).Busy key →
        (config.setting (service.withReaders reader) n (.inl i)).Busy key) ∧
      ∀ u, (served.setting service m i).Taken u →
        (config.setting (service.withReaders reader) n (.inl i)).Taken u := by
  constructor
  · rintro key ⟨m', hm', other, hother, w, hw, hkey⟩
    obtain ⟨n', status, hn', hthread⟩ := h.others m' other hm' hother
    exact ⟨n', hn', _, hthread, w, hw, hkey⟩
  · rintro u ⟨m', hm', other, hother, hu⟩
    obtain ⟨n', status, hn', hthread⟩ := h.others m' other hm' hother
    exact ⟨n', hn', _, hthread, hu⟩

theorem Sifted.step (hrefl : ∀ L, grows L L)
    (htrans : ∀ L L' L'', grows L L' → grows L' L'' → grows L L'')
    (hpost : ∀ k r s L L', post k r s L → grows L L' → post k r s L')
    (hreadOnly : ∀ k, (reader k).ReadOnly) {start : Ledger D W}
    (hgrows : ∀ config config' : Config ι D W X Q A α, Reachable service start config →
      Step service config config' → grows config.ledger config'.ledger)
    (hreader : ∀ k (config : Config ι D W X Q A α), Reachable service start config →
      wp (reading grows) (reader k) (post k) {} config.ledger)
    {config config' : Config (ι ⊕ κ) D W X Q A (α ⊕ β)} {served : Config ι D W X Q A α}
    (hreachable : Reachable service start served) (hledger : served.ledger = config.ledger)
    (hsifted : Sifted grows post config.ledger config.threads served.threads)
    (hstep : Step (service.withReaders reader) config config') :
    ∃ served', Reachable service start served' ∧ served'.ledger = config'.ledger ∧
      Sifted grows post config'.ledger config'.threads served'.threads := by
  have hserved : ∀ served' : Config ι D W X Q A α, Step service served served' →
      served'.ledger = config'.ledger →
      Sifted grows post config.ledger config'.threads served'.threads →
      ∃ served', Reachable service start served' ∧ served'.ledger = config'.ledger ∧
        Sifted grows post config'.ledger config'.threads served'.threads := by
    intro served' hstep' hledger' hsifted'
    refine ⟨served', hreachable.tail hstep', hledger', hsifted'.grow htrans hpost ?_⟩
    rw [← hledger, ← hledger']
    exact hgrows served served' hreachable hstep'
  cases hstep with
  | spawn input =>
      cases input with
      | inl i =>
          have hnew : Sifted grows post config.ledger
              [⟨.inl i, {}, Status.map .inl (.running (service.program i))⟩]
              [⟨i, {}, .running (service.program i)⟩] := .served .nil
          exact hserved _ (.spawn i) hledger (hsifted.append hnew)
      | inr k =>
          refine ⟨served, hreachable, hledger, ?_⟩
          have hreads : Status.Reads grows (post k) ({} : Session W A) config.ledger
              (.running ((reader k).map .inr) : Status D W X Q A (α ⊕ β)) :=
            ⟨_, rfl, hreadOnly k, hledger ▸ hreader k served hreachable⟩
          have happend := hsifted.append (.reader rfl rfl hreads .nil)
          rwa [List.append_nil] at happend
  | @move n input s p s' L' p' hthread hmove =>
      obtain ⟨i, s₀, status, m, heq, hm, hat⟩ | ⟨k, s₀, status, heq, hpending, hown, hreads, hset⟩ :=
        hsifted.cases_at hthread
      · obtain ⟨rfl, rfl, hstatus⟩ := Thread.mk.inj heq
        cases status with
        | running p₀ =>
            obtain rfl := Status.running.inj hstatus
            obtain ⟨a, rfl⟩ | ⟨p₁, rfl, hmove₁⟩ := hmove.of_bind
            · cases hmove
            · have hsetting := hat.setting service reader i
              have hmove₁ := hmove₁.lessen hsetting.1 hsetting.2 (fun _ _ _ h => h) fun _ _ h => h
              rw [← hledger] at hmove₁
              exact hserved _ (.move hm hmove₁) rfl (hat.set i s' (.running p₁))
        | ended => cases hstatus
        | aborted => cases hstatus
      · obtain ⟨rfl, rfl, rfl⟩ := Thread.mk.inj heq
        obtain ⟨q, rfl, hq, hwp⟩ := hreads
        obtain ⟨rfl, hpending', hown', hreads'⟩ := hmove.of_readOnly hq hwp hrefl
        exact ⟨served, hreachable, hledger,
          hset s' _ (hpending'.trans hpending) (hown'.trans hown) hreads'⟩
  | @ret n input s a hthread =>
      obtain ⟨i, s₀, status, m, heq, hm, hat⟩ | ⟨k, s₀, status, heq, hpending, hown, hreads, hset⟩ :=
        hsifted.cases_at hthread
      · obtain ⟨rfl, rfl, hstatus⟩ := Thread.mk.inj heq
        cases status with
        | running p₀ =>
            cases p₀ with
            | ret b =>
                obtain rfl := Program.ret.inj (Status.running.inj hstatus)
                exact hserved _ (.ret hm) hledger (hat.set i s.close (.ended (.ok b)))
            | _ => cases hstatus
        | ended => cases hstatus
        | aborted => cases hstatus
      · obtain ⟨rfl, rfl, rfl⟩ := Thread.mk.inj heq
        obtain ⟨q, hq, hreadOnly, hwp⟩ := hreads
        cases q with
        | ret b =>
            obtain rfl := Program.ret.inj hq
            exact ⟨served, hreachable, hledger, hset s.close _ rfl hown ⟨.ok b, rfl, s, hwp⟩⟩
        | _ => cases hq
  | @raise n input s x hthread =>
      obtain ⟨i, s₀, status, m, heq, hm, hat⟩ | ⟨k, s₀, status, heq, hpending, hown, hreads, hset⟩ :=
        hsifted.cases_at hthread
      · obtain ⟨rfl, rfl, hstatus⟩ := Thread.mk.inj heq
        cases status with
        | running p₀ =>
            cases p₀ with
            | raise y =>
                obtain rfl := Program.raise.inj (Status.running.inj hstatus)
                exact hserved _ (.raise hm) hledger (hat.set i s.close (.ended (.error x)))
            | _ => cases hstatus
        | ended => cases hstatus
        | aborted => cases hstatus
      · obtain ⟨rfl, rfl, rfl⟩ := Thread.mk.inj heq
        obtain ⟨q, hq, hreadOnly, hwp⟩ := hreads
        cases q with
        | raise y =>
            obtain rfl := Program.raise.inj hq
            exact ⟨served, hreachable, hledger, hset s.close _ rfl hown ⟨.error x, rfl, s, hwp⟩⟩
        | _ => cases hq
  | @abort n input s p hthread =>
      obtain ⟨i, s₀, status, m, heq, hm, hat⟩ | ⟨k, s₀, status, heq, hpending, hown, hreads, hset⟩ :=
        hsifted.cases_at hthread
      · obtain ⟨rfl, rfl, hstatus⟩ := Thread.mk.inj heq
        cases status with
        | running p₀ => exact hserved _ (.abort hm) hledger (hat.set i s.close .aborted)
        | ended => cases hstatus
        | aborted => cases hstatus
      · obtain ⟨rfl, rfl, rfl⟩ := Thread.mk.inj heq
        exact ⟨served, hreachable, hledger, hset s.close _ rfl hown trivial⟩

/-- **Readers go unnoticed.** Without them an interleaving is one of the service to the same ledger,
and what each of them has returned follows from the ledgers of such interleavings. -/
theorem Reachable.sift (hrefl : ∀ L, grows L L)
    (htrans : ∀ L L' L'', grows L L' → grows L' L'' → grows L L'')
    (hpost : ∀ k r s L L', post k r s L → grows L L' → post k r s L')
    (hreadOnly : ∀ k, (reader k).ReadOnly) {start : Ledger D W}
    (hgrows : ∀ config config' : Config ι D W X Q A α, Reachable service start config →
      Step service config config' → grows config.ledger config'.ledger)
    (hreader : ∀ k (config : Config ι D W X Q A α), Reachable service start config →
      wp (reading grows) (reader k) (post k) {} config.ledger)
    {config : Config (ι ⊕ κ) D W X Q A (α ⊕ β)}
    (h : Reachable (service.withReaders reader) start config) :
    ∃ served, Reachable service start served ∧ served.ledger = config.ledger ∧
      Sifted grows post config.ledger config.threads served.threads := by
  induction h with
  | refl => exact ⟨⟨start, []⟩, .refl, rfl, .nil⟩
  | tail _ hstep ih =>
      obtain ⟨served, hreachable, hledger, hsifted⟩ := ih
      exact hsifted.step hrefl htrans hpost hreadOnly hgrows hreader hreachable hledger hstep

/-! ### What is left, and what readers do -/

/-- What a request has returned. -/
def Thread.result (thread : Thread ι D W X Q A α) : Option (Except X α) :=
  match thread.status with
  | .ended r => some r
  | _ => none

/-- The requests that are left return what they return among readers. -/
theorem Sifted.results (h : Sifted grows post L threads served) :
    (threads.filterMap fun thread => thread.input.getLeft?.map fun i => (i, thread.result)) =
      served.map fun thread => (thread.input, thread.result.map fun r => r.map .inl) := by
  induction h with
  | nil => rfl
  | @served i s status threads served _ ih =>
      rw [List.filterMap_cons, List.map_cons, ← ih]
      cases status <;> rfl
  | reader _ _ _ _ ih => rw [← ih, List.filterMap_cons]; rfl

/-- A reader takes its next step at once, and changes nothing but itself. -/
theorem Sifted.exists_step {config : Config (ι ⊕ κ) D W X Q A (α ⊕ β)}
    (h : Sifted grows post config.ledger config.threads served) {n : ℕ} {k : κ} {s : Session W A}
    {p : Program D W X Q A (α ⊕ β)} (hthread : config.threads[n]? = some ⟨.inr k, s, .running p⟩) :
    ∃ s' status, Step (service.withReaders reader) config
      { config with threads := config.threads.set n ⟨.inr k, s', status⟩ } := by
  obtain ⟨i, s₀, status, m, heq, -⟩ | ⟨k', s₀, status, heq, -, -, hreads, -⟩ := h.cases_at hthread
  · cases heq
  · obtain ⟨hinput, rfl, rfl⟩ := Thread.mk.inj heq
    obtain ⟨q, rfl, hq, -⟩ := hreads
    cases q with
    | ret b => exact ⟨_, _, .ret hthread⟩
    | raise x => exact ⟨_, _, .raise hthread⟩
    | read q q' => exact ⟨_, _, .move hthread (.read (s.startsAt_getD 0) trivial)⟩
    | write | commit | rollback | uuid | now | ask => exact hq.elim

/-- A request that is no reader is one of those that are left. -/
theorem Sifted.mem_served (h : Sifted grows post L threads served) {i : ι} {s : Session W A}
    {status : Status D W X Q A (α ⊕ β)} (hthread : ⟨.inl i, s, status⟩ ∈ threads) :
    ∃ status₀ : Status D W X Q A α, status = status₀.map .inl ∧ ⟨i, s, status₀⟩ ∈ served := by
  obtain ⟨n, hn⟩ := List.mem_iff_getElem?.mp hthread
  obtain ⟨i', s', status', m, heq, hm, -⟩ | ⟨k, s', status', heq, -⟩ := h.cases_at hn
  · obtain ⟨hinput, rfl, rfl⟩ := Thread.mk.inj heq
    obtain rfl := Sum.inl.inj hinput
    exact ⟨status', rfl, List.mem_of_getElem? hm⟩
  · cases heq

/-- What a reader that has ended returned. -/
theorem Sifted.ended (h : Sifted grows post L threads served) {k : κ} {s : Session W A}
    {r : Except X (α ⊕ β)} (hthread : ⟨.inr k, s, .ended r⟩ ∈ threads) :
    ∃ r' : Except X β, r = r'.map .inr ∧ ∃ s₀ : Session W A, post k r' s₀ L := by
  obtain ⟨n, hn⟩ := List.mem_iff_getElem?.mp hthread
  obtain ⟨i, s₀, status, m, heq, -⟩ | ⟨k', s₀, status, heq, -, -, hreads, -⟩ := h.cases_at hn
  · cases heq
  · obtain ⟨hinput, -, rfl⟩ := Thread.mk.inj heq
    obtain rfl := Sum.inr.inj hinput
    exact hreads

end Readers

end DemandSignal.Txn
