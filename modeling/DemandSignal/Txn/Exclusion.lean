import DemandSignal.Txn.Interleave
import DemandSignal.Txn.Outcomes

/-!
# Exclusion

A session that holds a lock every other commit needs goes on as if it were alone. And every commit of an
interleaving is owed by one of its requests, whoever interferes.
-/

namespace DemandSignal.Txn

variable {ι D W K X Q A α β : Type} [Store D W K]

namespace Program

/-- The program neither commits nor rolls back. -/
def Uncommitted : Program D W X Q A α → Prop
  | ret _ => True
  | raise _ => True
  | read _ k => ∀ b, (k b).Uncommitted
  | write _ k => ∀ r, (k r).Uncommitted
  | commit _ => False
  | rollback _ => False
  | uuid k => ∀ u, (k u).Uncommitted
  | now k => ∀ t, (k t).Uncommitted
  | ask _ k => ∀ a, (k a).Uncommitted

/-- The program commits at most once, as the last thing it does. -/
def Final : Program D W X Q A α → Prop
  | ret _ => True
  | raise _ => True
  | read _ k => ∀ b, (k b).Final
  | write _ k => ∀ r, (k r).Final
  | commit k => k.Stops
  | rollback _ => False
  | uuid k => ∀ u, (k u).Final
  | now k => ∀ t, (k t).Final
  | ask _ k => ∀ a, (k a).Final

theorem Uncommitted.bind {p : Program D W X Q A α} {g : α → Program D W X Q A β}
    (hp : p.Uncommitted) (hg : ∀ a, (g a).Uncommitted) : (p.bind g).Uncommitted := by
  induction p with
  | ret a => exact hg a
  | raise x => trivial
  | read q k ih => exact fun b => ih b (hp b)
  | write f k ih => exact fun r => ih r (hp r)
  | commit k => exact hp.elim
  | rollback k => exact hp.elim
  | uuid k ih => exact fun u => ih u (hp u)
  | now k ih => exact fun t => ih t (hp t)
  | ask q k ih => exact fun a => ih a (hp a)

theorem Uncommitted.bind_final {p : Program D W X Q A α} {g : α → Program D W X Q A β}
    (hp : p.Uncommitted) (hg : ∀ a, (g a).Final) : (p.bind g).Final := by
  induction p with
  | ret a => exact hg a
  | raise x => trivial
  | read q k ih => exact fun b => ih b (hp b)
  | write f k ih => exact fun r => ih r (hp r)
  | commit k => exact hp.elim
  | rollback k => exact hp.elim
  | uuid k ih => exact fun u => ih u (hp u)
  | now k ih => exact fun t => ih t (hp t)
  | ask q k ih => exact fun a => ih a (hp a)

end Program

/-- What the session has done since: its writes are still pending and its ids still its own. -/
structure Grows (s s' : Session W A) : Prop where
  pending : s.pending <+: s'.pending
  own : s.own ⊆ s'.own

namespace Grows

theorem refl (s : Session W A) : Grows s s := ⟨List.prefix_rfl, fun _ hu => hu⟩

theorem trans {s s' s'' : Session W A} (h : Grows s s') (h' : Grows s' s'') : Grows s s'' :=
  ⟨h.pending.trans h'.pending, fun _ hu => h'.own (h.own hu)⟩

theorem begin (s : Session W A) (t : Time) : Grows s (s.begin t) := ⟨List.prefix_rfl, fun _ hu => hu⟩

theorem add (s : Session W A) (t : Time) (w : W) : Grows s ((s.begin t).add w) :=
  ⟨List.prefix_append .., fun _ hu => hu⟩

theorem draw (s : Session W A) (u : Uuid) : Grows s (s.draw u) :=
  ⟨List.prefix_rfl, fun _ hu => List.mem_cons_of_mem _ hu⟩

theorem hear (s : Session W A) (a : A) : Grows s (s.hear a) := ⟨List.prefix_rfl, fun _ hu => hu⟩

end Grows

/-! ### A lock that shuts the others out -/

section Exclusive

variable {rules : Rules D W Q A} {w : W}

/-- While the session holds the write, nothing it relies on changes the ledger. -/
def Excludes (rules : Rules D W Q A) (w : W) : Prop :=
  ∀ s L L', w ∈ s.pending → rules.rely s L L' → L' = L

/-- The ledger is as it was found, or the session has committed and closed. -/
def EndsAt (rules : Rules D W Q A) (L : Ledger D W) (s' : Session W A) (L' : Ledger D W) : Prop :=
  L' = L ∨ ∃ s, rules.commits s L ∧ L' = L.commit s.pending ∧ s' = s.close

/-- **Exclusion.** What a program that commits last does alone, it does among others once it holds the
write. -/
theorem Excludes.wp (hexcludes : Excludes rules w) {post : Post D W X A α}
    (hrefusals : ∀ s L w, rules.refusals s L w) {p : Program D W X Q A α} (hp : p.Final)
    {s : Session W A} {L : Ledger D W} (hw : w ∈ s.pending)
    (h : wp (alone rules.Answers rules.commits) p post s L) :
    wp rules p (fun r s' L' => post r s' L' ∧ EndsAt rules L s' L') s L := by
  have hkeep : ∀ {s s' : Session W A}, w ∈ s.pending → Grows s s' → w ∈ s'.pending :=
    fun hw h => h.pending.subset hw
  induction p generalizing s with
  | ret a => exact ⟨h, .inl rfl⟩
  | raise x => exact ⟨h, .inl rfl⟩
  | read q k ih =>
      intro L' hrely t hstart _
      obtain rfl := hexcludes s L L' hw hrely
      exact ih _ (hp _) (hkeep hw (.begin s t)) (h L' rfl t hstart trivial)
  | write f k ih =>
      intro L' hrely t hstart
      obtain rfl := hexcludes s L L' hw hrely
      obtain ⟨hskip, hwrote, hrefused⟩ := h L' rfl t hstart
      refine ⟨fun b hb _ => ?_, fun w' b hb haccept _ => ?_, fun w' b hb hrefuse _ =>
        ⟨hrefusals _ _ _, ?_⟩⟩
      · exact ih _ (hp _) (hkeep hw (.begin s t)) (hskip b hb trivial)
      · exact ih _ (hp _) (hkeep hw (.add s t w')) (hwrote w' b hb haccept trivial)
      · exact ih _ (hp _) (hkeep hw (.begin s t)) (hrefused w' b hb hrefuse trivial).2
  | commit k ih =>
      intro L' hrely
      obtain rfl := hexcludes s L L' hw hrely
      obtain ⟨hcommits, hpost⟩ := h L' rfl
      refine ⟨hcommits, ?_⟩
      obtain ⟨a, rfl⟩ | ⟨x, rfl⟩ := hp
      · exact ⟨hpost, .inr ⟨s, hcommits, rfl, rfl⟩⟩
      · exact ⟨hpost, .inr ⟨s, hcommits, rfl, rfl⟩⟩
  | rollback k => exact hp.elim
  | uuid k ih =>
      intro L' hrely u hunused hown
      obtain rfl := hexcludes s L L' hw hrely
      exact ih _ (hp _) (hkeep hw (.draw s u)) (h L' rfl u hunused hown)
  | now k ih =>
      intro L' hrely t hread
      obtain rfl := hexcludes s L L' hw hrely
      exact ih _ (hp _) hw (h L' rfl t hread)
  | ask q k ih =>
      intro L' hrely a hanswer
      obtain rfl := hexcludes s L L' hw hrely
      exact ih _ (hp _) (hkeep hw (.hear s a)) (h L' rfl a hanswer)

end Exclusive

/-! ### A lock that keeps the others within bounds -/

section Guarded

variable {rules : Rules D W Q A} {bound : Ledger D W → Ledger D W → Prop} {held : List W}

/-- The rules of a session around which the ledger changes within bounds only. -/
def Rules.within (rules : Rules D W Q A) (bound : Ledger D W → Ledger D W → Prop) : Rules D W Q A :=
  { rules with rely := fun s L L' => rules.rely s L L' ∧ bound L L' }

/-- While the session holds these writes, the ledger changes within bounds. -/
def Guards (rules : Rules D W Q A) (held : List W) (bound : Ledger D W → Ledger D W → Prop) : Prop :=
  ∀ s L L', held ⊆ s.pending → rules.rely s L L' → bound L L'

/-- What comes before the commit goes on within bounds, and still holds the writes at its end. -/
theorem Guards.wp_uncommitted (hguards : Guards rules held bound) {post : Post D W X A α}
    {p : Program D W X Q A α} (hp : p.Uncommitted) {s : Session W A} {L : Ledger D W}
    (hheld : held ⊆ s.pending)
    (h : wp (rules.within bound) p (fun r s' L' => held ⊆ s'.pending → post r s' L') s L) :
    wp rules p post s L := by
  induction p generalizing s L with
  | ret a => exact h hheld
  | raise x => exact h hheld
  | read q k ih =>
      intro L' hrely t hstart hpermit
      exact ih _ (hp _) hheld (h L' ⟨hrely, hguards s L L' hheld hrely⟩ t hstart hpermit)
  | write f k ih =>
      intro L' hrely t hstart
      obtain ⟨hskip, hwrote, hrefused⟩ := h L' ⟨hrely, hguards s L L' hheld hrely⟩ t hstart
      refine ⟨fun b hb hpermit => ih _ (hp _) hheld (hskip b hb hpermit),
        fun w b hb haccept hpermit => ?_, fun w b hb hrefuse hpermit => ?_⟩
      · exact ih _ (hp _) (fun _ hw => List.mem_append_left _ (hheld hw)) (hwrote w b hb haccept hpermit)
      · obtain ⟨hrefusal, hrest⟩ := hrefused w b hb hrefuse hpermit
        exact ⟨hrefusal, ih _ (hp _) hheld hrest⟩
  | commit k => exact hp.elim
  | rollback k => exact hp.elim
  | uuid k ih =>
      intro L' hrely u hunused hown
      exact ih _ (hp _) hheld (h L' ⟨hrely, hguards s L L' hheld hrely⟩ u hunused hown)
  | now k ih =>
      intro L' hrely t hread
      exact ih _ (hp _) hheld (h L' ⟨hrely, hguards s L L' hheld hrely⟩ t hread)
  | ask q k ih =>
      intro L' hrely a hanswer
      exact ih _ (hp _) hheld (h L' ⟨hrely, hguards s L L' hheld hrely⟩ a hanswer)

/-- And so does what ends with the commit. -/
theorem Guards.wp_final (hguards : Guards rules held bound) {post : Post D W X A α}
    {p : Program D W X Q A α} (hp : p.Final) {s : Session W A} {L : Ledger D W}
    (hheld : held ⊆ s.pending) (h : wp (rules.within bound) p post s L) : wp rules p post s L := by
  induction p generalizing s L with
  | ret a => exact h
  | raise x => exact h
  | read q k ih =>
      intro L' hrely t hstart hpermit
      exact ih _ (hp _) hheld (h L' ⟨hrely, hguards s L L' hheld hrely⟩ t hstart hpermit)
  | write f k ih =>
      intro L' hrely t hstart
      obtain ⟨hskip, hwrote, hrefused⟩ := h L' ⟨hrely, hguards s L L' hheld hrely⟩ t hstart
      refine ⟨fun b hb hpermit => ih _ (hp _) hheld (hskip b hb hpermit),
        fun w b hb haccept hpermit => ?_, fun w b hb hrefuse hpermit => ?_⟩
      · exact ih _ (hp _) (fun _ hw => List.mem_append_left _ (hheld hw)) (hwrote w b hb haccept hpermit)
      · obtain ⟨hrefusal, hrest⟩ := hrefused w b hb hrefuse hpermit
        exact ⟨hrefusal, ih _ (hp _) hheld hrest⟩
  | commit k ih =>
      intro L' hrely
      obtain ⟨hcommits, hpost⟩ := h L' ⟨hrely, hguards s L L' hheld hrely⟩
      obtain ⟨a, rfl⟩ | ⟨x, rfl⟩ := hp
      · exact ⟨hcommits, hpost⟩
      · exact ⟨hcommits, hpost⟩
  | rollback k => exact hp.elim
  | uuid k ih =>
      intro L' hrely u hunused hown
      exact ih _ (hp _) hheld (h L' ⟨hrely, hguards s L L' hheld hrely⟩ u hunused hown)
  | now k ih =>
      intro L' hrely t hread
      exact ih _ (hp _) hheld (h L' ⟨hrely, hguards s L L' hheld hrely⟩ t hread)
  | ask q k ih =>
      intro L' hrely a hanswer
      exact ih _ (hp _) hheld (h L' ⟨hrely, hguards s L L' hheld hrely⟩ a hanswer)

end Guarded

/-! ### Whose commit it is -/

/-- The rules of a session about which nothing is known but what it owes. -/
def anyhow (owes : Session W A → Prop) : Rules D W Q A where
  rely _ _ _ := True
  commits s _ := owes s

section Anyhow

variable {owes : Session W A → Prop} {s : Session W A} {L : Ledger D W}

theorem Program.Uncommitted.wp_anyhow {p : Program D W X Q A α} (hp : p.Uncommitted) :
    wp (anyhow owes) p (fun _ s' _ => Grows s s') s L := by
  have hgrows : ∀ (s₁ : Session W A) (L₁ : Ledger D W), Grows s s₁ →
      wp (anyhow owes) p (fun _ s' _ => Grows s s') s₁ L₁ := by
    induction p with
    | ret a => exact fun _ _ h => h
    | raise x => exact fun _ _ h => h
    | read q k ih => exact fun s₁ _ h L' _ t _ _ => ih _ (hp _) _ L' (h.trans (.begin s₁ t))
    | write f k ih =>
        intro s₁ _ h L' _ t _
        exact ⟨fun b _ _ => ih _ (hp _) _ L' (h.trans (.begin s₁ t)),
          fun w b _ _ _ => ih _ (hp _) _ L' (h.trans (.add s₁ t w)),
          fun w b _ _ _ => ⟨trivial, ih _ (hp _) _ L' (h.trans (.begin s₁ t))⟩⟩
    | commit k => exact hp.elim
    | rollback k => exact hp.elim
    | uuid k ih => exact fun s₁ _ h L' _ u _ _ => ih _ (hp _) _ L' (h.trans (.draw s₁ u))
    | now k ih => exact fun s₁ _ h L' _ t _ => ih _ (hp _) _ L' h
    | ask q k ih => exact fun s₁ _ h L' _ a _ => ih _ (hp _) _ L' (h.trans (.hear s₁ a))
  exact hgrows s L (.refl s)

/-- What comes before the commit only adds to what the session holds. -/
theorem Program.Uncommitted.wp_bind_anyhow {p : Program D W X Q A α} (hp : p.Uncommitted)
    {g : α → Program D W X Q A β} (hg : ∀ a s' L', Grows s s' →
      wp (anyhow owes) (g a) (fun _ _ _ => True) s' L') :
    wp (anyhow owes) (p.bind g) (fun _ _ _ => True) s L :=
  wp_then hp.wp_anyhow (fun a s' L' hgrows => hg a s' L' hgrows) fun _ _ _ _ => trivial

/-- A ledger more or less makes no difference. -/
theorem wp_anyhow_of {p : Program D W X Q A α}
    (h : wp (anyhow owes) p (fun _ _ _ => True) s L) (L' : Ledger D W) :
    wp (anyhow owes) p (fun _ _ _ => True) s L' :=
  wp_stable (anyhow owes) (fun _ _ _ _ _ _ => trivial) (fun _ _ _ _ _ _ => trivial) h trivial

end Anyhow

theorem Move.own_subset {setting : Setting D W K Q A} {s s' : Session W A} {L L' : Ledger D W}
    {p p' : Program D W X Q A α} (hmove : Move setting s L p s' L' p') : s.own ⊆ s'.own := by
  cases hmove with
  | uuid => exact fun _ hu => List.mem_cons_of_mem _ hu
  | _ => exact fun _ hu => hu

/-- The commit is what some thread owed. -/
def Authored (owes : ι → Session W A → Prop) (threads : List (Thread ι D W X Q A α))
    (commit : Commit D W) : Prop :=
  ∃ (n : Nat) (thread : Thread ι D W X Q A α) (s : Session W A), threads[n]? = some thread ∧
    owes thread.input s ∧ commit.writes = s.pending ∧ s.own ⊆ thread.session.own

/-- A thread that goes on is still the author of its commits. -/
theorem Authored.set {owes : ι → Session W A → Prop} {threads : List (Thread ι D W X Q A α)}
    {commit : Commit D W} (h : Authored owes threads commit) {n : Nat}
    {thread thread' : Thread ι D W X Q A α} (hthread : threads[n]? = some thread)
    (hinput : thread'.input = thread.input) (hown : thread.session.own ⊆ thread'.session.own) :
    Authored owes (threads.set n thread') commit := by
  obtain ⟨m, author, s, hauthor, howes, hwrites, hs⟩ := h
  by_cases hmn : m = n
  · subst hmn
    obtain rfl : thread = author := by simpa [hthread] using hauthor
    refine ⟨m, thread', s, ?_, hinput ▸ howes, hwrites, fun _ hu => hown (hs hu)⟩
    rw [List.getElem?_set_self (List.getElem?_eq_some_iff.mp hthread).1]
  · refine ⟨m, author, s, ?_, howes, hwrites, hs⟩
    rwa [List.getElem?_set_ne (Ne.symm hmn)]

/-- **Every commit has its author.** -/
theorem Reachable.authored {service : Service ι D W X Q A α} {owes : ι → Session W A → Prop}
    (hprogram : ∀ i L, wp (anyhow (owes i)) (service.program i) (fun _ _ _ => True) {} L)
    {start : Ledger D W} {config : Config ι D W X Q A α} (hreach : Reachable service start config) :
    ∃ added, config.ledger.log = start.log ++ added ∧
      ∀ commit ∈ added, Authored owes config.threads commit := by
  suffices h : (∃ added, config.ledger.log = start.log ++ added ∧
      ∀ commit ∈ added, Authored owes config.threads commit) ∧
      ∀ thread ∈ config.threads, ∀ p, thread.status = .running p →
        wp (anyhow (owes thread.input)) p (fun _ _ _ => True) thread.session config.ledger from h.1
  induction hreach with
  | refl => exact ⟨⟨[], by simp, by simp⟩, by simp⟩
  | @tail config config' _ hstep ih =>
      obtain ⟨⟨added, hlog, hadded⟩, hrunning⟩ := ih
      -- a thread that stops runs no more, and stays the author of what it has committed
      have hstop : ∀ {n i s} {status status' : Status D W X Q A α},
          config.threads[n]? = some ⟨i, s, status⟩ → (∀ p, status' ≠ .running p) →
          (∃ added, config.ledger.log = start.log ++ added ∧ ∀ commit ∈ added,
            Authored owes (config.threads.set n ⟨i, s.close, status'⟩) commit) ∧
          ∀ thread ∈ config.threads.set n ⟨i, s.close, status'⟩, ∀ p, thread.status = .running p →
            wp (anyhow (owes thread.input)) p (fun _ _ _ => True) thread.session config.ledger := by
        intro n i s status status' hthread hstatus
        refine ⟨⟨added, hlog, fun commit hcommit =>
          (hadded commit hcommit).set hthread rfl fun _ hu => hu⟩, fun thread hmem p hp => ?_⟩
        rcases List.mem_or_eq_of_mem_set hmem with hmem | rfl
        · exact hrunning thread hmem p hp
        · exact absurd hp (hstatus p)
      cases hstep with
      | spawn i =>
          refine ⟨⟨added, hlog, fun commit hcommit => ?_⟩, fun thread hmem p hp => ?_⟩
          · obtain ⟨n, thread, s, hthread, howes, hwrites, hown⟩ := hadded commit hcommit
            refine ⟨n, thread, s, ?_, howes, hwrites, hown⟩
            rwa [List.getElem?_append_left (List.getElem?_eq_some_iff.mp hthread).1]
          · rcases List.mem_append.mp hmem with hmem | hmem
            · exact hrunning thread hmem p hp
            · obtain rfl := List.mem_singleton.mp hmem
              obtain rfl : service.program i = p := by simpa using hp
              exact hprogram i _
      | @move n i s p s' L' p' hthread hmove =>
          obtain ⟨hwp, hledger⟩ := Move.sound (anyhow (owes i)) (fun _ _ => trivial)
            (fun _ _ _ _ => trivial) (fun _ _ _ => trivial) hmove
            (hrunning _ (List.mem_of_getElem? hthread) p rfl)
          have hold : ∀ commit ∈ added,
              Authored owes (config.threads.set n ⟨i, s', .running p'⟩) commit :=
            fun commit hcommit => (hadded commit hcommit).set hthread rfl hmove.own_subset
          refine ⟨?_, fun thread hmem p hp => ?_⟩
          · obtain rfl | ⟨howes, rfl, hclose⟩ := hledger
            · exact ⟨added, hlog, hold⟩
            · refine ⟨added ++ [⟨config.ledger.db, s.pending⟩], ?_, fun commit hcommit => ?_⟩
              · rw [← List.append_assoc, ← hlog]
                rfl
              · rcases List.mem_append.mp hcommit with hcommit | hcommit
                · exact hold commit hcommit
                · refine ⟨n, ⟨i, s', .running p'⟩, s, ?_, howes, ?_, hmove.own_subset⟩
                  · rw [List.getElem?_set_self (List.getElem?_eq_some_iff.mp hthread).1]
                  · rw [List.mem_singleton.mp hcommit]
          · rcases List.mem_or_eq_of_mem_set hmem with hmem | rfl
            · exact wp_anyhow_of (hrunning thread hmem p hp) L'
            · obtain rfl : p' = p := by simpa using hp
              exact hwp
      | ret hthread => exact hstop hthread (by simp)
      | raise hthread => exact hstop hthread (by simp)
      | abort hthread => exact hstop hthread (by simp)

end DemandSignal.Txn
