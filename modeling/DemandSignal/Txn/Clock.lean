import DemandSignal.Txn.Sequence

/-!
# Readings of the clock

A request that is served while the clock stands reads one instant throughout. Requests that are served
one after another so, at instants that do not decrease, are requests served one after another.
-/

namespace DemandSignal.Txn

variable {ι D W K X Q A α β : Type} [Store D W K]

namespace Program

/-- The program while the clock reads `t`. -/
def clocked (t : Time) : Program D W X Q A α → Program D W X Q A α
  | ret a => ret a
  | raise x => raise x
  | read q k => read q fun b => (k b).clocked t
  | write f k => write (fun _ => f t) fun r => (k r).clocked t
  | commit k => commit (k.clocked t)
  | rollback k => rollback (k.clocked t)
  | uuid k => uuid fun u => (k u).clocked t
  | now k => (k t).clocked t
  | ask q k => ask q fun a => (k a).clocked t

@[simp]
theorem clocked_ret (t : Time) (a : α) : (ret a : Program D W X Q A α).clocked t = ret a := rfl

@[simp]
theorem clocked_bind (t : Time) (p : Program D W X Q A α) (g : α → Program D W X Q A β) :
    (p.bind g).clocked t = (p.clocked t).bind fun a => (g a).clocked t := by
  induction p with
  | ret a => rfl
  | raise x => rfl
  | read q k ih => exact congrArg (read q) (funext ih)
  | write f k ih => exact congrArg (write fun _ => f t) (funext ih)
  | commit k ih => exact congrArg commit ih
  | rollback k ih => exact congrArg rollback ih
  | uuid k ih => exact congrArg uuid (funext ih)
  | now k ih => exact ih t
  | ask q k ih => exact congrArg (ask q) (funext ih)

end Program

/-- The session with another start of its transaction. -/
def Session.startedAt (s : Session W A) (start : Option Time) : Session W A := { s with start }

/-- **What happens while the clock stands can happen**, up to the starts of transactions. -/
theorem Runs.of_clocked {setting : Setting D W K Q A} (hpermits : ∀ s L v, setting.Permits s L v)
    {t : Time} {p : Program D W X Q A α} {s s' : Session W A} {L L' : Ledger D W} {r : Except X α}
    (hrun : Runs setting s L (p.clocked t) r s' L') {start : Option Time}
    (hstart : ∀ begun ∈ start, begun = t) :
    ∃ start', Runs setting (s.startedAt start) L p r (s'.startedAt start') L' := by
  have hbegin : ∀ {s : Session W A} {start : Option Time}, (∀ begun ∈ start, begun = t) →
      (s.startedAt start).StartsAt t := fun hstart begun hbegun => (hstart begun hbegun).symm
  have hnone : ∀ begun ∈ (none : Option Time), begun = t := by simp
  have hbegun : ∀ begun ∈ some t, begun = t := fun _ h => (Option.some.inj h).symm
  induction p generalizing s L start with
  | ret a =>
      cases hrun with
      | ret => exact ⟨start, .ret⟩
      | move hmove => cases hmove
  | raise x =>
      cases hrun with
      | raise => exact ⟨start, .raise⟩
      | move hmove => cases hmove
  | read q k ih =>
      cases hrun with
      | move hmove hrest =>
          cases hmove with
          | read =>
              obtain ⟨start', hrest⟩ := ih _ hrest hbegun
              exact ⟨start', .move (.read (hbegin hstart) (hpermits _ _ _)) hrest⟩
  | write f k ih =>
      cases hrun with
      | move hmove hrest =>
          cases hmove with
          | skipped _ hwrite =>
              obtain ⟨start', hrest⟩ := ih _ hrest hbegun
              exact ⟨start', .move (.skipped (hbegin hstart) hwrite (hpermits _ _ _)) hrest⟩
          | wrote _ hwrite haccept hfree =>
              obtain ⟨start', hrest⟩ := ih _ hrest hbegun
              exact ⟨start', .move (.wrote (hbegin hstart) hwrite haccept hfree (hpermits _ _ _)) hrest⟩
          | refused _ hwrite hrefuse hfree =>
              obtain ⟨start', hrest⟩ := ih _ hrest hbegun
              exact ⟨start', .move (.refused (hbegin hstart) hwrite hrefuse hfree (hpermits _ _ _)) hrest⟩
  | commit k ih =>
      cases hrun with
      | move hmove hrest =>
          cases hmove
          obtain ⟨start', hrest⟩ := ih hrest hnone
          exact ⟨start', .move .commit hrest⟩
  | rollback k ih =>
      cases hrun with
      | move hmove hrest =>
          cases hmove
          obtain ⟨start', hrest⟩ := ih hrest hnone
          exact ⟨start', .move .rollback hrest⟩
  | uuid k ih =>
      cases hrun with
      | move hmove hrest =>
          cases hmove with
          | uuid hunused hown hfree =>
              obtain ⟨start', hrest⟩ := ih _ hrest hstart
              exact ⟨start', .move (.uuid hunused hown hfree) hrest⟩
  | now k ih =>
      obtain ⟨start', hrest⟩ := ih t hrun hstart
      exact ⟨start', .move (.now fun begun hbegun => Int.le_of_eq (hstart begun hbegun)) hrest⟩
  | ask q k ih =>
      cases hrun with
      | move hmove hrest =>
          cases hmove with
          | ask hanswer =>
              obtain ⟨start', hrest⟩ := ih _ hrest hstart
              exact ⟨start', .move (.ask hanswer) hrest⟩

theorem Runs.of_clocked_new {setting : Setting D W K Q A} (hpermits : ∀ s L v, setting.Permits s L v)
    {t : Time} {p : Program D W X Q A α} {s' : Session W A} {L L' : Ledger D W} {r : Except X α}
    (hrun : Runs setting {} L (p.clocked t) r s' L') :
    ∃ start', Runs setting {} L p r (s'.startedAt start') L' := by
  have hnone : ∀ begun ∈ (none : Option Time), begun = t := by simp
  exact hrun.of_clocked hpermits hnone

/-- A statement that does not read the clock. -/
theorem wp_select_clocked {Answers : Q → A → Prop} {commits : Session W A → Ledger D W → Prop}
    {t : Time} {q : D → β} {post : Post D W X A β} {s : Session W A} {L : Ledger D W}
    (h : ∀ start, post (.ok (q (s.view L.db))) (s.begin start) L) :
    wp (alone Answers commits) ((Program.select q).clocked t) post s L := by
  rintro _ rfl start - -
  exact h start

/-- Requests served one after another, each at an instant that is not before the last one's. -/
inductive Timely (service : Service ι D W X Q A α) (start : Ledger D W) :
    List (Time × Visit ι D W X A α) → Ledger D W → Prop where
  | nil : Timely service start [] start
  | snoc {visits L t i r s L'} (hserved : Timely service start visits L)
      (hclock : ∀ visit ∈ visits, visit.1 ≤ t)
      (hrun : Runs (service.solo i) {} L ((service.program i).clocked t) r s L') :
      Timely service start (visits ++ [(t, ⟨i, L, r, s, L'⟩)]) L'

/-- Served at these instants, the requests are served. -/
theorem Timely.served {service : Service ι D W X Q A α} (hpermits : ∀ i s L v, service.Permits i s L v)
    {start : Ledger D W} {visits : List (Time × Visit ι D W X A α)} {L : Ledger D W}
    (h : Timely service start visits L) : ∃ visits, Served service start visits L := by
  induction h with
  | nil => exact ⟨[], .nil⟩
  | snoc _ _ hrun ih =>
      obtain ⟨visits, hserved⟩ := ih
      obtain ⟨begun, hrun⟩ := hrun.of_clocked_new (hpermits _)
      exact ⟨_, hserved.snoc hrun⟩

end DemandSignal.Txn
