import DemandSignal.Spec.Requests
import DemandSignal.Txn.Sequence

/-!
# Histories

The committed databases of the service: each transaction of the list, applied to the one before. Every
sequence of requests and every interleaving is a history, so what holds along histories holds of the
service.
-/

namespace DemandSignal

open Txn

inductive History (app : App) (sight : Sight) : Ledger Db Write → Prop
  | empty : History app sight emptyLedger
  | commit {L ws} (h : History app sight L) (htransaction : Transaction app sight L ws)
      (happ : Applicable ws L.db) : History app sight (L.commit ws)

variable {app : App} {sight : Sight} {L : Ledger Db Write}

theorem History.distinct (h : History app sight L) : L.db.Distinct := by
  induction h with
  | empty => exact Db.distinct_empty
  | commit _ _ happ ih => exact ih.foldl happ

/-- The last transaction of a ledger. -/
theorem commit_inj {L' : Ledger Db Write} {ws ws' : List Write} (h : L.commit ws = L'.commit ws') :
    L = L' ∧ ws = ws' := by
  obtain ⟨db, log⟩ := L
  obtain ⟨db', log'⟩ := L'
  simp only [Ledger.commit, Ledger.mk.injEq] at h
  obtain ⟨hlog, hlast⟩ := List.append_inj' h.2 rfl
  simp only [List.cons.injEq, Commit.mk.injEq, and_true] at hlast
  obtain ⟨rfl, rfl⟩ := hlast
  subst hlog
  exact ⟨rfl, rfl⟩

/-- A point of a history is its end or a point of what came before the last transaction. -/
theorem Extends.of_commit {L₀ : Ledger Db Write} {ws : List Write}
    (h : Extends L₀ (L.commit ws)) :
    L₀ = L.commit ws ∨ Extends L₀ L := by
  obtain heq | ⟨L₁, hextends, ws₁, heq⟩ := Relation.ReflTransGen.cases_tail h
  · exact .inl heq.symm
  · obtain ⟨rfl, -⟩ := commit_inj heq
    exact .inr hextends

theorem History.of_commit {ws : List Write} (h : History app sight (L.commit ws)) :
    History app sight L ∧ Transaction app sight L ws ∧ Applicable ws L.db := by
  generalize heq : L.commit ws = L' at h
  cases h with
  | empty =>
      have hlog := congrArg Ledger.log heq
      simp [Ledger.commit, emptyLedger] at hlog
  | commit h htransaction happ =>
      obtain ⟨rfl, rfl⟩ := commit_inj heq
      exact ⟨h, htransaction, happ⟩

/-- What a history is before is one too. -/
theorem History.of_extends {L₀ : Ledger Db Write} (hextends : Extends L₀ L)
    (h : History app sight L) : History app sight L₀ := by
  induction hextends with
  | refl => exact h
  | tail _ hlast ih =>
      obtain ⟨ws, rfl⟩ := hlast
      exact ih h.of_commit.1

/-- What held at some point of a history and is kept by its transactions still holds. -/
theorem History.since {L₀ : Ledger Db Write} (hextends : Extends L₀ L) (h : History app sight L)
    (P : Ledger Db Write → Prop) (hP : History app sight L₀ → P L₀)
    (hstep : ∀ L ws, History app sight L → Transaction app sight L ws → Applicable ws L.db → P L →
      P (L.commit ws)) : P L := by
  induction hextends with
  | refl => exact hP h
  | tail _ hlast ih =>
      obtain ⟨ws, rfl⟩ := hlast
      obtain ⟨h, htransaction, happ⟩ := h.of_commit
      exact hstep _ ws h htransaction happ (ih h)

/-- A table after a transaction. -/
theorem commit_rows (L : Ledger Db Write) (ws : List Write) (t : Table) :
    (L.commit ws).db t = (ws.filter fun w => w.table = t).foldl Db.apply L.db t :=
  Db.foldl_apply_filter ws t L.db

theorem commit_of_untouched {ws : List Write} {t : Table} (h : ∀ w ∈ ws, w.table ≠ t) :
    (L.commit ws).db t = L.db t :=
  Db.foldl_apply_of_untouched h L.db

theorem Ingest.Creates.rows {model : EventIn} {payload : Json.Fields} {id : Uuid} {ws : List Write}
    (h : Ingest.Creates app model payload id ws) : ∃ row : Event, .insert .events row ∈ ws ∧
      (L.commit ws).db .events = L.db .events ++ [row] ∧ ∃ now, row = Ingest.created app model payload
        (Ingest.computeDedupeKey app (.str model.source) (.str model.externalEventId)) id now := by
  obtain ⟨-, -⟩ := h
  refine ⟨_, List.mem_cons_self .., ?_, _, rfl⟩
  rw [commit_rows]
  simp [Write.table, Db.apply_insert_self]

theorem Ingest.Rejects.rows {ws : List Write} (h : Ingest.Rejects app ws) :
    ∃ row : Event, .insert .events row ∈ ws ∧ (L.commit ws).db .events = L.db .events ++ [row] ∧
      row.isValid = false ∧ row.isEdit = false := by
  obtain @⟨_, _, _, row, id, _, now, hrow⟩ := h
  obtain ⟨-, hvalid, hedit, -⟩ := Ingest.rejectedEvent_spec hrow id now
  refine ⟨_, List.mem_cons_self .., ?_, hvalid, hedit⟩
  rw [commit_rows]
  simp [Write.table, Db.apply_insert_self]

/-- An edit is an `UPDATE`: at least the hash of the payload changes. -/
theorem Ingest.Edits.rows {model : EventIn} {payload : Json.Fields} {existing : Event}
    {ws : List Write} (h : Ingest.Edits app sight L model payload existing ws) :
    (L.commit ws).db .events =
      Db.updated (t := .events) existing (Ingest.edited app existing model payload) (L.db .events) := by
  obtain @⟨_, now, -, -, -, -, hnew⟩ := h
  have hne : Ingest.edited app existing model payload ≠ existing := by
    intro heq
    exact hnew (congrArg Event.payloadHash heq).symm
  rw [commit_rows, saved_of_ne (t := .events) hne]
  simp [Write.table, Db.apply_update_self, Row.stamp]

/-- What a transaction does to the events. -/
theorem Transaction.events {ws : List Write} (h : Transaction app sight L ws) :
    (∃ model payload id, Ingest.Creates app model payload id ws) ∨ Ingest.Rejects app ws ∨
      (∃ model payload existing, Ingest.Edits app sight L model payload existing ws) ∨
      (L.commit ws).db .events = L.db .events := by
  cases h with
  | creates h => exact .inl ⟨_, _, _, h⟩
  | rejects h => exact .inr (.inl h)
  | edits h => exact .inr (.inr (.inl ⟨_, _, _, h⟩))
  | links h => exact .inr (.inr (.inr (commit_of_untouched (h.tables.ne (by decide)))))
  | parks h => exact .inr (.inr (.inr (commit_of_untouched (h.tables.ne (by decide)))))
  | resolves h => exact .inr (.inr (.inr (commit_of_untouched (h.tables.ne (by decide)))))
  | interprets h => exact .inr (.inr (.inr (commit_of_untouched (h.tables.ne (by decide)))))
  | scores h => exact .inr (.inr (.inr (commit_of_untouched (h.tables.ne (by decide)))))
  | acts h => exact .inr (.inr (.inr (commit_of_untouched (h.tables.ne (by decide)))))
  | deadLetters h => exact .inr (.inr (.inr (commit_of_untouched (h.tables.ne (by decide)))))
  | revives h => exact .inr (.inr (.inr (commit_of_untouched (h.tables.ne (by decide)))))
  | escalates h => exact .inr (.inr (.inr (commit_of_untouched (h.tables.ne (by decide)))))

/-- A row with this id has been there before the transaction, so no new row has it. -/
theorem Applicable.id_ne {ws : List Write} {db : Db} (happ : Applicable ws db) {t s : Table}
    {row : Row t} (hrow : row ∈ db t) {new : Row s} (hnew : .insert s new ∈ ws) :
    new.id ≠ row.id := by
  intro hid
  exact happ.unused new.id (mem_insertIds.mpr ⟨s, new, hnew, rfl⟩) ⟨t, row, hrow, hid.symm⟩

/-- What a session has to commit: one of the transactions, ready to be applied. -/
def Pays (app : App) (sight : Sight) (s : Session Write Reply) (L : Ledger Db Write) : Prop :=
  Ready s L ∧ Transaction app sight L s.pending

theorem owes_pays {rules : Rules Db Write Question Reply} (hrules : rules.commits = Pays app sight)
    (s : Session Write Reply) : Owes rules s (Transaction app sight) := by
  intro s' L _ hready hT
  rw [hrules]
  exact ⟨hready, hT⟩

theorem History.pays {s : Session Write Reply} (h : History app sight L) (hs : Pays app sight s L) :
    History app sight (L.commit s.pending) :=
  h.commit hs.2 hs.1.toApplicable

/-- **Requests served one after another make a history.** -/
theorem served_history {visits : List (Visit Request Db Write Error Reply Response)}
    (h : Served (service app) emptyLedger visits L) :
    History app still L ∧
      ∀ visit ∈ visits, History app still visit.before ∧ History app still visit.after :=
  h.sound (fun _ _ hL hs => hL.pays hs)
    (fun _ _ _ => wp_handle fair_alone rfl (owes_pays rfl {})) .empty

/-- What is known of a refusal. -/
inductive Explains (s : Session Write Reply) (L : Ledger Db Write) : Write → Prop
  | intro {t} {row : Row t} (hready : Ready s L)
      (hheld : ∃ key ∈ row.indexed, L.db.holds t key = true)
      (hcontested : Contested once s L (.insert t row)) : Explains s L (.insert t row)

theorem reachable_sound {config : Config Request Db Write Error Question Reply Response}
    (h : Reachable (service app) emptyLedger config) :
    config.Sound (service app) (History app once) (Pays app once) Explains fun _ _ _ _ => True :=
  h.sound_of_commits (fun _ _ hL hs => History.pays hL hs)
    (fun i _ _ => wp_handle (fair_among (fun _ _ hs => hs.1) (fun _ _ _ _ => .intro) i) rfl
      (owes_pays rfl {})) .empty

/-- **Every interleaving of requests makes a history.** -/
theorem reachable_history {config : Config Request Db Write Error Question Reply Response}
    (h : Reachable (service app) emptyLedger config) : History app once config.ledger :=
  (reachable_sound h).inv

end DemandSignal
