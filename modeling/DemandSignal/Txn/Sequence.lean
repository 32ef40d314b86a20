import DemandSignal.Txn.Interleave

/-!
# Requests one after another

Each request is served alone, from start to end, before the next one.
-/

namespace DemandSignal.Txn

variable {ι D W K X Q A α : Type} [Store D W K]

/-- The surroundings of a request that is served alone. -/
def Service.solo (service : Service ι D W X Q A α) (i : ι) : Setting D W K Q A where
  Permits := service.Permits i
  Answers := service.Answers

/-- A request that has been served: the ledger it found, what it returned, the session it held and
the ledger it left. -/
structure Visit (ι D W X A α : Type) where
  input : ι
  before : Ledger D W
  result : Except X α
  session : Session W A
  after : Ledger D W

inductive Served (service : Service ι D W X Q A α) (start : Ledger D W) :
    List (Visit ι D W X A α) → Ledger D W → Prop where
  | nil : Served service start [] start
  | snoc {visits L i r s L'} (hserved : Served service start visits L)
      (hrun : Runs (service.solo i) {} L (service.program i) r s L') :
      Served service start (visits ++ [⟨i, L, r, s, L'⟩]) L'

variable {service : Service ι D W X Q A α} {start : Ledger D W}

/-- What every visit preserves holds before and after each. -/
theorem Served.invariant {inv : Ledger D W → Prop} (hstart : inv start)
    (hvisit : ∀ i L r s L', inv L → Runs (service.solo i) {} L (service.program i) r s L' → inv L')
    {visits : List (Visit ι D W X A α)} {L : Ledger D W} (h : Served service start visits L) :
    inv L ∧ ∀ visit ∈ visits, inv visit.before ∧ inv visit.after := by
  induction h with
  | nil => exact ⟨hstart, by simp⟩
  | snoc _ hrun ih =>
      have hafter := hvisit _ _ _ _ _ ih.1 hrun
      refine ⟨hafter, fun visit hmem => ?_⟩
      rcases List.mem_append.mp hmem with hmem | hmem
      · exact ih.2 visit hmem
      · rw [List.mem_singleton.mp hmem]
        exact ⟨ih.1, hafter⟩

/-- An invariant of the commits holds throughout a sequence of requests. -/
theorem Served.sound {inv : Ledger D W → Prop} {commits : Session W A → Ledger D W → Prop}
    (hinv : ∀ s L, inv L → commits s L → inv (L.commit s.pending))
    (hprogram : ∀ i L, inv L →
      wp (alone service.Answers commits) (service.program i) (fun _ _ _ => True) {} L)
    (hstart : inv start) {visits : List (Visit ι D W X A α)} {L : Ledger D W}
    (h : Served service start visits L) :
    inv L ∧ ∀ visit ∈ visits, inv visit.before ∧ inv visit.after :=
  h.invariant hstart fun i L _ _ _ hL hrun => (hrun.sound hinv hL (hprogram i L hL)).2

end DemandSignal.Txn
