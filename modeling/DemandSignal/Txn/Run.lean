import DemandSignal.Txn.Program

/-!
# Running transactional programs

The database runs each statement on the latest committed state plus the session's own uncommitted
writes, as `READ COMMITTED` does. A write takes locks on the index entries and the row it touches:
another session's write that needs one of them waits. A unique index refuses a row on the session's
view. Uncommitted writes of a session that ends without a commit are discarded.
-/

namespace DemandSignal.Txn

/-- What a database has to say about its row writes. -/
class Store (D : Type) (W K : outParam Type) where
  apply : D → W → D
  /-- A unique index of the database refuses the row. -/
  refuses : D → W → Bool
  /-- The index entries and the row that stay locked until the transaction ends. -/
  locks : W → List K
  InUse : D → Uuid → Prop
  fresh : D → List Uuid → Uuid
  fresh_not_inUse : ∀ d own, ¬ InUse d (fresh d own)
  fresh_not_mem : ∀ d own, fresh d own ∉ own

/-- A committed transaction: the database it was applied to, and its writes. -/
structure Commit (D W : Type) where
  before : D
  writes : List W

/-- The committed database, with the transactions that led to it. -/
structure Ledger (D W : Type) where
  db : D
  log : List (Commit D W) := []

/-- The state of a database session. `own`, `rollbacks` and `replies` record what the session has
drawn, undone and been told; no statement depends on them. -/
structure Session (W A : Type) where
  pending : List W := []
  start : Option Time := none
  own : List Uuid := []
  rollbacks : Nat := 0
  replies : List A := []

variable {D W K X Q A α : Type} [Store D W K]

def Ledger.commit (ledger : Ledger D W) (writes : List W) : Ledger D W :=
  { db := writes.foldl Store.apply ledger.db, log := ledger.log ++ [⟨ledger.db, writes⟩] }

namespace Session

def view (session : Session W A) (db : D) : D := session.pending.foldl Store.apply db

/-- The transaction's `now()` may read `t`: the first statement fixes it. -/
def StartsAt (session : Session W A) (t : Time) : Prop := ∀ start ∈ session.start, t = start

/-- The application clock never reads before the start of the running transaction. -/
def MayRead (session : Session W A) (t : Time) : Prop := ∀ start ∈ session.start, start ≤ t

def begin (session : Session W A) (t : Time) : Session W A := { session with start := some t }

def add (session : Session W A) (w : W) : Session W A :=
  { session with pending := session.pending ++ [w] }

def close (session : Session W A) : Session W A := { session with pending := [], start := none }

def undo (session : Session W A) : Session W A :=
  { session with pending := [], start := none, rollbacks := session.rollbacks + 1 }

def draw (session : Session W A) (u : Uuid) : Session W A :=
  { session with own := u :: session.own }

def hear (session : Session W A) (a : A) : Session W A :=
  { session with replies := session.replies ++ [a] }

/-- No transaction is open. -/
def Idle (session : Session W A) : Prop := session.pending = [] ∧ session.start = none

end Session

/-- What became of a statement. -/
inductive Verdict (W : Type) where
  | read
  | wrote (w : Option W)
  | refused (w : W)

/-- What surrounds a session while it runs: the locks and ids of the others, the statements the run
is assumed to allow, and the replies of the outside world. -/
structure Setting (D W K Q A : Type) where
  Busy : K → Prop := fun _ => False
  Taken : Uuid → Prop := fun _ => False
  Permits : Session W A → Ledger D W → Verdict W → Prop := fun _ _ _ => True
  Answers : Q → A → Prop := fun _ _ => True

/-- One step of a session. -/
inductive Move (setting : Setting D W K Q A) : Session W A → Ledger D W → Program D W X Q A α →
    Session W A → Ledger D W → Program D W X Q A α → Prop where
  | read {session ledger t} {β : Type} {q : D → β} {k} (hstart : session.StartsAt t)
      (hpermit : setting.Permits session ledger .read) :
      Move setting session ledger (.read q k) (session.begin t) ledger
        (k (q (session.view ledger.db)))
  | skipped {session ledger t} {β : Type} {f : Time → D → Option W × β} {k b}
      (hstart : session.StartsAt t)
      (hwrite : f t (session.view ledger.db) = (none, b))
      (hpermit : setting.Permits session ledger (.wrote none)) :
      Move setting session ledger (.write f k) (session.begin t) ledger (k (some b))
  | wrote {session ledger t} {β : Type} {f : Time → D → Option W × β} {k w b}
      (hstart : session.StartsAt t)
      (hwrite : f t (session.view ledger.db) = (some w, b))
      (haccept : Store.refuses (session.view ledger.db) w = false)
      (hfree : ∀ key ∈ Store.locks D w, ¬ setting.Busy key)
      (hpermit : setting.Permits session ledger (.wrote (some w))) :
      Move setting session ledger (.write f k) ((session.begin t).add w) ledger (k (some b))
  | refused {session ledger t} {β : Type} {f : Time → D → Option W × β} {k w b}
      (hstart : session.StartsAt t)
      (hwrite : f t (session.view ledger.db) = (some w, b))
      (hrefuse : Store.refuses (session.view ledger.db) w = true)
      (hfree : ∀ key ∈ Store.locks D w, ¬ setting.Busy key)
      (hpermit : setting.Permits session ledger (.refused w)) :
      Move setting session ledger (.write f k) (session.begin t) ledger (k none)
  | commit {session ledger k} :
      Move setting session ledger (.commit k) session.close (ledger.commit session.pending) k
  | rollback {session ledger k} :
      Move setting session ledger (.rollback k) session.undo ledger k
  | uuid {session ledger k u} (hunused : ¬ Store.InUse ledger.db u) (hown : u ∉ session.own)
      (hfree : ¬ setting.Taken u) :
      Move setting session ledger (.uuid k) (session.draw u) ledger (k u)
  | now {session ledger k t} (hread : session.MayRead t) :
      Move setting session ledger (.now k) session ledger (k t)
  | ask {session ledger q k a} (hanswer : setting.Answers q a) :
      Move setting session ledger (.ask q k) (session.hear a) ledger (k a)

/-- A program run from start to end with nobody else around. -/
inductive Runs (setting : Setting D W K Q A) : Session W A → Ledger D W → Program D W X Q A α →
    Except X α → Session W A → Ledger D W → Prop where
  | ret {session ledger a} : Runs setting session ledger (.ret a) (.ok a) session ledger
  | raise {session ledger x} : Runs setting session ledger (.raise x) (.error x) session ledger
  | move {s L p s' L' p' r s'' L''} (hmove : Move setting s L p s' L' p')
      (hrest : Runs setting s' L' p' r s'' L'') : Runs setting s L p r s'' L''

/-! ### Interleaved sessions -/

inductive Status (D W X Q A α : Type) : Type 1 where
  | running (p : Program D W X Q A α)
  | ended (r : Except X α)
  | aborted

/-- A request being served, with the session it holds. -/
structure Thread (ι D W X Q A α : Type) : Type 1 where
  input : ι
  session : Session W A
  status : Status D W X Q A α

structure Config (ι D W X Q A α : Type) : Type 1 where
  ledger : Ledger D W
  threads : List (Thread ι D W X Q A α)

variable {ι : Type}

/-- A service: the program each request runs, and what is assumed of a run. -/
structure Service (ι D W X Q A α : Type) : Type 1 where
  program : ι → Program D W X Q A α
  Permits : ι → Session W A → Ledger D W → Verdict W → Prop := fun _ _ _ _ => True
  Answers : Q → A → Prop := fun _ _ => True

/-- The surroundings of the `n`-th thread: what the other sessions hold. -/
def Config.setting (service : Service ι D W X Q A α) (config : Config ι D W X Q A α) (n : Nat)
    (i : ι) : Setting D W K Q A where
  Busy key := ∃ m, m ≠ n ∧ ∃ thread ∈ config.threads[m]?,
    ∃ w ∈ thread.session.pending, key ∈ Store.locks D w
  Taken u := ∃ m, m ≠ n ∧ ∃ thread ∈ config.threads[m]?, u ∈ thread.session.own
  Permits := service.Permits i
  Answers := service.Answers

/-- One step of the whole service. A request may be aborted between any two of its steps. -/
inductive Step (service : Service ι D W X Q A α) :
    Config ι D W X Q A α → Config ι D W X Q A α → Prop where
  | spawn {config} (i : ι) :
      Step service config
        { config with threads := config.threads ++ [⟨i, {}, .running (service.program i)⟩] }
  | move {config n i s p s' L' p'}
      (hthread : config.threads[n]? = some ⟨i, s, .running p⟩)
      (hmove : Move (config.setting service n i) s config.ledger p s' L' p') :
      Step service config
        { ledger := L', threads := config.threads.set n ⟨i, s', .running p'⟩ }
  | ret {config n i s a} (hthread : config.threads[n]? = some ⟨i, s, .running (.ret a)⟩) :
      Step service config
        { config with threads := config.threads.set n ⟨i, s.close, .ended (.ok a)⟩ }
  | raise {config n i s x} (hthread : config.threads[n]? = some ⟨i, s, .running (.raise x)⟩) :
      Step service config
        { config with threads := config.threads.set n ⟨i, s.close, .ended (.error x)⟩ }
  | abort {config n i s p} (hthread : config.threads[n]? = some ⟨i, s, .running p⟩) :
      Step service config
        { config with threads := config.threads.set n ⟨i, s.close, .aborted⟩ }

/-- Some interleaving of requests leads from the ledger `start` to the configuration. -/
def Reachable (service : Service ι D W X Q A α) (start : Ledger D W)
    (config : Config ι D W X Q A α) : Prop :=
  Relation.ReflTransGen (Step service) ⟨start, []⟩ config

end DemandSignal.Txn
