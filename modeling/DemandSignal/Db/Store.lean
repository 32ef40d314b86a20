import DemandSignal.Db.Tables

/-!
# The database

Tables of rows in insertion order, the two row writes, and the statements the services send. The
unique indexes refuse a row whose entry another row holds.
-/

namespace DemandSignal

open Txn

structure Db where
  events : List Event := []
  identities : List Identity := []
  identityLinks : List IdentityLink := []
  manualReviewQueue : List ManualReviewQueue := []
  interpretations : List Interpretation := []
  scores : List Score := []
  leads : List Lead := []
  routes : List Route := []
  attributionTouches : List AttributionTouch := []
  receipts : List Receipt := []
  deadLetterQueue : List DeadLetterQueue := []
deriving BEq, ReflBEq, LawfulBEq

instance : DecidableEq Db := instDecidableEqOfLawfulBEq

namespace Db

/-- The rows of a table. -/
def rows (db : Db) : (t : Table) → List (Row t)
  | .events => db.events
  | .identities => db.identities
  | .identityLinks => db.identityLinks
  | .manualReviewQueue => db.manualReviewQueue
  | .interpretations => db.interpretations
  | .scores => db.scores
  | .leads => db.leads
  | .routes => db.routes
  | .attributionTouches => db.attributionTouches
  | .receipts => db.receipts
  | .deadLetterQueue => db.deadLetterQueue

instance : CoeFun Db fun _ => (t : Table) → List (Row t) := ⟨rows⟩

def set (db : Db) : (t : Table) → List (Row t) → Db
  | .events, rows => { db with events := rows }
  | .identities, rows => { db with identities := rows }
  | .identityLinks, rows => { db with identityLinks := rows }
  | .manualReviewQueue, rows => { db with manualReviewQueue := rows }
  | .interpretations, rows => { db with interpretations := rows }
  | .scores, rows => { db with scores := rows }
  | .leads, rows => { db with leads := rows }
  | .routes, rows => { db with routes := rows }
  | .attributionTouches, rows => { db with attributionTouches := rows }
  | .receipts, rows => { db with receipts := rows }
  | .deadLetterQueue, rows => { db with deadLetterQueue := rows }

@[simp]
theorem set_self (db : Db) (t : Table) (rows : List (Row t)) : db.set t rows t = rows := by
  cases t <;> rfl

@[simp]
theorem set_of_ne (db : Db) {t t' : Table} (rows : List (Row t)) (h : t' ≠ t) :
    db.set t rows t' = db t' := by
  cases t <;> cases t' <;> first | rfl | exact absurd rfl h

end Db

/-- A row write: a new row, or the columns in which `new` differs from `loaded`. -/
inductive Write where
  | insert (t : Table) (row : Row t)
  | update (t : Table) (loaded new : Row t)

namespace Write

def table : Write → Table
  | insert t _ => t
  | update t _ _ => t

def rowId : Write → Uuid
  | insert _ row => row.id
  | update _ loaded _ => loaded.id

end Write

namespace Db

/-- The rows of a table after an `UPDATE`. -/
def updated {t : Table} (loaded new : Row t) (rows : List (Row t)) : List (Row t) :=
  rows.map fun row => if row.id = loaded.id then Row.merge loaded new row else row

def apply (db : Db) : Write → Db
  | .insert t row => db.set t (db t ++ [row])
  | .update t loaded new => db.set t (updated loaded new (db t))

/-- Another row of the table holds the index entry. -/
def holds (db : Db) (t : Table) (key : Key) : Bool := (db t).any fun row => key ∈ row.keys

def refuses (db : Db) : Write → Bool
  | .insert t row => row.keys.any (db.holds t)
  | .update t loaded new => new.keys.any fun key => key ∉ loaded.keys && db.holds t key

def locks : Write → List Key
  | .insert _ row => row.keys
  | .update t loaded new => .row t loaded.id :: new.keys.filter (· ∉ loaded.keys)

def ids (db : Db) : List Uuid := Table.all.flatMap fun t => (db t).map Row.id

/-- Some row has the id. -/
def InUse (db : Db) (u : Uuid) : Prop := ∃ t, ∃ row ∈ db t, row.id = u

theorem mem_ids {db : Db} {u : Uuid} : u ∈ db.ids ↔ db.InUse u := by
  simp [ids, InUse, Table.mem_all]

def fresh (db : Db) (own : List Uuid) : Uuid := (db.ids ++ own).foldl max 0 + 1

theorem lt_fresh {db : Db} {own : List Uuid} {u : Uuid} (h : u ∈ db.ids ++ own) :
    u < db.fresh own := by
  have hle : ∀ (us : List Uuid) (a : Uuid), a ≤ us.foldl max a ∧ ∀ u ∈ us, u ≤ us.foldl max a := by
    intro us
    induction us with
    | nil => simp
    | cons v us ih =>
        intro a
        obtain ⟨hmax, hus⟩ := ih (max a v)
        rw [List.foldl_cons]
        refine ⟨le_trans (le_max_left a v) hmax, ?_⟩
        rintro u (_ | ⟨_, hu⟩)
        exacts [le_trans (le_max_right a v) hmax, hus u hu]
  exact Nat.lt_succ_of_le ((hle _ 0).2 u h)

instance : Store Db Write Key where
  apply := apply
  refuses := refuses
  locks := locks
  InUse := InUse
  fresh := fresh
  fresh_not_inUse _ own h :=
    absurd (lt_fresh (List.mem_append_left own (mem_ids.mpr h))) (lt_irrefl _)
  fresh_not_mem db _ h := absurd (lt_fresh (List.mem_append_right db.ids h)) (lt_irrefl _)

end Db

/-! ### Statements -/

section Statements

variable {X Q A : Type}

/-- `select(...).where(p)`, `.scalars().first()`. -/
def find (t : Table) (p : Row t → Bool) : Program Db Write X Q A (Option (Row t)) :=
  .select fun db => (db t).find? p

/-- `select(...).where(p)`, `.scalars().all()`. -/
def findAll (t : Table) (p : Row t → Bool) : Program Db Write X Q A (List (Row t)) :=
  .select fun db => (db t).filter p

/-- `db.add(row)` and its flush; the refusal of an index is `x`. -/
def insert (t : Table) (x : X) (row : Uuid → Time → Row t) : Program Db Write X Q A (Row t) := do
  let id ← .uuid4
  .execute x fun now _ => (some (.insert t (row id now)), row id now)

/-- `db.add(row)` and a flush inside `try`; `none` when an index refuses the row. -/
def tryInsert (t : Table) (row : Uuid → Time → Row t) :
    Program Db Write X Q A (Option (Row t)) := do
  let id ← .uuid4
  .write (fun now _ => (some (.insert t (row id now)), row id now)) .ret

/-- The flush of a loaded row after the assignments that made it `new`. A row without a changed
column is not written. -/
def save (t : Table) (x : X) (loaded new : Row t) : Program Db Write X Q A Unit :=
  .execute x fun now _ => (if new = loaded then none else some (.update t loaded (new.stamp now)), ())

/-- `db.refresh(row)`. -/
def refresh (t : Table) (x : X) (row : Row t) : Program Db Write X Q A (Row t) := do
  match ← find t fun current => current.id = row.id with
  | some current => .ret current
  | none => .raise x

end Statements

end DemandSignal
