import Mathlib.Data.List.Basic
import Mathlib.Logic.Relation

/-!
# Transactional programs

A request handler is a tree of the calls it makes on its database session and on the outside world,
branching on the answers. The tree is generic in the database `D`, the row writes `W`, the
exceptions `X` and the outside calls (a question `Q`, a reply `A`), so one program can be run by an
interpreter, read sequentially, or interleaved with other sessions.
-/

namespace DemandSignal.Txn

/-- A point in time, in microseconds since the epoch. -/
abbrev Time := Int

abbrev Uuid := Nat

/-- A session program returning an `α`. A `write` sees the start time of its transaction and the
session's view of the database, asks for at most one row write and computes an answer; its
continuation receives `none` when a unique index refuses the row. -/
inductive Program (D W X Q A : Type) (α : Type) : Type 1 where
  | ret (a : α)
  | raise (x : X)
  | read {β : Type} (q : D → β) (k : β → Program D W X Q A α)
  | write {β : Type} (f : Time → D → Option W × β) (k : Option β → Program D W X Q A α)
  | commit (k : Program D W X Q A α)
  | rollback (k : Program D W X Q A α)
  | uuid (k : Uuid → Program D W X Q A α)
  | now (k : Time → Program D W X Q A α)
  | ask (q : Q) (k : A → Program D W X Q A α)

namespace Program

variable {D W X Q A α β γ : Type}

protected def bind : Program D W X Q A α → (α → Program D W X Q A β) → Program D W X Q A β
  | ret a, g => g a
  | raise x, _ => raise x
  | read q k, g => read q fun b => (k b).bind g
  | write f k, g => write f fun b => (k b).bind g
  | commit k, g => commit (k.bind g)
  | rollback k, g => rollback (k.bind g)
  | uuid k, g => uuid fun u => (k u).bind g
  | now k, g => now fun t => (k t).bind g
  | ask q k, g => ask q fun a => (k a).bind g

instance : Monad (Program D W X Q A) where
  pure := ret
  bind := Program.bind

@[simp]
theorem pure_eq (a : α) : (pure a : Program D W X Q A α) = ret a := rfl

@[simp]
theorem bind_eq (p : Program D W X Q A α) (g : α → Program D W X Q A β) :
    p >>= g = p.bind g := rfl

@[simp]
theorem ret_bind (a : α) (g : α → Program D W X Q A β) : (ret a).bind g = g a := rfl

@[simp]
theorem raise_bind (x : X) (g : α → Program D W X Q A β) : (raise x).bind g = raise x := rfl

/-- A `SELECT`. -/
def select (q : D → α) : Program D W X Q A α := read q ret

/-- An `INSERT` or `UPDATE` whose refusal the caller handles: `false` when a unique index refused
the row. -/
def attempt (f : Time → D → Option W) : Program D W X Q A Bool :=
  write (fun t d => (f t d, ())) fun r => ret r.isSome

/-- An `INSERT` or `UPDATE` whose refusal nobody catches. -/
def execute (x : X) (f : Time → D → Option W × α) : Program D W X Q A α :=
  write f fun
    | some a => ret a
    | none => raise x

def commitNow : Program D W X Q A Unit := commit (ret ())

def rollbackNow : Program D W X Q A Unit := rollback (ret ())

def uuid4 : Program D W X Q A Uuid := uuid ret

def utcNow : Program D W X Q A Time := now ret

def call (q : Q) : Program D W X Q A A := ask q ret

end Program

end DemandSignal.Txn
