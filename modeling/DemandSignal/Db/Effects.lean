import DemandSignal.Db.Store
import Mathlib.Data.List.Induction
import Mathlib.Data.List.Pairwise

/-!
# What writes do to the tables

A write touches one table. Rows are never removed and an `UPDATE` leaves the id and the other columns
the code does not assign as they are, so what a list of writes does to a table is to add the rows it
inserts and to change some columns of the rest.
-/

namespace DemandSignal

open Txn

/-! ### Writes -/

namespace Write

/-- The write adds no entry to a unique index of an existing row. -/
def Tame : Write → Prop
  | insert _ _ => True
  | update _ loaded new => ∀ current, (Row.merge loaded new current).keys ⊆ current.keys

def insertedId : Write → Option Uuid
  | insert _ row => some row.id
  | update _ _ _ => none

/-- The new row of a table. -/
def insertedRow (t : Table) : Write → Option (Row t)
  | insert t' row => if h : t' = t then some (h ▸ row) else none
  | update _ _ _ => none

@[simp]
theorem insertedRow_insert (t : Table) (row : Row t) :
    (insert t row).insertedRow t = some row := dif_pos rfl

theorem insertedRow_of_ne {w : Write} {t : Table} (h : w.table ≠ t) : w.insertedRow t = none := by
  cases w with
  | insert t' row => exact dif_neg h
  | update => rfl

@[simp]
theorem insertedRow_update (t t' : Table) (loaded new : Row t') :
    (update t' loaded new).insertedRow t = none := rfl

theorem insertedRow_eq_some {w : Write} {t : Table} {row : Row t} :
    w.insertedRow t = some row ↔ w = .insert t row := by
  constructor
  · intro h
    cases w with
    | insert t' row' =>
        by_cases htable : t' = t
        · subst htable
          rw [insertedRow_insert, Option.some.injEq] at h
          rw [h]
        · rw [insertedRow_of_ne (w := .insert t' row') htable] at h
          cases h
    | update t' loaded new => cases h
  · rintro rfl
    exact insertedRow_insert t row

/-- The loaded and the new row of an `UPDATE` of a table. -/
def updatedRows (t : Table) : Write → Option (Row t × Row t)
  | insert _ _ => none
  | update t' loaded new => if h : t' = t then some (h ▸ (loaded, new)) else none

theorem updatedRows_eq_some {w : Write} {t : Table} {loaded new : Row t} :
    w.updatedRows t = some (loaded, new) ↔ w = .update t loaded new := by
  cases w with
  | insert t' row => simp [updatedRows]
  | update t' loaded' new' =>
      by_cases htable : t' = t
      · subst htable
        simp [updatedRows]
      · simp [updatedRows, htable]

end Write

/-- The ids of the new rows of a transaction. -/
def insertIds (ws : List Write) : List Uuid := ws.filterMap Write.insertedId

/-- The new rows of a table. -/
def inserted (t : Table) (ws : List Write) : List (Row t) := ws.filterMap (Write.insertedRow t)

/-- The writes of a flushed row. -/
def saved (t : Table) (loaded new : Row t) (now : Time) : List Write :=
  if new = loaded then [] else [.update t loaded (new.stamp now)]

@[simp]
theorem insertIds_append (ws ws' : List Write) :
    insertIds (ws ++ ws') = insertIds ws ++ insertIds ws' :=
  List.filterMap_append ..

@[simp]
theorem insertIds_insert (t : Table) (row : Row t) : insertIds [.insert t row] = [row.id] := rfl

@[simp]
theorem inserted_nil (t : Table) : inserted t [] = [] := rfl

@[simp]
theorem inserted_append (t : Table) (ws ws' : List Write) :
    inserted t (ws ++ ws') = inserted t ws ++ inserted t ws' :=
  List.filterMap_append ..

theorem inserted_cons (t : Table) (w : Write) (ws : List Write) :
    inserted t (w :: ws) = (w.insertedRow t).toList ++ inserted t ws := by
  rw [inserted, List.filterMap_cons]
  split <;> simp_all [inserted]

@[simp]
theorem inserted_cons_insert (t : Table) (row : Row t) (ws : List Write) :
    inserted t (.insert t row :: ws) = row :: inserted t ws := by
  rw [inserted_cons, Write.insertedRow_insert]
  rfl

@[simp]
theorem inserted_cons_update (t t' : Table) (loaded new : Row t') (ws : List Write) :
    inserted t (.update t' loaded new :: ws) = inserted t ws := by
  rw [inserted_cons, Write.insertedRow_update]
  rfl

theorem inserted_cons_of_ne {t t' : Table} (h : t' ≠ t) (row : Row t') (ws : List Write) :
    inserted t (.insert t' row :: ws) = inserted t ws := by
  rw [inserted_cons, Write.insertedRow_of_ne (w := .insert t' row) h]
  rfl

/-- The rows of a table that are updated. -/
def updates (t : Table) (ws : List Write) : List (Row t × Row t) :=
  ws.filterMap (Write.updatedRows t)

theorem mem_updates {t : Table} {ws : List Write} {loaded new : Row t} :
    (loaded, new) ∈ updates t ws ↔ .update t loaded new ∈ ws := by
  rw [updates, List.mem_filterMap]
  constructor
  · rintro ⟨w, hw, h⟩
    rwa [Write.updatedRows_eq_some.mp h] at hw
  · exact fun h => ⟨_, h, Write.updatedRows_eq_some.mpr rfl⟩

theorem mem_inserted {t : Table} {ws : List Write} {row : Row t} :
    row ∈ inserted t ws ↔ .insert t row ∈ ws := by
  rw [inserted, List.mem_filterMap]
  constructor
  · rintro ⟨w, hw, h⟩
    rwa [Write.insertedRow_eq_some.mp h] at hw
  · exact fun h => ⟨_, h, Write.insertedRow_insert t row⟩

theorem inserted_of_untouched {t : Table} {ws : List Write} (h : ∀ w ∈ ws, w.table ≠ t) :
    inserted t ws = [] := by
  rw [List.eq_nil_iff_forall_not_mem]
  exact fun row hrow => h _ (mem_inserted.mp hrow) rfl

theorem table_of_mem_saved {t : Table} {loaded new : Row t} {now : Time} {w : Write}
    (h : w ∈ saved t loaded new now) : w = .update t loaded (new.stamp now) ∧ new ≠ loaded := by
  rw [saved] at h
  split at h
  · cases h
  · exact ⟨List.mem_singleton.mp h, ‹_›⟩

theorem saved_self {t : Table} {loaded new : Row t} (h : new = loaded) (now : Time) :
    saved t loaded new now = [] := if_pos h

theorem saved_of_ne {t : Table} {loaded new : Row t} (h : new ≠ loaded) (now : Time) :
    saved t loaded new now = [.update t loaded (new.stamp now)] := if_neg h

@[simp]
theorem inserted_saved (t t' : Table) (loaded new : Row t') (now : Time) :
    inserted t (saved t' loaded new now) = [] := by
  rw [saved]
  split <;> rfl

theorem mem_insertIds {ws : List Write} {u : Uuid} :
    u ∈ insertIds ws ↔ ∃ t, ∃ row : Row t, .insert t row ∈ ws ∧ row.id = u := by
  simp only [insertIds, List.mem_filterMap]
  constructor
  · rintro ⟨w, hw, hu⟩
    cases w with
    | insert t row => exact ⟨t, row, hw, by simpa [Write.insertedId] using hu⟩
    | update t loaded new => simp [Write.insertedId] at hu
  · rintro ⟨t, row, hw, rfl⟩
    exact ⟨_, hw, rfl⟩

/-! ### The tables writes name -/

/-- The writes name these tables only. -/
def Names (ws : List Write) (ts : List Table) : Prop := ∀ w ∈ ws, w.table ∈ ts

theorem Names.ne {ws : List Write} {ts : List Table} (h : Names ws ts) {t : Table} (ht : t ∉ ts) :
    ∀ w ∈ ws, w.table ≠ t := by
  rintro w hw rfl
  exact ht (h w hw)

@[simp]
theorem names_nil (ts : List Table) : Names [] ts := by simp [Names]

@[simp]
theorem names_cons {w : Write} {ws : List Write} {ts : List Table} :
    Names (w :: ws) ts ↔ w.table ∈ ts ∧ Names ws ts := List.forall_mem_cons

@[simp]
theorem names_append {ws ws' : List Write} {ts : List Table} :
    Names (ws ++ ws') ts ↔ Names ws ts ∧ Names ws' ts := List.forall_mem_append

theorem names_saved {t : Table} (loaded new : Row t) (now : Time) {ts : List Table} (ht : t ∈ ts) :
    Names (saved t loaded new now) ts := fun w hw => by rwa [(table_of_mem_saved hw).1]

theorem filter_saved {t : Table} (loaded new : Row t) (now : Time) :
    ((saved t loaded new now).filter fun w => w.table = t) = saved t loaded new now :=
  List.filter_eq_self.mpr fun w hw => by simp [(table_of_mem_saved hw).1, Write.table]

theorem filter_saved_of_ne {t s : Table} (h : t ≠ s) (loaded new : Row t) (now : Time) :
    ((saved t loaded new now).filter fun w => w.table = s) = [] :=
  List.filter_eq_nil_iff.mpr fun w hw => by simpa [(table_of_mem_saved hw).1, Write.table] using h

/-! ### The table of an index entry -/

def Key.table : Key → Table
  | .row t _ => t
  | .eventDedupeKey _ => .events
  | .identityEmail _ | .identityPhone _ => .identities
  | .linkEvent _ => .identityLinks
  | .reviewEvent _ => .manualReviewQueue
  | .interpretationEvent _ => .interpretations
  | .scoreEvent _ => .scores
  | .leadIdentity _ => .leads
  | .routeLead _ => .routes
  | .touchIdentity _ => .attributionTouches
  | .unresolvedEvent _ => .deadLetterQueue

theorem Row.table_of_mem_indexed {t : Table} {row : Row t} {key : Key} (h : key ∈ row.indexed) :
    key.table = t ∧ ∀ t' u, key ≠ .row t' u := by
  cases t <;> simp only [Row.indexed, List.mem_append, List.mem_map] at h
  case events =>
    split at h
    · rw [List.mem_singleton] at h
      simp [h, Key.table]
    · cases h
  case identities =>
    obtain ⟨_, _, rfl⟩ | ⟨_, _, rfl⟩ := h <;> simp [Key.table]
  case deadLetterQueue =>
    split at h
    · cases h
    · rw [List.mem_singleton] at h
      simp [h, Key.table]
  case receipts => cases h
  all_goals
    rw [List.mem_singleton] at h
    simp [h, Key.table]

theorem Row.table_of_mem_keys {t : Table} {row : Row t} {key : Key} (h : key ∈ row.keys) :
    key.table = t := by
  rcases List.mem_cons.mp h with rfl | h
  · rfl
  · exact (table_of_mem_indexed h).1

theorem Db.table_of_mem_locks {w : Write} {key : Key} (h : key ∈ Db.locks w) :
    key.table = w.table := by
  cases w with
  | insert t row => exact Row.table_of_mem_keys h
  | update t loaded new =>
      rcases List.mem_cons.mp h with rfl | h
      · rfl
      · exact Row.table_of_mem_keys (List.mem_of_mem_filter h)

/-! ### Applying writes -/

/-- The row came from the other by `UPDATE`s. -/
def Row.Kept {t : Table} : Row t → Row t → Prop :=
  Relation.ReflTransGen fun row row' => ∃ loaded new, row' = Row.merge loaded new row

/-- A column that no `UPDATE` changes. -/
def Row.Static {t : Table} {β : Type} (column : Row t → β) : Prop :=
  ∀ loaded new current, column (Row.merge loaded new current) = column current

theorem Row.Kept.static {t : Table} {β : Type} {column : Row t → β} (hstatic : Row.Static column)
    {row row' : Row t} (h : Row.Kept row row') : column row' = column row := by
  induction h with
  | refl => rfl
  | tail _ hlast ih =>
      obtain ⟨loaded, new, rfl⟩ := hlast
      rw [hstatic, ih]

theorem Row.static_id (t : Table) : Row.Static (Row.id : Row t → Uuid) := fun _ _ _ => id_merge ..

/-- An `UPDATE` that leaves the column out finds it as it was read. -/
def Undisturbed {t : Table} {β : Type} (column : Row t → β) (loaded new current : Row t) : Prop :=
  column new = column loaded → column current = column loaded

instance {t : Table} {β : Type} [DecidableEq β] (column : Row t → β) (loaded new current : Row t) :
    Decidable (Undisturbed column loaded new current) :=
  inferInstanceAs (Decidable (_ → _))

theorem Undisturbed.column {t : Table} {β : Type} [DecidableEq β] {column : Row t → β}
    {loaded new current : Row t} (h : Undisturbed column loaded new current) :
    Row.column (column loaded) (column new) (column current) = column new := by
  unfold Row.column
  split
  · next heq => rw [h heq, heq]
  · rfl

namespace Db

theorem apply_insert_self (db : Db) (t : Table) (row : Row t) :
    db.apply (.insert t row) t = db t ++ [row] := set_self ..

theorem apply_update_self (db : Db) (t : Table) (loaded new : Row t) :
    db.apply (.update t loaded new) t = updated loaded new (db t) := set_self ..

theorem apply_of_ne (db : Db) {w : Write} {t : Table} (h : w.table ≠ t) : db.apply w t = db t := by
  cases w <;> exact set_of_ne _ _ (Ne.symm h)

/-- Writes leave the tables they do not name alone. -/
theorem foldl_apply_of_untouched {ws : List Write} {t : Table} (h : ∀ w ∈ ws, w.table ≠ t)
    (db : Db) : ws.foldl apply db t = db t := by
  induction ws generalizing db with
  | nil => rfl
  | cons w ws ih =>
      rw [List.foldl_cons, ih fun w' hw' => h w' (List.mem_cons_of_mem w hw'),
        apply_of_ne _ (h w (List.mem_cons_self ..))]

/-- Only the writes to a table matter to it. -/
theorem foldl_apply_filter (ws : List Write) (t : Table) (db : Db) :
    ws.foldl apply db t = (ws.filter fun w => w.table = t).foldl apply db t := by
  induction ws using List.reverseRecOn with
  | nil => rfl
  | append_singleton ws w ih =>
      rw [List.filter_append, List.foldl_append, List.foldl_append, List.foldl_cons, List.foldl_nil]
      by_cases h : w.table = t
      · rw [List.filter_cons_of_pos (by simpa using h), List.filter_nil, List.foldl_cons,
          List.foldl_nil]
        cases w with
        | insert t' row =>
            obtain rfl : t' = t := h
            rw [apply_insert_self, apply_insert_self, ih]
        | update t' loaded new =>
            obtain rfl : t' = t := h
            rw [apply_update_self, apply_update_self, ih]
      · rw [List.filter_cons_of_neg (by simpa using h), List.filter_nil, List.foldl_nil,
          apply_of_ne _ h, ih]

theorem mem_updated {t : Table} {loaded new row : Row t} {rows : List (Row t)} :
    row ∈ updated loaded new rows ↔ ∃ current ∈ rows,
      row = if current.id = loaded.id then Row.merge loaded new current else current := by
  simp only [updated, List.mem_map]
  exact ⟨fun ⟨c, hc, h⟩ => ⟨c, hc, h.symm⟩, fun ⟨c, hc, h⟩ => ⟨c, hc, h.symm⟩⟩

theorem map_updated {t : Table} {β : Type} {column : Row t → β} {loaded new : Row t}
    (hkeep : ∀ current, column (Row.merge loaded new current) = column current)
    (rows : List (Row t)) : (updated loaded new rows).map column = rows.map column := by
  rw [updated, List.map_map]
  refine List.map_congr_left fun row _ => ?_
  rw [Function.comp_apply]
  split
  · exact hkeep row
  · rfl

/-- Where a row comes from after a write. -/
theorem mem_apply {db : Db} {w : Write} {t : Table} {row : Row t} (h : row ∈ db.apply w t) :
    row ∈ db t ∨ w = .insert t row ∨
      ∃ loaded new current, w = .update t loaded new ∧ current ∈ db t ∧ current.id = loaded.id ∧
        row = Row.merge loaded new current := by
  cases w with
  | insert t' row' =>
      by_cases htable : t' = t
      · subst htable
        rw [apply_insert_self, List.mem_append, List.mem_singleton] at h
        rcases h with h | rfl
        exacts [.inl h, .inr (.inl rfl)]
      · rw [apply_of_ne (w := .insert t' row') _ htable] at h
        exact .inl h
  | update t' loaded new =>
      by_cases htable : t' = t
      · subst htable
        rw [apply_update_self, mem_updated] at h
        obtain ⟨current, hcurrent, rfl⟩ := h
        split
        · exact .inr (.inr ⟨loaded, new, current, rfl, hcurrent, ‹_›, rfl⟩)
        · exact .inl hcurrent
      · rw [apply_of_ne (w := .update t' loaded new) _ htable] at h
        exact .inl h

/-- A write keeps every row, up to an `UPDATE`. -/
theorem exists_kept_apply {db : Db} (w : Write) {t : Table} {row : Row t} (h : row ∈ db t) :
    ∃ row' ∈ db.apply w t, Row.Kept row row' := by
  by_cases htable : w.table = t
  · cases w with
    | insert t' row' =>
        obtain rfl : t' = t := htable
        refine ⟨row, ?_, .refl⟩
        rw [apply_insert_self]
        exact List.mem_append_left _ h
    | update t' loaded new =>
        obtain rfl : t' = t := htable
        refine ⟨_, by rw [apply_update_self, mem_updated]; exact ⟨row, h, rfl⟩, ?_⟩
        split
        · exact .single ⟨loaded, new, rfl⟩
        · exact .refl
  · exact ⟨row, by rwa [apply_of_ne _ htable], .refl⟩

theorem exists_kept (ws : List Write) {db : Db} {t : Table} {row : Row t} (h : row ∈ db t) :
    ∃ row' ∈ ws.foldl apply db t, Row.Kept row row' := by
  induction ws generalizing db row with
  | nil => exact ⟨row, h, .refl⟩
  | cons w ws ih =>
      obtain ⟨row₁, hrow₁, hkept₁⟩ := exists_kept_apply w h
      obtain ⟨row₂, hrow₂, hkept₂⟩ := ih hrow₁
      exact ⟨row₂, hrow₂, hkept₁.trans hkept₂⟩

/-- A new row is there when the writes are done, up to an `UPDATE`. -/
theorem exists_kept_inserted (db : Db) {ws : List Write} {t : Table} {row : Row t}
    (h : .insert t row ∈ ws) : ∃ row' ∈ ws.foldl apply db t, Row.Kept row row' := by
  obtain ⟨pre, rest, rfl⟩ := List.append_of_mem h
  rw [List.foldl_append, List.foldl_cons]
  refine exists_kept rest ?_
  rw [apply_insert_self]
  exact List.mem_append_right _ (List.mem_singleton_self row)

/-- The table has a row with the id. -/
def Has (db : Db) (t : Table) (u : Uuid) : Prop := ∃ row ∈ db t, row.id = u

theorem Has.foldl {db : Db} {t : Table} {u : Uuid} (h : db.Has t u) (ws : List Write) :
    Db.Has (ws.foldl apply db) t u := by
  obtain ⟨row, hrow, rfl⟩ := h
  obtain ⟨row', hrow', hkept⟩ := exists_kept ws hrow
  exact ⟨row', hrow', hkept.static (Row.static_id t)⟩

theorem has_of_insert {ws : List Write} {db : Db} {t : Table} {row : Row t}
    (h : .insert t row ∈ ws) : Db.Has (ws.foldl apply db) t row.id := by
  obtain ⟨row', hrow', hkept⟩ := exists_kept_inserted db h
  exact ⟨row', hrow', hkept.static (Row.static_id t)⟩

/-- After writes, a row is an old one or a new one, up to `UPDATE`s. -/
theorem mem_foldl_apply {ws : List Write} {db : Db} {t : Table} {row : Row t}
    (h : row ∈ ws.foldl apply db t) : ∃ row₀, (row₀ ∈ db t ∨ row₀ ∈ inserted t ws) ∧
      Row.Kept row₀ row := by
  induction ws generalizing db with
  | nil => exact ⟨row, .inl h, .refl⟩
  | cons w ws ih =>
      obtain ⟨row₀, hrow₀ | hrow₀, hkept⟩ := ih h
      · obtain hrow₀ | rfl | ⟨loaded, new, current, rfl, hcurrent, -, rfl⟩ := mem_apply hrow₀
        · exact ⟨row₀, .inl hrow₀, hkept⟩
        · exact ⟨row₀, .inr (mem_inserted.mpr (List.mem_cons_self ..)), hkept⟩
        · exact ⟨current, .inl hcurrent, .head ⟨loaded, new, rfl⟩ hkept⟩
      · refine ⟨row₀, .inr (mem_inserted.mpr ?_), hkept⟩
        exact List.mem_cons_of_mem w (mem_inserted.mp hrow₀)

/-- A row whose id no write names was there before. -/
theorem mem_of_mem_foldl_apply {ws : List Write} {db : Db} {t : Table} {row : Row t}
    (h : row ∈ ws.foldl apply db t) (hws : ∀ w ∈ ws, w.table = t → w.rowId ≠ row.id) :
    row ∈ db t := by
  induction ws using List.reverseRecOn with
  | nil => exact h
  | append_singleton ws w ih =>
      rw [List.foldl_append, List.foldl_cons, List.foldl_nil] at h
      have hlast := hws w (List.mem_append_right ws (List.mem_singleton_self w))
      refine ih ?_ fun w' hw' => hws w' (List.mem_append_left _ hw')
      obtain hmem | rfl | ⟨loaded, new, current, rfl, -, hid, rfl⟩ := mem_apply h
      · exact hmem
      · exact absurd rfl (hlast rfl)
      · exact absurd (hid.symm.trans (Row.id_merge loaded new current).symm) (hlast rfl)

/-- A column that no `UPDATE` of the writes changes: the old values, then those of the new rows. -/
theorem map_foldl_apply_of_kept {t : Table} {β : Type} {column : Row t → β} {ws : List Write}
    (hkeep : ∀ loaded new, .update t loaded new ∈ ws → ∀ current,
      column (Row.merge loaded new current) = column current) (db : Db) :
    (ws.foldl apply db t).map column = (db t).map column ++ (inserted t ws).map column := by
  induction ws generalizing db with
  | nil => simp
  | cons w ws ih =>
      rw [List.foldl_cons, ih fun loaded new hmem => hkeep loaded new (List.mem_cons_of_mem w hmem),
        inserted_cons]
      by_cases htable : w.table = t
      · cases w with
        | insert t' row =>
            obtain rfl : t' = t := htable
            rw [apply_insert_self, Write.insertedRow_insert]
            simp
        | update t' loaded new =>
            obtain rfl : t' = t := htable
            rw [apply_update_self, map_updated (hkeep loaded new (List.mem_cons_self ..))]
            simp
      · rw [apply_of_ne _ htable, Write.insertedRow_of_ne htable]
        simp

theorem map_foldl_apply {t : Table} {β : Type} {column : Row t → β} (hstatic : Row.Static column)
    (ws : List Write) (db : Db) :
    (ws.foldl apply db t).map column = (db t).map column ++ (inserted t ws).map column :=
  map_foldl_apply_of_kept (fun loaded new _ => hstatic loaded new) db

/-- A write brings at most the id it inserts into use. -/
theorem inUse_foldl {ws : List Write} {db : Db} {u : Uuid} (h : (ws.foldl apply db).InUse u) :
    db.InUse u ∨ u ∈ insertIds ws := by
  obtain ⟨t, row, hrow, rfl⟩ := h
  obtain ⟨row₀, hrow₀, hkept⟩ := mem_foldl_apply hrow
  rw [hkept.static (Row.static_id t)]
  rcases hrow₀ with hrow₀ | hrow₀
  exacts [.inl ⟨t, row₀, hrow₀, rfl⟩, .inr (mem_insertIds.mpr ⟨t, row₀, mem_inserted.mp hrow₀, rfl⟩)]

/-- A write holds at most the keys it locks besides those held before. -/
theorem holds_apply {db : Db} {w : Write} (hw : w.Tame) {t : Table} {key : Key}
    (h : (db.apply w).holds t key = true) : db.holds t key = true ∨ key ∈ locks w := by
  simp only [holds, List.any_eq_true, decide_eq_true_eq] at h ⊢
  obtain ⟨row, hrow, hkey⟩ := h
  obtain hrow | rfl | ⟨loaded, new, current, rfl, hcurrent, -, rfl⟩ := mem_apply hrow
  exacts [.inl ⟨row, hrow, hkey⟩, .inr hkey, .inl ⟨current, hcurrent, hw current hkey⟩]

theorem holds_foldl {ws : List Write} (hws : ∀ w ∈ ws, w.Tame) {db : Db} {t : Table} {key : Key}
    (h : (ws.foldl apply db).holds t key = true) :
    db.holds t key = true ∨ ∃ w ∈ ws, key ∈ locks w := by
  induction ws generalizing db with
  | nil => exact .inl h
  | cons w ws ih =>
      rcases ih (fun w' hw' => hws w' (List.mem_cons_of_mem w hw')) h with h | ⟨w', hw', h⟩
      · rcases holds_apply (hws w (List.mem_cons_self ..)) h with h | h
        exacts [.inl h, .inr ⟨w, List.mem_cons_self .., h⟩]
      · exact .inr ⟨w', List.mem_cons_of_mem w hw', h⟩

end Db

/-! ### Keys -/

/-- Writes that a database can take: their new rows have unused ids and free index entries. -/
structure Applicable (ws : List Write) (db : Db) : Prop where
  unused : ∀ u ∈ insertIds ws, ¬ db.InUse u
  nodup : (insertIds ws).Nodup
  free : ∀ t row, .insert t row ∈ ws → ∀ key ∈ row.indexed, db.holds t key = false
  apart : ws.Pairwise fun w w' => ∀ t row, w' = .insert t row → ∀ key ∈ row.indexed, key ∉ Db.locks w
  tame : ∀ w ∈ ws, w.Tame

/-- No two rows of a table share an id or an index entry. -/
def Db.Distinct (db : Db) : Prop :=
  ∀ t, (db t).Pairwise fun row row' => ∀ key ∈ row.keys, key ∉ row'.keys

theorem Db.distinct_empty : Db.Distinct {} := fun t => by cases t <;> exact .nil

theorem Db.holds_eq_false {db : Db} {t : Table} {key : Key} :
    db.holds t key = false ↔ ∀ row ∈ db t, key ∉ row.keys := by
  simp [Db.holds]

/-- A fresh id is nobody's key. -/
theorem holds_row_of_not_inUse {db : Db} {t : Table} {u : Uuid} (h : ¬ db.InUse u) :
    db.holds t (.row t u) = false := by
  rw [Bool.eq_false_iff]
  intro hholds
  simp only [Db.holds, List.any_eq_true, decide_eq_true_eq, Row.keys, List.mem_cons,
    Key.row.injEq, true_and] at hholds
  obtain ⟨row, hrow, rfl | hkey⟩ := hholds
  · exact h ⟨t, row, hrow, rfl⟩
  · exact (Row.table_of_mem_indexed hkey).2 t u rfl

namespace Db.Distinct

variable {db : Db}

theorem apply {w : Write} (h : db.Distinct) (htame : w.Tame)
    (hnew : ∀ t row, w = .insert t row → ∀ key ∈ row.keys, db.holds t key = false) :
    (db.apply w).Distinct := by
  intro t
  by_cases htable : w.table = t
  · cases w with
    | insert t' row =>
        obtain rfl : t' = t := htable
        rw [apply_insert_self, List.pairwise_append]
        refine ⟨h t', List.pairwise_singleton .., fun row' hrow' row'' hrow'' key hkey hkey' => ?_⟩
        rw [List.mem_singleton] at hrow''
        subst hrow''
        have hfree := hnew t' row'' rfl key hkey'
        rw [Db.holds, List.any_eq_false] at hfree
        exact hfree row' hrow' (decide_eq_true hkey)
    | update t' loaded new =>
        obtain rfl : t' = t := htable
        have hkeys : ∀ row : Row t', (if row.id = loaded.id then Row.merge loaded new row
            else row).keys ⊆ row.keys := by
          intro row
          split
          exacts [htame row, fun _ hkey => hkey]
        rw [apply_update_self, updated, List.pairwise_map]
        exact (h t').imp fun hdisjoint key hkey hkey' =>
          hdisjoint key (hkeys _ hkey) (hkeys _ hkey')
  · rw [apply_of_ne _ htable]
    exact h t

/-- Applicable writes keep ids and index entries distinct. -/
theorem foldl {ws : List Write} (h : db.Distinct) (hws : Applicable ws db) :
    (ws.foldl Db.apply db).Distinct := by
  have hfold : ∀ done rest, done ++ rest = ws → (done.foldl Db.apply db).Distinct →
      (ws.foldl Db.apply db).Distinct := by
    intro done rest
    induction rest generalizing done with
    | nil =>
        rintro rfl hdone
        rwa [List.append_nil]
    | cons w rest ih =>
        intro hsplit hdone
        refine ih (done ++ [w]) (by simp [hsplit]) ?_
        rw [List.foldl_append]
        have hmem : w ∈ ws := by simp [← hsplit]
        refine hdone.apply (hws.tame w hmem) ?_
        rintro t row rfl key hkey
        have hunused : ¬ (done.foldl Db.apply db).InUse row.id := by
          intro hused
          rcases inUse_foldl hused with hused | hused
          · exact hws.unused _ (mem_insertIds.mpr ⟨t, row, hmem, rfl⟩) hused
          · have hnodup := hws.nodup
            rw [← hsplit, insertIds_append, List.nodup_append] at hnodup
            exact hnodup.2.2 _ hused _ (mem_insertIds.mpr ⟨t, row, List.mem_cons_self .., rfl⟩) rfl
        rcases List.mem_cons.mp hkey with rfl | hkey
        · exact holds_row_of_not_inUse hunused
        · rw [Bool.eq_false_iff]
          intro hholds
          have htame : ∀ w ∈ done, w.Tame :=
            fun w hw => hws.tame w (by rw [← hsplit]; exact List.mem_append_left _ hw)
          rcases holds_foldl htame hholds with hholds | ⟨w', hw', hlock⟩
          · rw [hws.free t row hmem key hkey] at hholds
            cases hholds
          · have hapart := hws.apart
            rw [← hsplit, List.pairwise_append] at hapart
            exact hapart.2.2 w' hw' _ (List.mem_cons_self ..) t row rfl key hkey hlock
  exact hfold [] ws rfl h

/-- Rows that share a key are the same row. -/
theorem eq_of_key (h : db.Distinct) {t : Table} {row row' : Row t} (hrow : row ∈ db t)
    (hrow' : row' ∈ db t) {key : Key} (hkey : key ∈ row.keys) (hkey' : key ∈ row'.keys) :
    row = row' := by
  by_contra hne
  have : Std.Symm fun row row' : Row t => ∀ key ∈ row.keys, key ∉ row'.keys :=
    ⟨fun _ _ hdisjoint key hkey hkey' => hdisjoint key hkey' hkey⟩
  exact (h t).forall hrow hrow' hne key hkey hkey'

theorem eq_of_id (h : db.Distinct) {t : Table} {row row' : Row t} (hrow : row ∈ db t)
    (hrow' : row' ∈ db t) (hid : row.id = row'.id) : row = row' :=
  h.eq_of_key hrow hrow' (List.mem_cons_self (a := Key.row t row.id) ..)
    (by rw [hid]; exact List.mem_cons_self ..)

theorem eq_of_indexed (h : db.Distinct) {t : Table} {row row' : Row t} (hrow : row ∈ db t)
    (hrow' : row' ∈ db t) {key : Key} (hkey : key ∈ row.indexed) (hkey' : key ∈ row'.indexed) :
    row = row' :=
  h.eq_of_key hrow hrow' (List.mem_cons_of_mem _ hkey) (List.mem_cons_of_mem _ hkey')

theorem nodup_ids (h : db.Distinct) (t : Table) : ((db t).map Row.id).Nodup := by
  rw [List.Nodup, List.pairwise_map]
  refine (h t).imp fun hdisjoint hid => ?_
  exact hdisjoint _ (List.mem_cons_self ..) (by rw [hid]; exact List.mem_cons_self ..)

/-- The one row with a property. -/
theorem filter_eq_singleton (h : db.Distinct) {t : Table} {row : Row t} (hrow : row ∈ db t)
    {p : Row t → Bool} (hp : p row = true) (hunique : ∀ other ∈ db t, p other = true → other = row) :
    (db t).filter p = [row] := by
  have hnodup : ((db t).filter p).Nodup := (h.nodup_ids t).of_map.filter p
  refine List.perm_singleton.mp ((List.perm_ext_iff_of_nodup hnodup (List.nodup_singleton row)).mpr
    fun other => ?_)
  rw [List.mem_filter, List.mem_singleton]
  constructor
  · rintro ⟨hother, hpother⟩
    exact hunique other hother hpother
  · rintro rfl
    exact ⟨hrow, hp⟩

end Db.Distinct

/-! ### Histories -/

/-- The ledger after further transactions. -/
def Extends : Ledger Db Write → Ledger Db Write → Prop :=
  Relation.ReflTransGen fun L L' => ∃ ws, L' = L.commit ws

namespace Extends

theorem commit (L : Ledger Db Write) (ws : List Write) : Extends L (L.commit ws) :=
  .single ⟨ws, rfl⟩

theorem exists_kept {L L' : Ledger Db Write} (h : Extends L L') {t : Table} {row : Row t}
    (hrow : row ∈ L.db t) : ∃ row' ∈ L'.db t, Row.Kept row row' := by
  induction h with
  | refl => exact ⟨row, hrow, .refl⟩
  | tail _ hlast ih =>
      obtain ⟨ws, rfl⟩ := hlast
      obtain ⟨row₁, hrow₁, hkept₁⟩ := ih
      obtain ⟨row₂, hrow₂, hkept₂⟩ := Db.exists_kept ws hrow₁
      exact ⟨row₂, hrow₂, hkept₁.trans hkept₂⟩

theorem has {L L' : Ledger Db Write} (h : Extends L L') {t : Table} {u : Uuid}
    (hu : L.db.Has t u) : L'.db.Has t u := by
  obtain ⟨row, hrow, rfl⟩ := hu
  obtain ⟨row', hrow', hkept⟩ := h.exists_kept hrow
  exact ⟨row', hrow', hkept.static (Row.static_id t)⟩

/-- The log holds every transaction that led to the ledger. -/
theorem mem_log {L L' : Ledger Db Write} {ws : List Write} (h : Extends (L.commit ws) L') :
    ⟨L.db, ws⟩ ∈ L'.log := by
  induction h with
  | refl => exact List.mem_append_right _ (List.mem_singleton_self _)
  | tail _ hlast ih =>
      obtain ⟨ws', rfl⟩ := hlast
      exact List.mem_append_left _ ih

end Extends

end DemandSignal
