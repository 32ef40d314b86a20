import DemandSignal.Db.Effects
import DemandSignal.Txn.Interleave

/-!
# Rules for database statements

What each statement does to a session and when a unique index can refuse it. The rules hold under
any interference that respects locks and ids, so one derivation serves a session that runs alone and
a session among others. What a request has seen of the database is a modality: alone, what it has
seen still holds; among others, it held at some earlier point of the history.
-/

namespace DemandSignal

open Txn

variable {X Q A α : Type}

/-! ### Sessions -/

/-- The pending writes of a session are applicable, and the ids they insert are its own. -/
structure Ready (s : Session Write A) (L : Ledger Db Write) : Prop
    extends Applicable s.pending L.db where
  own : ∀ u ∈ insertIds s.pending, u ∈ s.own

theorem Ready.of_idle {s : Session Write A} (h : s.pending = []) (L : Ledger Db Write) :
    Ready s L := by
  refine ⟨⟨?_, ?_, ?_, ?_, ?_⟩, ?_⟩ <;> simp [h, insertIds]

theorem Ready.begin {s : Session Write A} {L : Ledger Db Write} {now : Time} (h : Ready s L) :
    Ready (s.begin now) L :=
  ⟨h.toApplicable, h.own⟩

theorem Ready.draw {s : Session Write A} {L : Ledger Db Write} {id : Uuid} (h : Ready s L) :
    Ready (s.draw id) L :=
  ⟨h.toApplicable, fun u hu => List.mem_cons_of_mem _ (h.own u hu)⟩

theorem Ready.add_update {s : Session Write A} {L : Ledger Db Write} {t : Table}
    {loaded new : Row t} (h : Ready s L) (htame : Write.Tame (.update t loaded new)) :
    Ready (s.add (.update t loaded new)) L := by
  have hids : insertIds (s.add (.update t loaded new)).pending = insertIds s.pending := by
    simp [Session.add, insertIds, Write.insertedId]
  refine ⟨⟨by rw [hids]; exact h.unused, by rw [hids]; exact h.nodup,
    fun t row hrow => h.free t row ?_, ?_, fun w hw => ?_⟩, by rw [hids]; exact h.own⟩
  · simpa [Session.add] using hrow
  · refine List.pairwise_append.mpr ⟨h.apart, List.pairwise_singleton .., ?_⟩
    intro w _ w' hw' t' row hrow
    rw [List.mem_singleton] at hw'
    cases hw'.symm.trans hrow
  · simp only [Session.add, List.mem_append, List.mem_singleton] at hw
    rcases hw with hw | rfl
    exacts [h.tame w hw, htame]

theorem Ready.add_insert {s : Session Write A} {L : Ledger Db Write} {t : Table} {row : Row t}
    (h : Ready s L) (hown : row.id ∈ s.own) (hnew : row.id ∉ insertIds s.pending)
    (hunused : ¬ L.db.InUse row.id) (hfree : ∀ key ∈ row.indexed, L.db.holds t key = false)
    (hapart : ∀ w ∈ s.pending, ∀ key ∈ row.indexed, key ∉ Db.locks w) :
    Ready (s.add (.insert t row)) L := by
  have hids : insertIds (s.add (.insert t row)).pending = insertIds s.pending ++ [row.id] := by
    simp [Session.add]
  refine ⟨⟨?_, ?_, ?_, ?_, ?_⟩, ?_⟩
  · rw [hids]
    simpa [or_imp, forall_and] using ⟨h.unused, hunused⟩
  · rw [hids]
    simpa [List.nodup_append, h.nodup] using fun u hu heq => hnew (by rw [← heq]; exact hu)
  · intro t' row' hrow
    simp only [Session.add, List.mem_append, List.mem_singleton] at hrow
    rcases hrow with hrow | hrow
    · exact h.free t' row' hrow
    · cases hrow
      exact hfree
  · refine List.pairwise_append.mpr ⟨h.apart, List.pairwise_singleton .., ?_⟩
    intro w hw w' hw' t' row' hrow key hkey
    rw [List.mem_singleton] at hw'
    cases hw'.symm.trans hrow
    exact hapart w hw key hkey
  · intro w hw
    simp only [Session.add, List.mem_append, List.mem_singleton] at hw
    rcases hw with hw | rfl
    exacts [h.tame w hw, trivial]
  · rw [hids]
    simpa [or_imp, forall_and] using ⟨h.own, hown⟩

/-- The session after further statements of its transaction, which started at `now`. -/
structure Continues (s : Session Write A) (now : Time) (ws : List Write)
    (s' : Session Write A) : Prop where
  starts : s.StartsAt now
  start : s'.start = some now
  pending : s'.pending = s.pending ++ ws
  replies : s'.replies = s.replies
  rollbacks : s'.rollbacks = s.rollbacks
  own : s.own ⊆ s'.own

theorem Continues.trans {s s' s'' : Session Write A} {now now' : Time} {ws ws' : List Write}
    (h : Continues s now ws s') (h' : Continues s' now' ws' s'') :
    now' = now ∧ Continues s now (ws ++ ws') s'' := by
  obtain rfl : now' = now := h'.starts now (by simp [h.start])
  refine ⟨rfl, h.starts, h'.start, ?_, ?_, ?_, fun u hu => h'.own (h.own hu)⟩
  · rw [h'.pending, h.pending, List.append_assoc]
  · rw [h'.replies, h.replies]
  · rw [h'.rollbacks, h.rollbacks]

theorem continues_begin {s : Session Write A} {now : Time} (h : s.StartsAt now) :
    Continues s now [] (s.begin now) :=
  ⟨h, rfl, (List.append_nil _).symm, rfl, rfl, fun _ hu => hu⟩

theorem continues_add {s : Session Write A} {now : Time} (h : s.StartsAt now) (w : Write) :
    Continues s now [w] ((s.begin now).add w) :=
  ⟨h, rfl, rfl, rfl, rfl, fun _ hu => hu⟩

theorem continues_draw_add {s : Session Write A} {now : Time} (h : s.StartsAt now) (id : Uuid)
    (w : Write) : Continues s now [w] (((s.draw id).begin now).add w) :=
  ⟨h, rfl, rfl, rfl, rfl, fun _ hu => List.mem_cons_of_mem _ hu⟩

/-! ### Interference -/

/-- What a session with these ids may see happen to the ledger. -/
def Before (rules : Rules Db Write Q A) (own : List Uuid) : Ledger Db Write → Ledger Db Write → Prop :=
  Relation.ReflTransGen fun L L' => ∃ s, own ⊆ s.own ∧ rules.rely s L L'

/-- What a request has seen of the database, and whether others may change it meanwhile. -/
structure Sight where
  sees : (Db → Prop) → Ledger Db Write → Prop
  shared : Prop

instance : CoeFun Sight fun _ => (Db → Prop) → Ledger Db Write → Prop := ⟨Sight.sees⟩

/-- What was seen held at some point of the history, and outlives the commits that keep it true. -/
structure Sight.Lawful (sight : Sight) : Prop where
  now : ∀ P L, P L.db → sight P L
  mono : ∀ P P' L, (∀ db, P db → P' db) → sight P L → sight P' L
  commit : ∀ P L ws, (∀ db, P db → P (ws.foldl Db.apply db)) → sight P L → sight P (L.commit ws)
  still : ¬ sight.shared → ∀ P L, sight P L → P L.db
  since : ∀ P L, sight P L → ∃ L₀, Extends L₀ L ∧ P L₀.db

/-- A row that was seen is still there, up to `UPDATE`s. -/
theorem Sight.Lawful.kept {sight : Sight} (lawful : sight.Lawful) {t : Table} {row : Row t}
    {L : Ledger Db Write} (h : sight (fun db => row ∈ db t) L) : ∃ row' ∈ L.db t, Row.Kept row row' := by
  obtain ⟨L₀, hextends, hrow⟩ := lawful.since _ L h
  exact hextends.exists_kept hrow

/-- What is known when a unique index refuses a row. A route and a touch are inserted beside a new
lead, or once a lead has been seen without them. -/
def Contested (sight : Sight) (s : Session Write A) (L : Ledger Db Write) : Write → Prop
  | .insert .routes (row : Route) =>
      (∃ lead : Lead, .insert .leads lead ∈ s.pending ∧ lead.id = row.leadId) ∨
        sight (fun db => db.Has .leads row.leadId ∧
          ∀ route ∈ db .routes, Route.leadId route ≠ row.leadId) L
  | .insert .attributionTouches (row : AttributionTouch) =>
      (∃ lead : Lead, .insert .leads lead ∈ s.pending ∧ lead.identityId = row.identityId) ∨
        sight (fun db => (∃ lead ∈ db .leads, Lead.identityId lead = row.identityId) ∧
          ∀ touch ∈ db .attributionTouches, AttributionTouch.identityId touch ≠ row.identityId) L
  | _ => True

/-- A value of a column that no `UPDATE` changes is still there. -/
theorem Sight.Lawful.persists {sight : Sight} (lawful : sight.Lawful) {t : Table} {β : Type}
    {column : Row t → β} (hstatic : Row.Static column) {value : β} {L : Ledger Db Write}
    (h : sight (fun db => ∃ row ∈ db t, column row = value) L) :
    ∃ row ∈ L.db t, column row = value := by
  obtain ⟨L₀, hextends, row, hrow, hvalue⟩ := lawful.since _ L h
  obtain ⟨row', hrow', hkept⟩ := hextends.exists_kept hrow
  exact ⟨row', hrow', (hkept.static hstatic).trans hvalue⟩

/-- Interference keeps a session ready, its ids unused and what it has seen in its sight. -/
structure Fair (rules : Rules Db Write Q A) (sight : Sight) : Prop extends sight.Lawful where
  ready : ∀ s L L', rules.rely s L L' → Ready s L → Ready s L'
  unused : ∀ s L L' u, rules.rely s L L' → u ∈ s.own → ¬ L.db.InUse u → ¬ L'.db.InUse u
  history : ∀ s L L', rules.rely s L L' → Extends L L'
  stable : ∀ P s L L', rules.rely s L L' → sight P L → sight P L'
  alone : ¬ sight.shared → ∀ s L L', rules.rely s L L' → L' = L
  refusals : ∀ s L t (row : Row t), Ready s L → (∃ key ∈ row.indexed, L.db.holds t key = true) →
    Contested sight s L (.insert t row) → rules.refusals s L (.insert t row)

/-- A unique index refused a row that nothing was seen to stand in the way of. -/
def Raced (rules : Rules Db Write Q A) : Prop :=
  ∃ t, ∃ row : Row t, (∃ s L, rules.Permits s L (.refused (.insert t row))) ∧
    ∃ own L L', Before rules own L L' ∧ ∃ key ∈ row.indexed,
      L.db.holds t key = false ∧ L'.db.holds t key = true

namespace Before

variable {rules : Rules Db Write Q A} {own own' : List Uuid} {L L' L'' : Ledger Db Write}

theorem of_rely {s : Session Write A} (h : rules.rely s L L') : Before rules s.own L L' :=
  .single ⟨s, fun _ hu => hu, h⟩

theorem mono (hown : own' ⊆ own) (h : Before rules own L L') : Before rules own' L L' :=
  Relation.ReflTransGen.mono (fun _ _ ⟨s, hs, hrely⟩ => ⟨s, fun _ hu => hs (hown hu), hrely⟩) _ _ h

theorem refl (L : Ledger Db Write) : Before rules own L L := Relation.ReflTransGen.refl

theorem trans (h : Before rules own L L') (h' : Before rules own L' L'') : Before rules own L L'' :=
  Relation.ReflTransGen.trans h h'

theorem toExtends {sight : Sight} (fair : Fair rules sight) (h : Before rules own L L') :
    Extends L L' := by
  induction h with
  | refl => exact .refl
  | tail _ hlast ih =>
      obtain ⟨s, -, hrely⟩ := hlast
      exact ih.trans (fair.history s _ _ hrely)

theorem has {sight : Sight} (fair : Fair rules sight) (h : Before rules own L L') {t : Table}
    {u : Uuid} (hu : L.db.Has t u) : L'.db.Has t u :=
  (h.toExtends fair).has hu

theorem sight {sight : Sight} (fair : Fair rules sight) {P : Db → Prop}
    (h : Before rules own L L') (hL : sight P L) : sight P L' := by
  induction h with
  | refl => exact hL
  | tail _ hlast ih =>
      obtain ⟨s, -, hrely⟩ := hlast
      exact fair.stable P s _ _ hrely ih

end Before

/-! ### A session alone -/

section Alone

variable {Answers : Q → A → Prop} {commits : Session Write A → Ledger Db Write → Prop}

/-- Alone, what was seen still holds. -/
def still : Sight := ⟨fun P L => P L.db, False⟩

theorem lawful_still : still.Lawful where
  now _ _ h := h
  mono _ _ _ h hL := h _ hL
  commit _ L _ h hL := h L.db hL
  still _ _ _ h := h
  since _ L h := ⟨L, .refl, h⟩

theorem fair_alone : Fair (alone Answers commits : Rules Db Write Q A) still where
  toLawful := lawful_still
  ready _ _ _ h hs := by rwa [show _ = _ from h]
  unused _ _ _ _ h _ hu := by rwa [show _ = _ from h]
  history _ _ _ h := by rw [show _ = _ from h]; exact .refl
  stable _ _ _ _ h hL := by rwa [show _ = _ from h]
  alone _ _ _ _ h := h
  refusals _ _ _ _ _ _ _ := trivial

theorem before_alone {own : List Uuid} {L L' : Ledger Db Write} :
    Before (alone Answers commits : Rules Db Write Q A) own L L' ↔ L' = L := by
  constructor
  · intro h
    induction h with
    | refl => rfl
    | tail _ hlast ih =>
        obtain ⟨s, -, hs⟩ := hlast
        exact (show _ = _ from hs).trans ih
  · rintro rfl
    exact .refl _

theorem not_raced_alone : ¬ Raced (alone Answers commits : Rules Db Write Q A) := by
  rintro ⟨t, row, -, own, L, L', hbefore, key, -, hfree, hheld⟩
  rw [before_alone.mp hbefore, hfree] at hheld
  cases hheld

end Alone

/-! ### A session among others -/

section Among

variable {ι : Type} {service : Service ι Db Write X Q A α}
  {commits : Session Write A → Ledger Db Write → Prop}
  {refusals : Session Write A → Ledger Db Write → Write → Prop}

/-- Among others, what was seen held at some point of the history. -/
def once : Sight := ⟨fun P L => ∃ L₀, Extends L₀ L ∧ P L₀.db, True⟩

theorem Interferes.ready {s : Session Write A} {L L' : Ledger Db Write}
    (hcommits : ∀ s L, commits s L → Ready s L) (h : Interferes commits s L L') (hs : Ready s L) :
    Ready s L' := by
  obtain ⟨other, hother, hlocks, hown, rfl⟩ := h
  have hready := hcommits other L hother
  refine ⟨⟨fun u hu hused => ?_, hs.nodup, fun t row hrow key hkey => ?_, hs.apart, hs.tame⟩, hs.own⟩
  · rcases Db.inUse_foldl hused with hused | hused
    · exact hs.unused u hu hused
    · exact hown u (hready.own u hused) (hs.own u hu)
  · rw [Bool.eq_false_iff]
    intro hheld
    rcases Db.holds_foldl hready.tame hheld with hheld | ⟨w, hw, hlock⟩
    · rw [hs.free t row hrow key hkey] at hheld
      cases hheld
    · exact hlocks w hw key hlock _ hrow (List.mem_cons_of_mem _ hkey)

theorem Interferes.unused {s : Session Write A} {L L' : Ledger Db Write} {u : Uuid}
    (hcommits : ∀ s L, commits s L → Ready s L) (h : Interferes commits s L L') (hu : u ∈ s.own)
    (hunused : ¬ L.db.InUse u) : ¬ L'.db.InUse u := by
  obtain ⟨other, hother, -, hown, rfl⟩ := h
  intro hused
  rcases Db.inUse_foldl hused with hused | hused
  · exact hunused hused
  · exact hown u ((hcommits other L hother).own u hused) hu

theorem lawful_once : once.Lawful where
  now P L h := ⟨L, .refl, h⟩
  mono P P' L h hL := by
    obtain ⟨L₀, hextends, hP⟩ := hL
    exact ⟨L₀, hextends, h _ hP⟩
  commit P L ws _ hL := by
    obtain ⟨L₀, hextends, hP⟩ := hL
    exact ⟨L₀, hextends.trans (Extends.commit L ws), hP⟩
  still h := absurd trivial h
  since _ _ h := h

theorem amid_extends {s : Session Write A} {L L' : Ledger Db Write} (h : amid commits s L L') :
    Extends L L' :=
  Relation.ReflTransGen.mono (fun _ _ ⟨other, _, _, _, h⟩ => ⟨other.pending, h⟩) _ _ h

theorem fair_among (hcommits : ∀ s L, commits s L → Ready s L)
    (hrefusals : ∀ s L t (row : Row t), Ready s L → (∃ key ∈ row.indexed, L.db.holds t key = true) →
      Contested once s L (.insert t row) → refusals s L (.insert t row)) (i : ι) :
    Fair (among service commits refusals i) once where
  toLawful := lawful_once
  ready s L L' h hs :=
    amid_induct h (fun L => Ready s L) hs
      fun L₁ L₂ h₁ hstep => Interferes.ready hcommits hstep h₁
  unused s L L' u h hu hunused :=
    amid_induct h (fun L => ¬ L.db.InUse u) hunused
      fun L₁ L₂ h₁ hstep => Interferes.unused hcommits hstep hu h₁
  history s L L' h := amid_extends h
  stable P s L L' h hL := by
    obtain ⟨L₀, hextends, hP⟩ := hL
    exact ⟨L₀, hextends.trans (amid_extends h), hP⟩
  alone h := absurd trivial h
  refusals := hrefusals

end Among

/-! ### Statements -/

/-- Further statements of a transaction, from a session and a ledger to others. -/
structure Proceeds (rules : Rules Db Write Q A) (s : Session Write A) (L : Ledger Db Write)
    (now : Time) (ws : List Write) (s' : Session Write A) (L' : Ledger Db Write) : Prop
    extends Continues s now ws s' where
  before : Before rules s.own L L'
  ready : Ready s' L'

theorem Proceeds.trans {rules : Rules Db Write Q A} {s s' s'' : Session Write A}
    {L L' L'' : Ledger Db Write} {now now' : Time} {ws ws' : List Write}
    (h : Proceeds rules s L now ws s' L') (h' : Proceeds rules s' L' now' ws' s'' L'') :
    now' = now ∧ Proceeds rules s L now (ws ++ ws') s'' L'' := by
  obtain ⟨rfl, hcont⟩ := h.toContinues.trans h'.toContinues
  exact ⟨rfl, hcont, h.before.trans (h'.before.mono h.own), h'.ready⟩

/-- Between transactions: nothing pending, and what has been heard since. -/
structure Rests (s : Session Write A) (heard : List A) (s' : Session Write A) : Prop where
  pending : s'.pending = []
  replies : s'.replies = s.replies ++ heard
  own : s.own ⊆ s'.own

theorem Rests.trans {s s' s'' : Session Write A} {heard heard' : List A} (h : Rests s heard s')
    (h' : Rests s' heard' s'') : Rests s (heard ++ heard') s'' :=
  ⟨h'.pending, by rw [h'.replies, h.replies, List.append_assoc], fun _ hu => h'.own (h.own hu)⟩

theorem Continues.rests {s s' : Session Write A} {now : Time} (hs : s.pending = [])
    (h : Continues s now [] s') : Rests s [] s' :=
  ⟨by rw [h.pending, hs, List.nil_append], by rw [h.replies, List.append_nil], h.own⟩

theorem Continues.rests_close {s s' : Session Write A} {now : Time} {ws : List Write}
    (h : Continues s now ws s') : Rests s [] s'.close :=
  ⟨rfl, by simpa [Session.close] using h.replies, h.own⟩

/-- The session owes its commits of the kind `T` whenever they are ready. -/
def Owes (rules : Rules Db Write Q A) (s : Session Write A)
    (T : Ledger Db Write → List Write → Prop) : Prop :=
  ∀ s' L, s.own ⊆ s'.own → Ready s' L → T L s'.pending → rules.commits s' L

theorem Owes.mono {rules : Rules Db Write Q A} {s s' : Session Write A}
    {T : Ledger Db Write → List Write → Prop} (h : Owes rules s T) (hown : s.own ⊆ s'.own) :
    Owes rules s' T :=
  fun s'' L hown' => h s'' L fun _ hu => hown' (hown hu)

/-- What a session sees of a table it has not written to. -/
theorem view_of_untouched {s : Session Write A} {t : Table} (h : ∀ w ∈ s.pending, w.table ≠ t)
    (db : Db) : s.view db t = db t :=
  Db.foldl_apply_of_untouched h db

theorem exists_kept_view {s : Session Write A} {db : Db} {t : Table} {row : Row t}
    (h : row ∈ db t) : ∃ row' ∈ s.view db t, Row.Kept row row' :=
  Db.exists_kept _ h

theorem exists_inserted_view {s : Session Write A} (db : Db) {t : Table} {row : Row t}
    (h : .insert t row ∈ s.pending) : ∃ row' ∈ s.view db t, Row.Kept row row' :=
  Db.exists_kept_inserted db h

theorem holds_view_of_untouched {s : Session Write A} {t : Table}
    (h : ∀ w ∈ s.pending, w.table ≠ t) (db : Db) (key : Key) :
    (s.view db).holds t key = db.holds t key := by
  rw [Db.holds, Db.holds, view_of_untouched h]

section Statements

variable {rules : Rules Db Write Q A} {sight : Sight} {s : Session Write A} {L : Ledger Db Write}

theorem wp_select (fair : Fair rules sight) (hs : Ready s L) {q : Db → α}
    {post : Post Db Write X A α}
    (h : ∀ s' L' now, Proceeds rules s L now [] s' L' → rules.Permits s L' .read →
      post (.ok (q (s.view L'.db))) s' L') :
    wp rules (.select q) post s L := by
  intro L' hrely now hnow hpermit
  exact h _ L' now ⟨continues_begin hnow, .of_rely hrely, (fair.ready s L L' hrely hs).begin⟩ hpermit

/-- A lookup in a table the transaction has not written to. -/
theorem wp_find (fair : Fair rules sight) (hs : Ready s L) {t : Table} {p : Row t → Bool}
    {post : Post Db Write X A (Option (Row t))} (huntouched : ∀ w ∈ s.pending, w.table ≠ t)
    (hsome : ∀ s' L' now row, Proceeds rules s L now [] s' L' → rules.Permits s L' .read →
      (L'.db t).find? p = some row → post (.ok (some row)) s' L')
    (hnone : ∀ s' L' now, Proceeds rules s L now [] s' L' → (∀ row ∈ L'.db t, ¬ p row) →
      post (.ok none) s' L') :
    wp rules (find t p) post s L := by
  refine wp_select fair hs fun s' L' now hproceeds hpermit => ?_
  rw [view_of_untouched huntouched]
  cases hfind : (L'.db t).find? p with
  | some row => exact hsome s' L' now row hproceeds hpermit hfind
  | none => exact hnone s' L' now hproceeds (List.find?_eq_none.mp hfind)

theorem wp_findAll (fair : Fair rules sight) (hs : Ready s L) {t : Table} {p : Row t → Bool}
    {post : Post Db Write X A (List (Row t))} (huntouched : ∀ w ∈ s.pending, w.table ≠ t)
    (h : ∀ s' L' now, Proceeds rules s L now [] s' L' → post (.ok ((L'.db t).filter p)) s' L') :
    wp rules (findAll t p) post s L := by
  refine wp_select fair hs fun s' L' now hproceeds _ => ?_
  rw [view_of_untouched huntouched]
  exact h s' L' now hproceeds

/-- `db.refresh` of a row that has been committed. -/
theorem wp_refresh (fair : Fair rules sight) (hs : Ready s L) {t : Table} {x : X} {row : Row t}
    {post : Post Db Write X A (Row t)} (huntouched : ∀ w ∈ s.pending, w.table ≠ t)
    (hrow : L.db.Has t row.id)
    (h : ∀ s' L' now current, Proceeds rules s L now [] s' L' →
      (L'.db t).find? (fun current => current.id = row.id) = some current →
      post (.ok current) s' L') :
    wp rules (refresh t x row) post s L := by
  unfold refresh
  rw [Program.bind_eq, wp_bind]
  refine wp_find fair hs huntouched (fun s' L' now current hproceeds _ hfind =>
    h s' L' now current hproceeds hfind) fun s' L' now hproceeds hnone => ?_
  obtain ⟨current, hcurrent, hid⟩ := hrow
  obtain ⟨current', hcurrent', hkept⟩ := (hproceeds.before.toExtends fair).exists_kept hcurrent
  refine absurd ?_ (hnone current' hcurrent')
  simpa using (hkept.static (Row.static_id t)).trans hid

/-- The rule of every insert; `hkeys` says that the transaction has not touched the entries of the
new row. -/
theorem wp_tryInsert_of_keys (fair : Fair rules sight) (hs : Ready s L) {t : Table}
    {row : Uuid → Time → Row t} {post : Post Db Write X A (Option (Row t))}
    (hid : ∀ id now, (row id now).id = id)
    (hkeys : ∀ id now, ∀ key ∈ (row id now).indexed,
      (∀ db : Db, (s.view db).holds t key = db.holds t key) ∧ ∀ w ∈ s.pending, key ∉ Db.locks w)
    (hcontested : ∀ s' L' id now, Proceeds rules s L now [] s' L' →
      (∃ key ∈ (row id now).indexed, L'.db.holds t key = true) →
      Contested sight s' L' (.insert t (row id now)))
    (hok : ∀ s' L' id now, Proceeds rules s L now [.insert t (row id now)] s' L' → id ∈ s'.own →
      id ∉ s.own → post (.ok (some (row id now))) s' L')
    (hrefused : ∀ s' L' id now, Proceeds rules s L now [] s' L' →
      (∃ s L, rules.Permits s L (.refused (.insert t (row id now)))) →
      (∃ key ∈ (row id now).indexed, L'.db.holds t key = true) → post (.ok none) s' L') :
    wp rules (tryInsert t row) post s L := by
  intro L₁ hrely id hunused hown L₂ hrely' now hnow
  have hready₁ : Ready (s.draw id) L₁ := (fair.ready s L L₁ hrely hs).draw
  have hready₂ : Ready (s.draw id) L₂ := fair.ready _ L₁ L₂ hrely' hready₁
  have hunused₂ : ¬ L₂.db.InUse id :=
    fair.unused _ L₁ L₂ id hrely' (List.mem_cons_self ..) hunused
  have hbefore : Before rules s.own L L₂ :=
    (Before.of_rely hrely).trans
      ((Before.of_rely hrely').mono fun _ hu => List.mem_cons_of_mem _ hu)
  have hnew : id ∉ insertIds s.pending := fun hmem => hown (hs.own id hmem)
  have hrow : (s.view L₂.db).holds t (.row t id) = false :=
    holds_row_of_not_inUse fun h => (Db.inUse_foldl h).elim hunused₂ hnew
  refine ⟨fun b hb => by simp at hb, fun w b hw haccept hpermit => ?_,
    fun w b hw hrefuse hpermit => ?_⟩
  · simp only [Prod.mk.injEq, Option.some.injEq] at hw
    obtain ⟨rfl, rfl⟩ := hw
    have haccept : Db.refuses (s.view L₂.db) (.insert t (row id now)) = false := haccept
    rw [Db.refuses, List.any_eq_false] at haccept
    refine hok _ L₂ id now ⟨continues_draw_add (s := s) hnow id _, hbefore, ?_⟩
      (List.mem_cons_self ..) hown
    refine hready₂.begin.add_insert ?_ ?_ ?_ (fun key hkey => ?_)
      fun w hw key hkey => (hkeys id now key hkey).2 w hw
    · rw [hid]
      exact List.mem_cons_self ..
    · rwa [hid]
    · rwa [hid]
    · rw [← (hkeys id now key hkey).1]
      simpa using haccept key (List.mem_cons_of_mem _ hkey)
  · simp only [Prod.mk.injEq, Option.some.injEq] at hw
    obtain ⟨rfl, rfl⟩ := hw
    have hrefuse : Db.refuses (s.view L₂.db) (.insert t (row id now)) = true := hrefuse
    have hproceeds : Proceeds rules s L now [] ((s.draw id).begin now) L₂ :=
      ⟨⟨hnow, rfl, (List.append_nil _).symm, rfl, rfl, fun _ hu => List.mem_cons_of_mem _ hu⟩,
        hbefore, hready₂.begin⟩
    have hheld : ∃ key ∈ (row id now).indexed, L₂.db.holds t key = true := by
      rw [Db.refuses, List.any_eq_true] at hrefuse
      obtain ⟨key, hkey, hheld⟩ := hrefuse
      rcases List.mem_cons.mp hkey with rfl | hkey
      · rw [hid, hrow] at hheld
        cases hheld
      · exact ⟨key, hkey, by rwa [← (hkeys id now key hkey).1]⟩
    exact ⟨fair.refusals _ _ t _ hready₂.begin hheld (hcontested _ L₂ id now hproceeds hheld),
      hrefused _ L₂ id now hproceeds ⟨_, _, hpermit⟩ hheld⟩

/-- An insert that answers with the row, or with nothing when an index refuses it. -/
theorem wp_tryInsert (fair : Fair rules sight) (hs : Ready s L) {t : Table}
    {row : Uuid → Time → Row t} {post : Post Db Write X A (Option (Row t))}
    (hid : ∀ id now, (row id now).id = id) (huntouched : ∀ w ∈ s.pending, w.table ≠ t)
    (hcontested : ∀ s' L' id now, Proceeds rules s L now [] s' L' →
      Contested sight s' L' (.insert t (row id now)))
    (hok : ∀ s' L' id now, Proceeds rules s L now [.insert t (row id now)] s' L' → id ∈ s'.own →
      id ∉ s.own → post (.ok (some (row id now))) s' L')
    (hrefused : ∀ s' L' id now, Proceeds rules s L now [] s' L' →
      (∃ s L, rules.Permits s L (.refused (.insert t (row id now)))) →
      (∃ key ∈ (row id now).indexed, L'.db.holds t key = true) → post (.ok none) s' L') :
    wp rules (tryInsert t row) post s L := by
  refine wp_tryInsert_of_keys fair hs hid (fun id now key hkey => ⟨fun db => ?_, fun w hw hlock => ?_⟩)
    (fun s' L' id now hproceeds _ => hcontested s' L' id now hproceeds) hok hrefused
  · exact holds_view_of_untouched huntouched db key
  · have htable := Db.table_of_mem_locks hlock
    rw [(Row.table_of_mem_indexed hkey).1] at htable
    exact huntouched w hw htable.symm

/-- An insert after a lookup that found nothing in its way: a refusal is a lost race. -/
theorem wp_tryInsert_seen (fair : Fair rules sight) (hs : Ready s L) {t : Table}
    {row : Uuid → Time → Row t} {post : Post Db Write X A (Option (Row t))}
    (hid : ∀ id now, (row id now).id = id) (huntouched : ∀ w ∈ s.pending, w.table ≠ t)
    (hfree : ∀ id now, ∀ key ∈ (row id now).indexed, L.db.holds t key = false)
    (hcontested : ∀ s' L' id now, Proceeds rules s L now [] s' L' →
      Contested sight s' L' (.insert t (row id now)))
    (hok : ∀ s' L' id now, Proceeds rules s L now [.insert t (row id now)] s' L' → id ∈ s'.own →
      id ∉ s.own → post (.ok (some (row id now))) s' L')
    (hraced : ∀ s' L' now, Proceeds rules s L now [] s' L' → Raced rules → post (.ok none) s' L') :
    wp rules (tryInsert t row) post s L := by
  refine wp_tryInsert fair hs hid huntouched hcontested hok
    fun s' L' id now hproceeds hpermit hheld => ?_
  obtain ⟨key, hkey, hheld⟩ := hheld
  exact hraced s' L' now hproceeds
    ⟨t, _, hpermit, _, L, L', hproceeds.before, key, hkey, hfree id now key hkey, hheld⟩

/-- An insert is one that raises when it is refused. -/
theorem insert_eq {t : Table} {x : X} {row : Uuid → Time → Row t} :
    (insert t x row : Program Db Write X Q A (Row t)) = (tryInsert t row).bind fun r => match r with
      | some row => .ret row
      | none => .raise x := by
  refine congrArg Program.uuid (funext fun id => congrArg (Program.write _) (funext fun r => ?_))
  cases r <;> rfl

/-- An insert whose refusal nobody catches. -/
theorem wp_insert (fair : Fair rules sight) (hs : Ready s L) {t : Table} {x : X}
    {row : Uuid → Time → Row t} {post : Post Db Write X A (Row t)}
    (hid : ∀ id now, (row id now).id = id) (huntouched : ∀ w ∈ s.pending, w.table ≠ t)
    (hfree : ∀ id now, ∀ key ∈ (row id now).indexed, L.db.holds t key = false)
    (hcontested : ∀ s' L' id now, Proceeds rules s L now [] s' L' →
      Contested sight s' L' (.insert t (row id now)))
    (hok : ∀ s' L' id now, Proceeds rules s L now [.insert t (row id now)] s' L' → id ∈ s'.own →
      id ∉ s.own → post (.ok (row id now)) s' L')
    (hraced : ∀ s' L', Raced rules → post (.error x) s' L') :
    wp rules (insert t x row) post s L := by
  rw [insert_eq, wp_bind]
  exact wp_tryInsert_seen fair hs hid huntouched hfree hcontested
    (fun s' L' id now hproceeds => hok s' L' id now hproceeds)
    fun s' L' now _ hraced' => hraced s' L' hraced'

/-- An insert that no unique index can refuse. -/
theorem wp_insert_unindexed (fair : Fair rules sight) (hs : Ready s L) {t : Table} {x : X}
    {row : Uuid → Time → Row t} {post : Post Db Write X A (Row t)}
    (hid : ∀ id now, (row id now).id = id) (hindexed : ∀ id now, (row id now).indexed = [])
    (hok : ∀ s' L' id now, Proceeds rules s L now [.insert t (row id now)] s' L' → id ∈ s'.own →
      id ∉ s.own → post (.ok (row id now)) s' L') :
    wp rules (insert t x row) post s L := by
  rw [insert_eq, wp_bind]
  refine wp_tryInsert_of_keys fair hs hid (fun id now key hkey => ?_)
    (fun s' L' id now _ hheld => ?_) (fun s' L' id now hproceeds => hok s' L' id now hproceeds)
    fun s' L' id now _ _ hheld => ?_
  · rw [hindexed] at hkey
    cases hkey
  all_goals
    obtain ⟨key, hkey, _⟩ := hheld
    rw [hindexed] at hkey
    cases hkey

/-- The flush of a loaded row whose index entries stay as they are. -/
theorem wp_save (fair : Fair rules sight) (hs : Ready s L) {t : Table} {x : X} {loaded new : Row t}
    {post : Post Db Write X A Unit} (hkeys : ∀ now, (new.stamp now).keys ⊆ loaded.keys)
    (htame : ∀ now, Write.Tame (.update t loaded (new.stamp now)))
    (hok : ∀ s' L' now, Proceeds rules s L now (saved t loaded new now) s' L' →
      post (.ok ()) s' L') :
    wp rules (save t x loaded new) post s L := by
  intro L' hrely now hnow
  have hready : Ready (s.begin now) L' := (fair.ready s L L' hrely hs).begin
  by_cases hnew : new = loaded
  · refine ⟨fun b hb _ => ?_, fun w b hw => by simp [hnew] at hw, fun w b hw => by simp [hnew] at hw⟩
    refine hok _ L' now ⟨?_, .of_rely hrely, hready⟩
    rw [saved, if_pos hnew]
    exact continues_begin hnow
  · have hrefuses : ∀ db : Db, db.refuses (.update t loaded (new.stamp now)) = false := by
      intro db
      rw [Db.refuses, List.any_eq_false]
      intro key hkey
      simp [hkeys now hkey]
    refine ⟨fun b hb => by simp [hnew] at hb, fun w b hw _ _ => ?_, fun w b hw hrefuse => ?_⟩
    · simp only [if_neg hnew, Prod.mk.injEq, Option.some.injEq] at hw
      obtain ⟨rfl, -⟩ := hw
      refine hok _ L' now ⟨?_, .of_rely hrely, hready.add_update (htame now)⟩
      rw [saved, if_neg hnew]
      exact continues_add hnow _
    · simp only [if_neg hnew, Prod.mk.injEq, Option.some.injEq] at hw
      obtain ⟨rfl, -⟩ := hw
      exact absurd hrefuse (by rw [show Store.refuses _ _ = Db.refuses _ _ from rfl, hrefuses]; simp)

theorem wp_commitNow (fair : Fair rules sight) (hs : Ready s L) {post : Post Db Write X A Unit}
    {T : Ledger Db Write → List Write → Prop} {s₀ : Session Write A} (howes : Owes rules s₀ T)
    (hown : s₀.own ⊆ s.own) {ws : List Write} (hpending : s.pending = ws)
    (hpay : ∀ L', Before rules s.own L L' → T L' ws)
    (h : ∀ L', Before rules s.own L L' → T L' ws → Applicable ws L'.db →
      post (.ok ()) s.close (L'.commit ws)) :
    wp rules .commitNow post s L := by
  intro L' hrely
  subst hpending
  have hbefore : Before rules s.own L L' := .of_rely hrely
  have hready : Ready s L' := fair.ready s L L' hrely hs
  exact ⟨howes s L' hown hready (hpay L' hbefore),
    h L' hbefore (hpay L' hbefore) hready.toApplicable⟩

theorem wp_rollbackNow {post : Post Db Write X A Unit}
    (h : ∀ L', Before rules s.own L L' → post (.ok ()) s.undo L') :
    wp rules .rollbackNow post s L :=
  fun L' hrely => h L' (.of_rely hrely)

theorem wp_utcNow (fair : Fair rules sight) (hs : Ready s L) {post : Post Db Write X A Time}
    (h : ∀ L' t, Before rules s.own L L' → Ready s L' → s.MayRead t → post (.ok t) s L') :
    wp rules .utcNow post s L :=
  fun L' hrely t ht => h L' t (.of_rely hrely) (fair.ready s L L' hrely hs) ht

theorem wp_call {q : Q} {post : Post Db Write X A A}
    (h : ∀ L' a, Before rules s.own L L' → rules.Answers q a → post (.ok a) (s.hear a) L') :
    wp rules (.call q) post s L :=
  fun L' hrely a ha => h L' a (.of_rely hrely) ha

end Statements

/-! ### Updates -/

/-- An `UPDATE` changes the index entries of dead letters only. -/
theorem Row.keys_merge {t : Table} (h : t ≠ .deadLetterQueue) (loaded new current : Row t) :
    (Row.merge loaded new current).keys = current.keys := by
  cases t <;> first | rfl | exact absurd rfl h

theorem Write.tame_update {t : Table} (h : t ≠ .deadLetterQueue) (loaded new : Row t) :
    Write.Tame (.update t loaded new) := fun current => by
    rw [Row.keys_merge h]
    exact List.Subset.refl _

/-- The flush of a loaded row other than a dead letter. -/
theorem wp_save_of_ne {rules : Rules Db Write Q A} {sight : Sight} {s : Session Write A}
    {L : Ledger Db Write} (fair : Fair rules sight) (hs : Ready s L) {t : Table} {x : X}
    {loaded new : Row t} {post : Post Db Write X A Unit} (ht : t ≠ .deadLetterQueue)
    (hkeys : ∀ now, (new.stamp now).keys = loaded.keys)
    (hok : ∀ s' L' now, Proceeds rules s L now (saved t loaded new now) s' L' →
      post (.ok ()) s' L') :
    wp rules (save t x loaded new) post s L :=
  wp_save fair hs (fun now => by rw [hkeys]; exact List.Subset.refl _)
    (fun _ => Write.tame_update ht _ _) hok

/-- A resolved dead letter gives up its index entry. -/
theorem Write.tame_resolve {loaded new : DeadLetterQueue} (h : new.resolved = true) :
    Write.Tame (.update .deadLetterQueue loaded new) := by
  intro current key hkey
  by_cases hloaded : loaded.resolved = true
  · have hmerge : Row.merge loaded new current = current := by
      simp [Row.merge, Row.column, h, hloaded]
    rwa [hmerge] at hkey
  · have hresolved : (Row.merge loaded new current : DeadLetterQueue).resolved = true := by
      simp [Row.merge, Row.column, h, hloaded]
    rcases List.mem_cons.mp hkey with rfl | hkey
    · exact List.mem_cons_self ..
    · simp [Row.indexed, hresolved] at hkey

end DemandSignal
