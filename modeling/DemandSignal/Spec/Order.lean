import DemandSignal.Db.Effects
import DemandSignal.System
import DemandSignal.Txn.Progress

/-!
# The order of locks

A transaction writes its tables in one order, and a request calls the provider a bounded number of
times. Both are read off the programs, on every path and whatever the database answers. The list of
leads alone escalates the routes of many leads in one transaction, so no order is asked of it.
-/

namespace DemandSignal

open Txn Program

/-- The tables that share a transaction, in the order it writes them. -/
def Table.level : Table → ℕ
  | .identities => 1
  | .identityLinks => 2
  | .leads => 3
  | .routes => 4
  | .attributionTouches => 5
  | _ => 0

/-- Only the session that writes a receipt locks it. -/
def Key.owner : Key → Option Uuid
  | .row .receipts id => some id
  | _ => none

theorem Key.owner_of_table {key : Key} (h : key.table ≠ .receipts) : key.owner = none := by
  cases key with
  | row t u => cases t <;> first | rfl | exact absurd rfl h
  | _ => rfl

def ladder : Ladder Key where
  owner := Key.owner
  rank key := key.table.level
  height := 5
  rank_le key := by cases key.table <;> simp [Table.level]

/-- Writes take the locks in order, if that is asked, and there are at most `n` calls. -/
def watch (ordered : Prop) (n : ℕ) : Watch Write Question Reply where
  writes s w := ordered → ladder.Admits (D := Db) s w
  asks s _ := s.replies.length < n

/-- Where a session stands: a lock it holds, a level above its locks and a bound on its calls. -/
structure Stand where
  held : Option Key := none
  level : ℕ := 0
  calls : ℕ := 0

structure Stand.At (stand : Stand) (ordered : Prop) (s : Session Write Reply) : Prop where
  held : ∀ key ∈ stand.held, ∃ w ∈ s.pending, key ∈ Db.locks w
  below : ordered → ∀ w ∈ s.pending, ∀ key ∈ Db.locks w, key.owner = none →
    key.table.level < stand.level
  calls : s.replies.length ≤ stand.calls

variable {α β : Type} {ordered : Prop} {n : ℕ} {stand stand' stand'' : Stand}

theorem Stand.At.mono {s : Session Write Reply} (h : stand.At ordered s)
    (hheld : ∀ key ∈ stand'.held, key ∈ stand.held) (hlevel : ordered → stand.level ≤ stand'.level)
    (hcalls : stand.calls ≤ stand'.calls) : stand'.At ordered s where
  held key hkey := h.held key (hheld key hkey)
  below hordered w hw key hkey howner :=
    lt_of_lt_of_le (h.below hordered w hw key hkey howner) (hlevel hordered)
  calls := le_trans h.calls hcalls

/-- From one stand the program comes to the other. -/
structure Climbs (ordered : Prop) (n : ℕ) (stand : Stand) (p : Prog α) (stand' : Stand) : Prop where
  walks {s : Session Write Reply} (hs : stand.At ordered s) :
    p.Walks (watch ordered n) (fun _ s' => stand'.At ordered s') s

/-- A session that writes nothing stays where it stands. -/
theorem Stand.At.begin {s : Session Write Reply} (h : stand.At ordered s) (t : Time) :
    stand.At ordered (s.begin t) := ⟨h.held, h.below, h.calls⟩

theorem Stand.At.draw {s : Session Write Reply} (h : stand.At ordered s) (u : Uuid) :
    stand.At ordered (s.draw u) := ⟨h.held, h.below, h.calls⟩

theorem Stand.At.raise {s : Session Write Reply} (h : stand.At ordered s) {level : ℕ}
    (hlevel : ordered → stand.level ≤ level) : { stand with level : Stand }.At ordered s :=
  h.mono (fun _ hkey => hkey) hlevel le_rfl

/-- A session that ends its transaction holds nothing. -/
theorem Stand.At.free {s s' : Session Write Reply} (h : stand.At ordered s) (hfree : s'.pending = [])
    (hreplies : s'.replies = s.replies) : Stand.At { calls := stand.calls } ordered s' where
  held _ hkey := by cases hkey
  below _ w hw := by
    rw [hfree] at hw
    cases hw
  calls := by
    rw [hreplies]
    exact h.calls

/-! ### Statements -/

namespace Climbs

theorem ret (a : α) : Climbs ordered n stand (.ret a) stand := ⟨fun hs => hs⟩

theorem raise (x : Error) : Climbs ordered n stand (.raise x : Prog α) stand' := ⟨fun _ => trivial⟩

theorem bind {p : Prog α} {g : α → Prog β} (hp : Climbs ordered n stand p stand')
    (hg : ∀ a, Climbs ordered n stand' (g a) stand'') : Climbs ordered n stand (p.bind g) stand'' :=
  ⟨fun hs => walks_bind.mpr ((hp.walks hs).mono fun a _ hs' => (hg a).walks hs')⟩

theorem weaken {p : Prog α} (hp : Climbs ordered n stand p stand')
    (hheld : ∀ key ∈ stand''.held, key ∈ stand'.held) (hlevel : ordered → stand'.level ≤ stand''.level)
    (hcalls : stand'.calls ≤ stand''.calls) : Climbs ordered n stand p stand'' :=
  ⟨fun hs => (hp.walks hs).mono fun _ _ hs' => hs'.mono hheld hlevel hcalls⟩

theorem select (q : Db → α) : Climbs ordered n stand (.select q) stand :=
  ⟨fun hs _ t => hs.begin t⟩

theorem find (t : Table) (p : Row t → Bool) : Climbs ordered n stand (find t p) stand := select _

theorem findAll (t : Table) (p : Row t → Bool) : Climbs ordered n stand (findAll t p) stand :=
  select _

theorem utcNow : Climbs ordered n stand utcNow stand := ⟨fun hs _ => hs⟩

theorem uuid4 : Climbs ordered n stand uuid4 stand := ⟨fun hs u => hs.draw u⟩

theorem commitNow : Climbs ordered n stand commitNow { calls := stand.calls } :=
  ⟨fun hs => hs.free rfl rfl⟩

theorem rollbackNow : Climbs ordered n stand rollbackNow { calls := stand.calls } :=
  ⟨fun hs => hs.free rfl rfl⟩

theorem call {calls : ℕ} (hcalls : calls < n) (q : Question) :
    Climbs ordered n { calls } (call q) { calls := calls + 1 } := by
  refine ⟨fun {s} hs => ⟨lt_of_le_of_lt hs.calls hcalls, fun a => ⟨hs.held, hs.below, ?_⟩⟩⟩
  rw [Session.hear, List.length_append, List.length_singleton]
  exact Nat.succ_le_succ hs.calls

end Climbs

theorem Stand.At.admits {s : Session Write Reply} (h : stand.At ordered s) {w : Write}
    (hlevel : ordered → stand.level ≤ w.table.level) (htable : w.table ≠ .receipts) :
    (watch ordered n).writes s w := by
  have howner : ∀ key ∈ Db.locks w, key.owner = none := fun key hkey =>
    Key.owner_of_table (by rwa [Db.table_of_mem_locks hkey])
  intro hordered
  refine ⟨fun key hkey u hu => ?_, fun key hkey _ => .inr fun w' hw' key' hkey' howner' => ?_⟩
  · have hnone : ladder.owner key = none := howner key hkey
    rw [hnone] at hu
    cases hu
  · have hrank : ladder.rank key = w.table.level := congrArg Table.level (Db.table_of_mem_locks hkey)
    rw [hrank]
    exact lt_of_lt_of_le (h.below hordered w' hw' key' hkey' howner') (hlevel hordered)

theorem Stand.At.add {s : Session Write Reply} (h : stand.At ordered s) (t : Time) (w : Write)
    (hlevel : ordered → stand.level ≤ w.table.level) :
    { stand with level := w.table.level + 1 : Stand }.At ordered ((s.begin t).add w) where
  held key hkey := by
    obtain ⟨w', hw', hlock⟩ := h.held key hkey
    exact ⟨w', List.mem_append_left _ hw', hlock⟩
  below hordered w' hw' key hkey howner := by
    rcases List.mem_append.mp hw' with hw' | hw'
    · have hbelow := h.below hordered w' hw' key hkey howner
      have hle := hlevel hordered
      change key.table.level < w.table.level + 1
      omega
    · rw [List.mem_singleton] at hw'
      subst hw'
      rw [Db.table_of_mem_locks hkey]
      exact Nat.lt_succ_self _
  calls := h.calls

theorem Climbs.execute {t : Table} (x : Error) {f : Time → Db → Option Write × α}
    (hwrites : ∀ now db w a, f now db = (some w, a) → w.table = t) (htable : t ≠ .receipts)
    (hlevel : ordered → stand.level ≤ t.level) :
    Climbs ordered n stand (.execute x f) { stand with level := t.level + 1 } := by
  refine ⟨fun hs now => ⟨fun db w a hw => ?_, fun db a _ => ?_, trivial⟩⟩
  · obtain rfl := hwrites now db w a hw
    exact ⟨hs.admits hlevel htable, hs.add now w hlevel⟩
  · exact (hs.begin now).raise fun h => le_trans (hlevel h) (Nat.le_succ _)

theorem Climbs.save {t : Table} (x : Error) (loaded new : Row t) (htable : t ≠ .receipts)
    (hlevel : ordered → stand.level ≤ t.level) :
    Climbs ordered n stand (DemandSignal.save t x loaded new) { stand with level := t.level + 1 } := by
  refine .execute x (fun now db w _ hw => ?_) htable hlevel
  rw [Prod.mk.injEq] at hw
  split at hw
  · cases hw.1
  · rw [← Option.some_injective _ hw.1]
    rfl

/-- A row without a changed column is not written. -/
theorem Climbs.save_self {t : Table} (x : Error) (row : Row t) :
    Climbs ordered n stand (DemandSignal.save t x row row) stand := by
  refine ⟨fun hs now => ⟨fun db w b hw => ?_, fun db b _ => hs.begin now, trivial⟩⟩
  rw [Prod.mk.injEq, if_pos rfl] at hw
  cases hw.1

/-- The row is locked already. -/
theorem Climbs.save_held {t : Table} (x : Error) (loaded new : Row t) (htable : t ≠ .receipts)
    (hheld : stand.held = some (.row t loaded.id)) (hlevel : t.level + 1 ≤ stand.level)
    (hkeys : ∀ now, (new.stamp now).keys ⊆ loaded.keys) :
    Climbs ordered n stand (DemandSignal.save t x loaded new) stand := by
  refine ⟨fun hs now => ⟨fun db w b hw => ?_, fun db b _ => hs.begin now, trivial⟩⟩
  obtain rfl : w = .update t loaded (new.stamp now) := by
    simp only [Prod.mk.injEq] at hw
    split at hw
    · cases hw.1
    · exact (Option.some_injective _ hw.1).symm
  have hlocks : ∀ key ∈ Db.locks (.update t loaded (new.stamp now)), key = .row t loaded.id := by
    intro key hkey
    rcases List.mem_cons.mp hkey with rfl | hkey
    · rfl
    · rw [List.mem_filter] at hkey
      exact absurd (hkeys now hkey.1) (of_decide_eq_true hkey.2)
  refine ⟨fun hordered => ⟨fun key hkey u hu => ?_, fun key hkey _ => .inl ?_⟩, ?_, ?_, hs.calls⟩
  · obtain rfl := hlocks key hkey
    have hnone : ladder.owner (.row t loaded.id) = none := Key.owner_of_table htable
    rw [hnone] at hu
    cases hu
  · obtain rfl := hlocks key hkey
    exact hs.held _ (by rw [hheld]; rfl)
  · intro key hkey
    obtain ⟨w', hw', hlock⟩ := hs.held key hkey
    exact ⟨w', List.mem_append_left _ hw', hlock⟩
  · intro hordered w' hw' key hkey howner
    rcases List.mem_append.mp hw' with hw' | hw'
    · exact hs.below hordered w' hw' key hkey howner
    · rw [List.mem_singleton] at hw'
      subst hw'
      rw [Db.table_of_mem_locks hkey]
      exact hlevel

/-- An `INSERT` whose refusal the caller handles; a new row is locked. -/
theorem walks_tryInsert {t : Table} (row : Uuid → Time → Row t) (htable : t ≠ .receipts)
    (hlevel : ordered → stand.level ≤ t.level) {s : Session Write Reply} (hs : stand.At ordered s) :
    (tryInsert t row : Prog (Option (Row t))).Walks (watch ordered n) (fun r s' =>
      { stand with level := t.level + 1 : Stand }.At ordered s' ∧
        ∀ new ∈ r, { stand with
          held := some (.row t new.id), level := t.level + 1 : Stand }.At ordered s') s := by
  intro u now
  have hdraw := hs.draw u
  refine ⟨fun db w b hw => ?_, fun db b hb => absurd hb (by rintro ⟨⟩), ?_⟩
  · cases hw
    have hadd := hdraw.add now (.insert t (row u now)) hlevel
    refine ⟨hdraw.admits hlevel htable, hadd, fun new hnew => ⟨fun key hkey => ?_, hadd.below, hadd.calls⟩⟩
    cases hnew
    cases hkey
    exact ⟨_, List.mem_append_right _ (List.mem_singleton_self _), List.mem_cons_self ..⟩
  · exact ⟨(hdraw.begin now).raise fun h => le_trans (hlevel h) (Nat.le_succ _), fun _ h => by cases h⟩

theorem Climbs.tryInsert {t : Table} (row : Uuid → Time → Row t) (htable : t ≠ .receipts)
    (hlevel : ordered → stand.level ≤ t.level) :
    Climbs ordered n stand (DemandSignal.tryInsert t row) { stand with level := t.level + 1 } :=
  ⟨fun hs => (walks_tryInsert row htable hlevel hs).mono fun _ _ h => h.1⟩

theorem Climbs.insert {t : Table} (x : Error) (row : Uuid → Time → Row t) (htable : t ≠ .receipts)
    (hlevel : ordered → stand.level ≤ t.level) :
    Climbs ordered n stand (DemandSignal.insert t x row) { stand with level := t.level + 1 } := by
  refine Climbs.uuid4.bind fun id => .execute x (fun now db w a hw => ?_) htable hlevel
  cases hw
  rfl

/-- A receipt is nobody else's concern. -/
theorem Climbs.writeReceipt (actionType : ActionType) (entityId : Uuid) (entityType : EntityType)
    (metadata : Meta) (eventId identityId : Option Uuid) (status : ReceiptStatus) :
    Climbs ordered n stand
      (DemandSignal.writeReceipt actionType entityId entityType metadata eventId identityId status)
      stand := by
  refine ⟨fun {s} hs u now => ⟨fun db w b hw => ?_, fun db b hb => absurd hb (by rintro ⟨⟩), trivial⟩⟩
  cases hw
  have hlocks : ∀ key, key ∈ Db.locks (.insert .receipts (receipt actionType entityId entityType
      metadata eventId identityId status u now)) → key = .row .receipts u :=
    fun key hkey => List.mem_singleton.mp hkey
  refine ⟨fun _ => ⟨fun key hkey u' hu' => ?_, fun key hkey howner => ?_⟩, ?_, ?_, hs.calls⟩
  · obtain rfl := hlocks key hkey
    cases hu'
    exact List.mem_cons_self ..
  · obtain rfl := hlocks key hkey
    cases howner
  · intro key hkey
    obtain ⟨w', hw', hlock⟩ := hs.held key hkey
    exact ⟨w', List.mem_append_left _ hw', hlock⟩
  · intro hordered w' hw' key hkey howner
    rcases List.mem_append.mp hw' with hw' | hw'
    · exact hs.below hordered w' hw' key hkey howner
    · rw [List.mem_singleton] at hw'
      subst hw'
      obtain rfl := hlocks key hkey
      cases howner

theorem Climbs.refresh (t : Table) (x : Error) (row : Row t) :
    Climbs ordered n stand (DemandSignal.refresh t x row) stand := by
  refine (Climbs.find t _).bind fun current => ?_
  cases current with
  | none => exact .raise x
  | some current => exact .ret current

/-- A row that was found is flushed, and one that the session has just inserted needs no flush. -/
theorem walks_flush {t : Table} {x : Error} {loaded new : Row t} (hlevel : stand.level ≤ t.level)
    (htable : t ≠ .receipts) {s : Session Write Reply} (hs : stand.At ordered s ∨
      loaded = new ∧ { stand with level := t.level + 1 : Stand }.At ordered s) :
    (save t x loaded new).Walks (watch ordered n)
      (fun _ s' => { stand with level := t.level + 1 : Stand }.At ordered s') s := by
  rcases hs with hs | ⟨rfl, hs⟩
  · exact (Climbs.save x loaded new htable fun _ => hlevel).walks hs
  · exact (Climbs.save_self x loaded).walks hs

/-! ### Services -/

/-- No lock is held. -/
def idle (calls : ℕ) : Stand := { calls }

variable {calls : ℕ}

namespace Ingest

variable (app : App)

theorem climbs_persistInvalidEvent (payload : Json.Fields) (invalidReason : String) :
    Climbs ordered n (idle calls) (persistInvalidEvent app payload invalidReason) (idle calls) := by
  have hreceived : Climbs ordered n (idle calls) (rejectedReceivedAt app payload) (idle calls) := by
    unfold rejectedReceivedAt
    split
    · exact Climbs.utcNow.bind fun _ => .ret _
    · split
      · exact .ret _
      · exact Climbs.utcNow.bind fun _ => .ret _
    · exact .ret _
  refine hreceived.bind fun receivedAt => ?_
  split
  · exact .raise _
  · refine (Climbs.insert _ _ (by decide) fun _ => Nat.zero_le _).bind fun event => ?_
    refine (Climbs.writeReceipt ..).bind fun _ => Climbs.commitNow.bind fun _ => ?_
    exact .refresh ..

theorem climbs_createEvent (model : EventIn) (payload : Json.Fields) :
    Climbs ordered n (idle calls) (createEvent app model payload) (idle calls) := by
  have hexisting : ∀ dedupeKey : Option String,
      Climbs ordered n (idle calls) (findExisting dedupeKey) (idle calls) := by
    intro dedupeKey
    cases dedupeKey with
    | none => exact .ret none
    | some dedupeKey => exact .find ..
  refine (hexisting _).bind fun existing => ?_
  cases existing with
  | some existing =>
      dsimp only
      split
      · exact .ret _
      · split
        · refine (Climbs.save _ _ _ (by decide) fun _ => Nat.zero_le _).bind fun _ => ?_
          refine (Climbs.writeReceipt ..).bind fun _ => Climbs.commitNow.bind fun _ => ?_
          exact (Climbs.refresh ..).bind fun _ => .ret _
        · exact .raise _
  | none =>
      dsimp only
      split
      · refine (Climbs.tryInsert _ (by decide) fun _ => Nat.zero_le _).bind fun event => ?_
        cases event with
        | some event =>
            refine (Climbs.writeReceipt ..).bind fun _ => Climbs.commitNow.bind fun _ => ?_
            exact (Climbs.refresh ..).bind fun _ => .ret _
        | none =>
            refine Climbs.rollbackNow.bind fun _ => (hexisting _).bind fun committed => ?_
            cases committed with
            | some committed => exact .ret _
            | none => exact .raise _
      · exact .raise _

end Ingest

namespace Resolve

variable (app : App)

theorem climbs_upsertIdentityLink (eventId identityId : Uuid) (matchConfidence : Decimal)
    (matchRule : MatchRule) (hlevel : stand.level ≤ 2) :
    Climbs ordered n stand (upsertIdentityLink eventId identityId matchConfidence matchRule)
      { stand with level := 3 } := by
  refine (Climbs.find ..).bind fun link => ?_
  cases link with
  | none => exact (Climbs.insert _ _ (by decide) fun _ => hlevel).bind fun _ => .ret _
  | some link => exact .save _ _ _ (by decide) fun _ => hlevel

theorem climbs_park (eventId : Uuid) (candidateIdentityId : Option Uuid) (reason : String) :
    Climbs ordered n (idle calls) (park eventId candidateIdentityId reason) (idle calls) := by
  have hqueue : Climbs ordered n (idle calls) (queueReview eventId candidateIdentityId reason)
      { level := 1, calls } := by
    refine (Climbs.find ..).bind fun existing => ?_
    cases existing with
    | some existing => exact (Climbs.save _ _ _ (by decide) fun _ => le_rfl).bind fun _ => .ret _
    | none =>
        refine (Climbs.insert _ _ (by decide) fun _ => le_rfl).bind fun entry => ?_
        exact (Climbs.writeReceipt ..).bind fun _ => .ret _
  refine hqueue.bind fun entry => Climbs.commitNow.bind fun _ => ?_
  exact (Climbs.refresh ..).bind fun _ => .ret _

theorem climbs_linkViaExact (event : Event) (matchRule : MatchRule) {lookup : Prog (Option Identity)}
    (hlookup : Climbs ordered n (idle calls) lookup (idle calls)) (create : Uuid → Time → Identity) :
    Climbs ordered n (idle calls) (linkViaExact event matchRule lookup create) (idle calls) := by
  have hfinish : ∀ (stand : Stand) (identity : Identity) (expired : Bool), stand.level ≤ 2 →
      stand.calls = calls → Climbs ordered n stand (do
        upsertIdentityLink event.id identity.id certain matchRule
        Program.commitNow
        return .linked identity.id expired : Prog Resolution) (idle calls) := by
    rintro stand identity expired hlevel rfl
    exact (climbs_upsertIdentityLink _ _ _ _ hlevel).bind fun _ => Climbs.commitNow.bind fun _ => .ret _
  refine hlookup.bind fun found => ?_
  cases found with
  | some identity => exact hfinish _ identity false (Nat.zero_le _) rfl
  | none =>
      refine (Climbs.tryInsert _ (by decide) fun _ => Nat.zero_le _).bind fun created => ?_
      cases created with
      | some identity =>
          exact (Climbs.writeReceipt ..).bind fun _ => hfinish _ identity false le_rfl rfl
      | none =>
          refine Climbs.rollbackNow.bind fun _ => hlookup.bind fun winner => ?_
          cases winner with
          | none => exact .raise _
          | some identity => exact hfinish _ identity true (Nat.zero_le _) rfl

theorem climbs_resolveIdentity (event : Event) :
    Climbs ordered n (idle calls) (resolveIdentity app event) (idle calls) := by
  refine (Climbs.find ..).bind fun link => ?_
  cases link with
  | some link => exact .ret _
  | none =>
      dsimp only
      cases rule app (event.identityFields.getD {}) with
      | exactEmail email => exact climbs_linkViaExact event _ (.find ..) _
      | exactPhone phone => exact climbs_linkViaExact event _ (.find ..) _
      | noIdentityFields => exact climbs_park ..
      | fuzzyName name =>
          have hfuzzy : Climbs ordered n (idle calls)
              (findFuzzyCandidate app name (companyName (event.identityFields.getD {}))) (idle calls) :=
            (Climbs.findAll ..).bind fun _ => .ret _
          refine hfuzzy.bind fun candidate => ?_
          cases candidate with
          | some candidate => exact climbs_park ..
          | none =>
              refine (Climbs.insert _ _ (by decide) fun _ => Nat.zero_le _).bind fun identity => ?_
              refine (Climbs.writeReceipt ..).bind fun _ => ?_
              refine (climbs_upsertIdentityLink _ _ _ _ le_rfl).bind fun _ => ?_
              exact Climbs.commitNow.bind fun _ => (Climbs.refresh ..).bind fun _ => .ret _

end Resolve

namespace Resolve

theorem climbs_claimReview (reviewId : Uuid) (decision : String) (resolvedAt : Time) :
    Climbs ordered n (idle calls) (claimReview reviewId decision resolvedAt) { level := 1, calls } := by
  refine .execute (t := .manualReviewQueue) _ (fun now db w a hw => ?_) (by decide) fun _ => le_rfl
  split at hw <;> cases hw
  rfl

/-- A review that was resolved leaves no lock. -/
def Unlocks (ordered : Prop) (calls : ℕ) (r : Except ReviewError ResolvedReview)
    (s : Session Write Reply) : Prop :=
  ∀ result, r = .ok result → (idle calls).At ordered s

theorem Climbs.unlocks {p : Prog (Except ReviewError ResolvedReview)}
    (hp : Climbs ordered n stand p (idle calls)) {s : Session Write Reply} (hs : stand.At ordered s) :
    p.Walks (watch ordered n) (Unlocks ordered calls) s :=
  (hp.walks hs).mono fun _ _ h _ _ => h

theorem walks_mergeInto (review : ManualReviewQueue) (decision : String) (identityId : Uuid)
    {s : Session Write Reply} (hs : Stand.At { level := 1, calls } ordered s) :
    (mergeInto review decision identityId).Walks (watch ordered n) (Unlocks ordered calls) s := by
  refine walks_bind.mpr (((Climbs.find ..).walks hs).mono fun target s' hs' => ?_)
  cases target with
  | none => exact fun _ h => by cases h
  | some target =>
      refine Climbs.unlocks ?_ hs'
      refine (climbs_upsertIdentityLink _ _ _ _ (Nat.le_succ _)).bind fun _ => ?_
      exact (Climbs.writeReceipt ..).bind fun _ => Climbs.commitNow.bind fun _ => .ret _

theorem climbs_createNew (review : ManualReviewQueue) (decision : String) :
    Climbs ordered n { level := 1, calls } (createNew review decision) (idle calls) := by
  refine (Climbs.find ..).bind fun event => ?_
  refine (Climbs.insert _ _ (by decide) fun _ => le_rfl).bind fun identity => ?_
  refine (Climbs.writeReceipt ..).bind fun _ => ?_
  refine (climbs_upsertIdentityLink _ _ _ _ le_rfl).bind fun _ => ?_
  exact (Climbs.writeReceipt ..).bind fun _ => Climbs.commitNow.bind fun _ => .ret _

theorem walks_claimAndLink (reviewId : Uuid) (decision : String) (mergeTarget : Option Uuid)
    {s : Session Write Reply} (hs : (idle calls).At ordered s) :
    (claimAndLink reviewId decision mergeTarget).Walks (watch ordered n) (Unlocks ordered calls) s := by
  refine walks_bind.mpr ((Climbs.utcNow.walks hs).mono fun resolvedAt s hs => ?_)
  refine walks_bind.mpr (((climbs_claimReview reviewId decision resolvedAt).walks hs).mono fun review s hs => ?_)
  cases review with
  | none =>
      refine walks_bind.mpr (((Climbs.find ..).walks hs).mono fun found s hs => ?_)
      cases found <;> exact fun _ h => by cases h
  | some review =>
      cases mergeTarget with
      | none => exact Climbs.unlocks (climbs_createNew review decision) hs
      | some identityId => exact walks_mergeInto review decision identityId hs

theorem walks_resolveReview (reviewId : Uuid) (decision : String) (identityId : Option Uuid)
    {s : Session Write Reply} (hs : (idle calls).At ordered s) :
    (resolveReview reviewId decision identityId).Walks (watch ordered n) (Unlocks ordered calls) s := by
  unfold resolveReview
  split
  · cases identityId with
    | none => exact fun _ h => by cases h
    | some identityId =>
        refine walks_bind.mpr (((Climbs.find ..).walks hs).mono fun target s hs => ?_)
        cases target with
        | none => exact fun _ h => by cases h
        | some target => exact walks_claimAndLink _ _ _ hs
  · exact walks_claimAndLink _ _ _ hs

end Resolve

namespace Interpret

variable (app : App)

/-- A call and its retries stay within their budget. -/
theorem climbs_callLlm (text : String) (further attempts : ℕ) {calls : ℕ}
    (hcalls : calls + further + 1 ≤ n) :
    Climbs ordered n (idle calls) (callLlm app text further attempts) (idle n) := by
  have hcall : ∀ calls < n,
      Climbs ordered n (idle calls) (Program.call ⟨text⟩) (idle (calls + 1)) := fun _ h => .call h _
  have hdone : ∀ calls < n, ∀ result : Except (String × ℕ) (Json.Fields × Option Usage),
      Climbs ordered n (idle (calls + 1)) (.ret result) (idle n) := fun _ hlt result =>
    (Climbs.ret result).weaken (fun _ h => h) (fun _ => le_rfl) hlt
  induction further generalizing attempts calls with
  | zero =>
      have hlt : calls < n := by omega
      unfold callLlm
      refine (hcall calls hlt).bind fun reply => ?_
      split
      · exact hdone calls hlt _
      · split <;> exact hdone calls hlt _
  | succ further ih =>
      have hlt : calls < n := by omega
      unfold callLlm
      refine (hcall calls hlt).bind fun reply => ?_
      split
      · exact hdone calls hlt _
      · split
        · exact ih _ (by omega)
        · exact hdone calls hlt _

theorem climbs_persist (eventId : Uuid) (fields : Classified) :
    Climbs ordered n (idle calls) (persist eventId fields) (idle calls) := by
  have hupsert : Climbs ordered n (idle calls) (upsertInterpretation eventId fields)
      { level := 1, calls } := by
    refine (Climbs.find ..).bind fun existing => ?_
    cases existing with
    | some existing => exact (Climbs.save _ _ _ (by decide) fun _ => le_rfl).bind fun _ => .ret _
    | none => exact .insert _ _ (by decide) fun _ => le_rfl
  unfold persist
  split
  · refine hupsert.bind fun interpretation => (Climbs.writeReceipt ..).bind fun _ => ?_
    exact Climbs.commitNow.bind fun _ => .ret _
  · exact .raise _

theorem climbs_deadLetter (eventId : Uuid) (message : String) (retryCount : ℕ) :
    Climbs ordered n (idle calls) (deadLetter eventId message retryCount) (idle calls) := by
  unfold deadLetter
  dsimp only
  split
  · refine (Climbs.tryInsert _ (by decide) fun _ => le_rfl).bind fun dlq => ?_
    cases dlq with
    | none => exact .rollbackNow
    | some dlq => exact (Climbs.writeReceipt ..).bind fun _ => .commitNow
  · exact .raise _

theorem climbs_classifyEvent (event : Event) :
    Climbs ordered app.retryMaxAttempts (idle 0) (classifyEvent app event)
      (idle app.retryMaxAttempts) := by
  have hpos := app.retryMaxAttempts_pos
  unfold classifyEvent
  cases extractText event with
  | none => exact .raise _
  | some text =>
      dsimp only
      split
      · refine ((climbs_persist ..).bind fun _ => .ret _).weaken (fun _ h => h) (fun _ => le_rfl) ?_
        exact Nat.zero_le _
      · refine (climbs_callLlm app text _ 0 (by omega)).bind fun result => ?_
        cases result with
        | error failure => exact (climbs_deadLetter ..).bind fun _ => .ret _
        | ok result => exact (climbs_persist ..).bind fun _ => .ret _

end Interpret

theorem Scoring.climbs_scoreEvent (app : App) (event : Event) (identityId : Uuid)
    (interpretation : Interpretation) : Climbs ordered n (idle calls)
      (Scoring.scoreEvent app event identityId interpretation) { level := 1, calls } := by
  unfold Scoring.scoreEvent
  split
  · exact .raise _
  · next score decision features _ =>
      have hupsert : Climbs ordered n (idle calls)
          (Scoring.upsertScore app event identityId score decision features) { level := 1, calls } := by
        refine Climbs.uuid4.bind fun id => ?_
        refine .execute (t := .scores) _ (fun now db w a hw => ?_) (by decide) fun _ => le_rfl
        split at hw <;> cases hw <;> rfl
      refine hupsert.bind fun _ => (Climbs.find ..).bind fun row => ?_
      cases row with
      | none => exact .raise _
      | some row => exact (Climbs.writeReceipt ..).bind fun _ => .ret _

/-- The touch was found, or made in this transaction. -/
theorem Attribute.walks_upsertAttribution (event : Event) (identityId : Uuid) (hlevel : stand.level ≤ 5)
    {s : Session Write Reply} (hs : stand.At ordered s) :
    (Attribute.upsertAttribution event identityId).Walks (watch ordered n) (fun touches s' =>
      stand.At ordered s' ∨
        touches.1 = touches.2 ∧ { stand with level := 6 : Stand }.At ordered s') s := by
  refine walks_bind.mpr (((Climbs.find ..).walks hs).mono fun touch s hs => ?_)
  cases touch with
  | some existing =>
      refine walks_bind.mpr ((Climbs.utcNow.walks hs).mono fun now s hs => ?_)
      split <;> exact .inl hs
  | none =>
      refine walks_bind.mpr (((Climbs.tryInsert _ (by decide) fun _ => hlevel).walks hs).mono fun touch s hs => ?_)
      cases touch with
      | some touch => exact .inr ⟨rfl, hs⟩
      | none =>
          refine walks_bind.mpr ((Climbs.rollbackNow.walks hs).mono fun _ s hs => ?_)
          refine walks_bind.mpr (((Climbs.find ..).walks hs).mono fun found s hs => ?_)
          cases found <;> trivial

namespace Act

variable (app : App)

/-- The route was found, or made in this transaction. -/
theorem walks_routeLead {loaded lead : Lead} {decision label : String}
    (hsave : Climbs ordered n stand (save .leads .integrityError loaded lead) stand')
    (hlevel : stand'.level ≤ 4) {s : Session Write Reply} (hs : stand.At ordered s) :
    (routeLead app loaded lead decision label).Walks (watch ordered n) (fun routes s' =>
      stand'.At ordered s' ∨
        routes.1 = routes.2.1 ∧ { stand' with level := 5 : Stand }.At ordered s') s := by
  unfold routeLead
  refine walks_bind.mpr ((Climbs.utcNow.walks hs).mono fun now s hs => ?_)
  refine walks_bind.mpr ((hsave.walks hs).mono fun _ s hs => ?_)
  refine walks_bind.mpr (((Climbs.find ..).walks hs).mono fun route s hs => ?_)
  cases route with
  | some existing => exact .inl hs
  | none =>
      refine walks_bind.mpr (((Climbs.tryInsert _ (by decide) fun _ => hlevel).walks hs).mono fun route s hs => ?_)
      cases route with
      | some route => exact .inr ⟨rfl, hs⟩
      | none =>
          refine walks_bind.mpr ((Climbs.rollbackNow.walks hs).mono fun _ s hs => ?_)
          refine walks_bind.mpr (((Climbs.find ..).walks hs).mono fun found s hs => ?_)
          cases found <;> trivial

/-- A new lead is locked by its `INSERT`, and one that is found has the status already. -/
theorem walks_createOrUpdateLead (event : Event) (identityId : Uuid) {s : Session Write Reply}
    (hs : (idle calls).At ordered s) :
    (createOrUpdateLead event identityId).Walks (watch ordered n) (fun found s' =>
      (found.2.1.status = .routed ∧ (idle calls).At ordered s') ∨
        found.1 = found.2.1 ∧
          Stand.At { held := some (.row .leads found.2.1.id), level := 4, calls } ordered s') s := by
  refine walks_bind.mpr (((Climbs.find ..).walks hs).mono fun lead s hs => ?_)
  cases lead with
  | some existing => exact .inl ⟨rfl, hs⟩
  | none =>
      refine walks_bind.mpr ((walks_tryInsert _ (by decide) (fun _ => Nat.zero_le _) hs).mono
        fun lead s hs => ?_)
      cases lead with
      | some lead => exact .inr ⟨rfl, hs.2 lead rfl⟩
      | none =>
          refine walks_bind.mpr ((Climbs.rollbackNow.walks hs.1).mono fun _ s hs => ?_)
          refine walks_bind.mpr (((Climbs.find ..).walks hs).mono fun found s hs => ?_)
          cases found <;> trivial

theorem climbs_act (event : Event) (identityId : Uuid) (score : Option Score) :
    Climbs ordered n (idle calls) (act app event identityId score) (idle calls) := by
  refine ⟨fun {s} hs => walks_bind.mpr ((walks_createOrUpdateLead event identityId hs).mono
    fun found s hs => ?_)⟩
  obtain ⟨loaded, lead, leadOp⟩ := found
  -- the two flushes of the lead lock nothing that is not locked already, or nothing below it
  obtain ⟨stand, stand', hs, hfirst, hlevel, hcalls, hsecond⟩ : ∃ stand stand' : Stand,
      stand.At ordered s ∧
      Climbs ordered n stand (save .leads .integrityError loaded lead) stand' ∧
      stand'.level = 4 ∧ stand'.calls = calls ∧ ∀ level, 4 ≤ level →
        Climbs ordered n { stand' with level }
          (save .leads .integrityError lead ({ lead with status := .routed } : Lead))
          { stand' with level } := by
    rcases hs with ⟨hstatus, hs⟩ | ⟨hloaded, hs⟩
    · refine ⟨_, _, hs, .save _ _ _ (by decide) fun _ => Nat.zero_le _, rfl, rfl, fun level _ => ?_⟩
      have hself : ({ lead with status := .routed } : Lead) = lead := by
        rw [← show lead.status = .routed from hstatus]
      rw [hself]
      exact .save_self _ _
    · obtain rfl : loaded = lead := hloaded
      refine ⟨_, _, hs, .save_self _ _, rfl, rfl, fun level hle => ?_⟩
      exact .save_held _ _ _ (by decide) rfl hle fun now => List.Subset.refl _
  refine walks_bind.mpr ((walks_routeLead app hfirst hlevel.le hs).mono fun routes s hs => ?_)
  obtain ⟨loadedRoute, route, routeOp⟩ := routes
  refine walks_bind.mpr (Walks.mono (fun _ s (hs : stand'.At ordered s ∨ loadedRoute = route ∧
    { stand' with level := 5 : Stand }.At ordered s) => ?_) ?_)
  · refine walks_bind.mpr ((walks_flush hlevel.le (by decide) hs).mono fun _ s hs => ?_)
    refine walks_bind.mpr ((Attribute.walks_upsertAttribution event identityId le_rfl hs).mono
      fun touches s hs => ?_)
    refine walks_bind.mpr ((walks_flush le_rfl (by decide) hs).mono fun _ s hs => ?_)
    refine (Climbs.bind (.writeReceipt ..) fun _ => Climbs.bind (.writeReceipt ..) fun _ =>
      Climbs.bind (.writeReceipt ..) fun _ => Climbs.commitNow.bind fun _ => ?_).walks hs
    rw [← hcalls]
    exact .ret _
  · rcases hs with hs | ⟨hsame, hs⟩
    · refine ((hsecond 4 le_rfl).walks ?_).mono fun _ s hs => .inl ?_
      · rwa [← hlevel]
      · rwa [← hlevel] at hs
    · exact ((hsecond 5 (Nat.le_succ _)).walks hs).mono fun _ s hs => .inr ⟨hsame, hs⟩

end Act

namespace Pipeline

theorem climbs_runDownstream (app : App) (event : Event) (identityId : Uuid) :
    Climbs ordered app.retryMaxAttempts (idle 0) (runDownstream app event identityId)
      (idle app.retryMaxAttempts) := by
  refine (Interpret.climbs_classifyEvent app event).bind fun interpretation => ?_
  cases interpretation with
  | none => exact .ret _
  | some interpretation =>
      have hact : ∀ score, Climbs ordered app.retryMaxAttempts (idle app.retryMaxAttempts) (do
          let acted ← Act.act app event identityId score
          return some (⟨interpretation, score, acted⟩ : Outcome)) (idle app.retryMaxAttempts) := fun score =>
        (Act.climbs_act app event identityId score).bind fun _ => .ret _
      refine (Climbs.find ..).bind fun current => ?_
      cases current with
      | none => exact hact none
      | some current =>
          refine (Scoring.climbs_scoreEvent ..).bind fun score => Climbs.commitNow.bind fun _ => ?_
          exact hact (some score)

end Pipeline

theorem Escalation.climbs_evaluateEscalation (route : Option Route) (identityId : Uuid)
    (hlevel : ordered → stand.level ≤ 4) (hle : stand.level ≤ 5) :
    Climbs ordered n stand (Escalation.evaluateEscalation route identityId)
      { stand with level := 5 } := by
  have hdone : ∀ b : Bool, Climbs ordered n stand (.ret b) { stand with level := 5 } := fun b =>
    (Climbs.ret b).weaken (fun _ h => h) (fun _ => hle) le_rfl
  unfold Escalation.evaluateEscalation
  cases route with
  | none => exact hdone false
  | some route =>
      dsimp only
      split
      · exact hdone true
      · refine Climbs.utcNow.bind fun now => ?_
        split
        · refine (Climbs.save _ _ _ (by decide) hlevel).bind fun _ => ?_
          exact (Climbs.writeReceipt ..).bind fun _ => .ret _
        · exact hdone false

/-! ### Requests -/

theorem climbs_boundId (text : Option Uuid) : Climbs ordered n stand (boundId text) stand := by
  cases text with
  | none => exact .raise _
  | some id => exact .ret id

theorem Events.climbs_createEvent (app : App) (body : Option Json) :
    Climbs ordered app.retryMaxAttempts (idle 0) (Events.createEvent app body)
      (idle app.retryMaxAttempts) := by
  have hdone : ∀ answer : Answer, Climbs ordered app.retryMaxAttempts (idle 0) (.ret answer)
      (idle app.retryMaxAttempts) := fun answer =>
    (Climbs.ret answer).weaken (fun _ h => h) (fun _ => le_rfl) (Nat.zero_le _)
  unfold Events.createEvent
  split
  · exact .raise _
  · split
    · exact (Ingest.climbs_persistInvalidEvent ..).bind fun _ => hdone _
    · refine (Ingest.climbs_createEvent ..).bind fun ingested => ?_
      obtain ⟨event, status⟩ := ingested
      dsimp only
      split
      · exact hdone _
      · refine (Resolve.climbs_resolveIdentity app event).bind fun resolution => ?_
        cases resolution with
        | queuedReview reviewId => exact hdone _
        | linked identityId expired =>
            dsimp only
            split
            · exact .raise _
            · refine (Pipeline.climbs_runDownstream ..).bind fun outcome => ?_
              cases outcome <;> exact .ret _
  · exact (Ingest.climbs_persistInvalidEvent ..).bind fun _ => hdone _

namespace ManualReview

variable (app : App)

theorem climbs_mergeTarget (decision : String) (identityId : Option (Option Uuid)) :
    Climbs ordered n stand (mergeTarget decision identityId) stand := by
  unfold mergeTarget
  split
  · exact .ret _
  · split
    · exact (climbs_boundId _).bind fun _ => .ret _
    · exact .ret _

/-- What a resolved review leads to, once it holds no lock. -/
theorem walks_resolved {α : Type} {p : Prog (Except Resolve.ReviewError Resolve.ResolvedReview)}
    {g : Except Resolve.ReviewError Resolve.ResolvedReview → Prog α} {s : Session Write Reply}
    (hp : p.Walks (watch ordered n) (Resolve.Unlocks ordered 0) s)
    (herror : ∀ error s', (g (.error error)).Walks (watch ordered n) (fun _ _ => True) s')
    (hok : ∀ result, Climbs ordered n (idle 0) (g (.ok result)) (idle n)) :
    (p.bind g).Walks (watch ordered n) (fun _ _ => True) s := by
  refine walks_bind.mpr (hp.mono fun r s' h => ?_)
  cases r with
  | error error => exact herror error s'
  | ok result => exact ((hok result).walks (h result rfl)).mono fun _ _ _ => trivial

theorem walks_resolveManualReview (reviewId : Option Uuid) (decision : String)
    (identityId : Option (Option Uuid)) {s : Session Write Reply} (hs : (idle 0).At ordered s) :
    (resolveManualReview app reviewId decision identityId).Walks
      (watch ordered app.retryMaxAttempts) (fun _ _ => True) s := by
  unfold resolveManualReview
  split
  · refine walks_bind.mpr (((climbs_boundId _).walks hs).mono fun reviewId s hs => ?_)
    refine walks_bind.mpr (((Climbs.find ..).walks hs).mono fun entry s hs => ?_)
    cases entry with
    | none => trivial
    | some entry =>
        dsimp only
        split
        · trivial
        · refine walks_bind.mpr (((climbs_mergeTarget ..).walks hs).mono fun target s hs => ?_)
          refine walks_resolved (Resolve.walks_resolveReview reviewId decision target hs)
            (fun _ _ => trivial) fun result => ?_
          refine (Climbs.find ..).bind fun event => ?_
          cases event with
          | none => exact .raise _
          | some event =>
              refine (Pipeline.climbs_runDownstream ..).bind fun outcome => ?_
              cases outcome <;> exact .ret _
  · trivial

theorem walks_resolveForm (reviewId : Option Uuid) (decision : String)
    (identityId : Option (Option Uuid)) {s : Session Write Reply} (hs : (idle 0).At ordered s) :
    (resolveForm app reviewId decision identityId).Walks
      (watch ordered app.retryMaxAttempts) (fun _ _ => True) s := by
  refine walks_bind.mpr (((climbs_boundId _).walks hs).mono fun reviewId s hs => ?_)
  refine walks_bind.mpr (((Climbs.find ..).walks hs).mono fun entry s hs => ?_)
  cases entry with
  | none => trivial
  | some entry =>
      refine walks_bind.mpr (((climbs_mergeTarget ..).walks hs).mono fun target s hs => ?_)
      refine walks_resolved (Resolve.walks_resolveReview reviewId decision target hs)
        (fun error _ => ?_) fun result => ?_
      · cases error <;> trivial
      · refine (Climbs.find ..).bind fun event => ?_
        cases event with
        | none => exact (Climbs.ret _).weaken (fun _ h => h) (fun _ => le_rfl) (Nat.zero_le _)
        | some event => exact (Pipeline.climbs_runDownstream ..).bind fun _ => .ret _

end ManualReview

namespace Admin

variable (app : App)

theorem climbs_parseEventId (text : Option Uuid) :
    Climbs ordered n stand (parseEventId text) stand := by
  cases text with
  | none => exact .raise _
  | some id => exact .ret id

theorem climbs_replayEvent (authorized : Bool) (eventId : Option Uuid) :
    Climbs ordered app.retryMaxAttempts (idle 0) (replayEvent app authorized eventId)
      (idle app.retryMaxAttempts) := by
  unfold replayEvent
  split
  · refine (climbs_parseEventId _).bind fun eventId => (Climbs.find ..).bind fun event => ?_
    cases event with
    | none => exact .raise _
    | some event =>
        refine (Climbs.find ..).bind fun dlq => ?_
        cases dlq with
        | none => exact .raise _
        | some dlq =>
            refine (Climbs.findAll ..).bind fun links => ?_
            split
            · refine (Pipeline.climbs_runDownstream ..).bind fun outcome => ?_
              cases outcome with
              | none => exact .raise _
              | some outcome =>
                  refine (Climbs.save _ _ _ (by decide) fun _ => le_rfl).bind fun _ => ?_
                  exact (Climbs.writeReceipt ..).bind fun _ => Climbs.commitNow.bind fun _ => .ret _
            · exact .raise _
  · exact .raise _

theorem climbs_simulateFailure (authorized : Bool) (stage : String) (eventId : Option Uuid) :
    Climbs ordered n (idle calls) (simulateFailure app authorized stage eventId) (idle calls) := by
  unfold simulateFailure
  split
  · split
    · refine (climbs_parseEventId _).bind fun eventId => (Climbs.find ..).bind fun event => ?_
      cases event with
      | none => exact .raise _
      | some event =>
          refine (Climbs.find ..).bind fun dlq => ?_
          cases dlq with
          | some dlq => exact .raise _
          | none =>
              refine (Climbs.tryInsert _ (by decide) fun _ => le_rfl).bind fun dlq => ?_
              cases dlq with
              | some dlq =>
                  exact (Climbs.writeReceipt ..).bind fun _ => Climbs.commitNow.bind fun _ => .ret _
              | none => exact Climbs.rollbackNow.bind fun _ => .raise _
    · exact .raise _
  · exact .raise _

end Admin

namespace Leads

theorem climbs_getLead (withEvent : Bool) (leadId : Option Uuid) :
    Climbs ordered n (idle calls) (getLead withEvent leadId) (idle calls) := by
  refine (climbs_boundId _).bind fun leadId => (Climbs.find ..).bind fun lead => ?_
  cases lead with
  | none => exact .ret _
  | some lead =>
      refine (Climbs.select _).bind fun route => (Climbs.select _).bind fun score => ?_
      refine (Climbs.find ..).bind fun touch => ?_
      have hescalate : Climbs ordered n (idle calls)
          (Escalation.evaluateEscalation route lead.identityId) { level := 5, calls } :=
        Escalation.climbs_evaluateEscalation _ _ (fun _ => Nat.zero_le _) (Nat.zero_le _)
      dsimp only
      split
      · exact (Climbs.find ..).bind fun _ => hescalate.bind fun _ => Climbs.commitNow.bind fun _ => .ret _
      · exact hescalate.bind fun _ => Climbs.commitNow.bind fun _ => .ret _

/-- The routes are escalated lead by lead. -/
theorem climbs_viewLeads (hfree : ¬ ordered) (filters : Filters) (leads : List Lead) :
    Climbs ordered n { level := 5, calls } (viewLeads filters leads) { level := 5, calls } := by
  induction leads with
  | nil => exact .ret _
  | cons lead leads ih =>
      refine Climbs.bind ?_ fun view => ih.bind fun views => .ret _
      refine (Climbs.select _).bind fun route => (Climbs.select _).bind fun score => ?_
      have hsource : Climbs ordered n { level := 5, calls } (sourceMatches lead filters.source)
          { level := 5, calls } := by
        unfold sourceMatches
        split
        · exact .ret _
        · refine (Climbs.find ..).bind fun event => ?_
          cases event <;> exact .ret _
      refine hsource.bind fun keeps => ?_
      split
      · split
        · exact (Escalation.climbs_evaluateEscalation _ _ (absurd · hfree) le_rfl).bind fun _ => .ret _
        · exact .ret _
      · exact .ret _

theorem climbs_listLeads (hfree : ¬ ordered) (filters : Filters) :
    Climbs ordered n (idle calls) (listLeads filters) (idle calls) := by
  refine (Climbs.findAll ..).bind fun leads => ?_
  have hviews : Climbs ordered n (idle calls) (viewLeads filters leads) { level := 5, calls } :=
    ⟨fun hs => (climbs_viewLeads hfree filters leads).walks (hs.raise (absurd · hfree))⟩
  exact hviews.bind fun _ => Climbs.commitNow.bind fun _ => .ret _

end Leads

theorem Dashboard.climbs_reconciliation (window : Dashboard.Window) :
    Climbs ordered n (idle calls) (Dashboard.reconciliation window) (idle calls) := by
  have hpairs : ∀ pairs : List Dashboard.Pair,
      Climbs ordered n (idle calls) (Dashboard.reconcilePairs window pairs) (idle calls) := by
    intro pairs
    induction pairs with
    | nil => exact .ret _
    | cons pair rest ih =>
        refine Climbs.bind ?_ fun row => ih.bind fun rows => .ret _
        exact (Climbs.select _).bind fun rows => (Climbs.select _).bind fun receipts => .ret _
  exact (hpairs Dashboard.pairs).bind fun _ => .ret _

/-- How often a request may call the provider. -/
def Request.budget (app : App) : Request → ℕ
  | .postEvent _ | .resolveManualReview .. | .resolveForm .. | .replayEvent .. => app.retryMaxAttempts
  | _ => 0

/-- The request takes its locks in order. -/
def Request.orders : Request → Bool
  | .listLeads _ => false
  | _ => true

def Request.watch (app : App) (request : Request) : Watch Write Question Reply :=
  DemandSignal.watch (request.orders = true) (request.budget app)

/-- **Every request walks its watch.** -/
theorem walks_handle (app : App) (request : Request) :
    (handle app request).Walks (request.watch app) (fun _ _ => True) {} := by
  have hstart : ∀ ordered : Prop, (idle 0).At ordered {} := fun _ =>
    ⟨fun _ h => absurd h (by rintro ⟨⟩), fun _ _ h => absurd h (by rintro ⟨⟩), le_rfl⟩
  have hdone : ∀ {ordered : Prop} {n : ℕ} {α : Type} {p : Prog α} {stand : Stand} {g : α → Response},
      Climbs ordered n (idle 0) p stand →
      (p.bind fun a => .ret (g a)).Walks (DemandSignal.watch ordered n) (fun _ _ => True) {} :=
    fun hp => ((hp.bind fun _ => .ret _).walks (hstart _)).mono fun _ _ _ => trivial
  cases request with
  | postEvent body => exact hdone (Events.climbs_createEvent ..)
  | resolveManualReview reviewId decision identityId =>
      exact walks_bind.mpr ((ManualReview.walks_resolveManualReview app _ _ _ (hstart _)).mono
        fun _ _ _ => trivial)
  | resolveForm reviewId decision identityId =>
      exact walks_bind.mpr ((ManualReview.walks_resolveForm app _ _ _ (hstart _)).mono
        fun _ _ _ => trivial)
  | replayEvent authorized eventId => exact hdone (Admin.climbs_replayEvent ..)
  | simulateFailure authorized stage eventId => exact hdone (Admin.climbs_simulateFailure ..)
  | listLeads filters => exact hdone (Leads.climbs_listLeads Bool.false_ne_true filters)
  | getLead withEvent leadId => exact hdone (Leads.climbs_getLead ..)
  | reconciliation window => exact hdone (Dashboard.climbs_reconciliation ..)

end DemandSignal
