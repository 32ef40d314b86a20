import DemandSignal.Db.Rules
import DemandSignal.System

/-!
# The transactions of the service

What each commit of a request writes, and what the request had seen of the database to write it. The
rest of the development speaks of the code through this list only.
-/

namespace DemandSignal

open Txn

/-! ### Upserts -/

/-- A row of a table, new or loaded and changed. -/
inductive Upsert (t : Table) where
  | created (row : Row t)
  | updated (loaded new : Row t)

namespace Upsert

variable {t : Table}

def op : Upsert t → Op
  | created _ => .created
  | updated _ _ => .updated

def loaded : Upsert t → Row t
  | created row => row
  | updated loaded _ => loaded

def row : Upsert t → Row t
  | created row => row
  | updated _ new => new

/-- The flush of a new row. -/
def inserts : Upsert t → List Write
  | created row => [.insert t row]
  | updated _ _ => []

@[simp]
theorem op_created (row : Row t) : (created row).op = .created := rfl

@[simp]
theorem op_updated (loaded new : Row t) : (updated loaded new).op = .updated := rfl

@[simp]
theorem row_created (row : Row t) : (created row).row = row := rfl

@[simp]
theorem row_updated (loaded new : Row t) : (updated loaded new).row = new := rfl

@[simp]
theorem inserts_created (row : Row t) : (created row).inserts = [.insert t row] := rfl

@[simp]
theorem inserts_updated (loaded new : Row t) : (updated loaded new).inserts = [] := rfl

def writes (u : Upsert t) (now : Time) : List Write := u.inserts ++ saved t u.loaded u.row now

theorem table_of_mem_inserts {u : Upsert t} {w : Write} (h : w ∈ u.inserts) : w.table = t := by
  cases u with
  | created row =>
      rw [List.mem_singleton.mp h]
      rfl
  | updated loaded new => cases h

/-- The writes of an upsert name its table only. -/
theorem table_of_mem_writes {u : Upsert t} {now : Time} {w : Write} (h : w ∈ u.writes now) :
    w.table = t := by
  rcases List.mem_append.mp h with h | h
  · exact table_of_mem_inserts h
  · rw [(table_of_mem_saved h).1]
    rfl

theorem mem_writes {u : Upsert t} {now : Time} {w : Write} (h : w ∈ u.writes now) :
    (∃ row, u = created row ∧ w = .insert t row) ∨
      ∃ loaded new, u = updated loaded new ∧ new ≠ loaded ∧ w = .update t loaded (new.stamp now) := by
  cases u with
  | created row =>
      rw [writes, saved_self (by rfl), List.append_nil] at h
      exact .inl ⟨row, rfl, List.mem_singleton.mp h⟩
  | updated loaded new =>
      obtain ⟨heq, hne⟩ := (table_of_mem_saved h : w = .update t loaded (new.stamp now) ∧ new ≠ loaded)
      exact .inr ⟨loaded, new, rfl, hne, heq⟩

theorem names_inserts (u : Upsert t) {ts : List Table} (ht : t ∈ ts) : Names u.inserts ts :=
  fun w hw => by rwa [table_of_mem_inserts hw]

theorem names_writes (u : Upsert t) (now : Time) {ts : List Table} (ht : t ∈ ts) :
    Names (u.writes now) ts := fun w hw => by rwa [table_of_mem_writes hw]

@[simp]
theorem writes_created (row : Row t) (now : Time) :
    (Upsert.created row).writes now = [.insert t row] := by
  change [.insert t row] ++ saved t row row now = _
  rw [saved_self rfl, List.append_nil]

@[simp]
theorem writes_updated (loaded new : Row t) (now : Time) :
    (Upsert.updated loaded new).writes now = saved t loaded new now := rfl

@[simp]
theorem inserted_writes (t' : Table) (u : Upsert t) (now : Time) :
    inserted t' (u.writes now) = inserted t' u.inserts := by
  rw [writes, inserted_append, inserted_saved, List.append_nil]

theorem inserted_inserts_of_ne {t' : Table} (h : t ≠ t') (u : Upsert t) :
    inserted t' u.inserts = [] :=
  inserted_of_untouched fun w hw => by rwa [table_of_mem_inserts hw]

/-- The lookup of `p` found nothing and the row is `fresh`, or it found the loaded row and the code
made it `edit` of it. -/
def By (sight : Sight) (L : Ledger Db Write) (p : Row t → Prop) (fresh : Uuid → Row t)
    (edit : Row t → Row t) : Upsert t → Prop
  | created row => sight (fun db => ∀ row ∈ db t, ¬ p row) L ∧ row = fresh row.id
  | updated loaded new => sight (fun db => loaded ∈ db t) L ∧ p loaded ∧ new = edit loaded

/-- A loaded row keeps the columns its edit keeps. -/
theorem By.kept {sight : Sight} {L : Ledger Db Write} {p : Row t → Prop} {fresh : Uuid → Row t}
    {edit : Row t → Row t} {u : Upsert t} (h : u.By sight L p fresh edit) {β : Type}
    {column : Row t → β} (hedit : ∀ row, column (edit row) = column row) :
    column u.row = column u.loaded := by
  cases u with
  | created row => rfl
  | updated loaded new =>
      obtain ⟨-, -, rfl⟩ := h
      exact hedit loaded

theorem By.mono {sight : Sight} {L L' : Ledger Db Write} (hsight : ∀ P, sight P L → sight P L')
    {p : Row t → Prop} {fresh : Uuid → Row t} {edit : Row t → Row t} {u : Upsert t}
    (h : u.By sight L p fresh edit) : u.By sight L' p fresh edit := by
  cases u with
  | created row => exact ⟨hsight _ h.1, h.2⟩
  | updated loaded new => exact ⟨hsight _ h.1, h.2⟩

/-- The row is there once the upsert is committed. -/
theorem By.exists_kept {sight : Sight} (lawful : sight.Lawful) {L : Ledger Db Write} {p : Row t → Prop} {fresh : Uuid → Row t}
    {edit : Row t → Row t} {u : Upsert t} (h : u.By sight L p fresh edit) (ws : List Write)
    (hws : u.inserts ⊆ ws) : ∃ row ∈ (L.commit ws).db t, Row.Kept u.loaded row := by
  cases u with
  | created row => exact Db.exists_kept_inserted _ (hws (List.mem_singleton_self _))
  | updated loaded new =>
      obtain ⟨row₁, hrow₁, hkept₁⟩ := lawful.kept h.1
      obtain ⟨row₂, hrow₂, hkept₂⟩ := Db.exists_kept ws hrow₁
      exact ⟨row₂, hrow₂, hkept₁.trans hkept₂⟩

/-- An upsert on a unique column updates exactly when the database holds the value. -/
theorem By.updated_iff {sight : Sight} (lawful : sight.Lawful) {L : Ledger Db Write} {β : Type}
    {column : Row t → β} {value : β} {fresh : Uuid → Row t} {edit : Row t → Row t} {u : Upsert t}
    (h : u.By sight L (fun row => column row = value) fresh edit) (hstatic : Row.Static column)
    (hfresh : ∀ id, column (fresh id) = value) (key : Key)
    (hkey : ∀ row : Row t, column row = value → key ∈ row.indexed) {ws : List Write}
    (happ : Applicable ws L.db) (hws : u.inserts ⊆ ws) :
    u.op = .updated ↔ ∃ row ∈ L.db t, column row = value := by
  cases u with
  | created row =>
      refine ⟨fun h => (by cases h), fun ⟨row', hrow', hvalue⟩ => ?_⟩
      have hrow : column row = value := by rw [h.2, hfresh]
      have hfree := happ.free t row (hws (List.mem_singleton_self _)) key (hkey row hrow)
      rw [Db.holds_eq_false] at hfree
      exact absurd (List.mem_cons_of_mem _ (hkey row' hvalue)) (hfree row' hrow')
  | updated loaded new =>
      obtain ⟨row, hrow, hkept⟩ := lawful.kept h.1
      exact ⟨fun _ => ⟨row, hrow, (hkept.static hstatic).trans h.2.1⟩, fun _ => rfl⟩

/-- The rows of the table once the upsert is flushed. -/
def put (rows : List (Row t)) : Upsert t → List (Row t)
  | created row => rows ++ [row]
  | updated loaded new => rows.map fun row => if row.id = loaded.id then new else row

/-- A session alone updates the row it has loaded. -/
theorem By.rows {sight : Sight} (lawful : sight.Lawful)
    (halone : ¬ sight.shared) {L : Ledger Db Write} (hdistinct : L.db.Distinct) {p : Row t → Prop}
    {fresh : Uuid → Row t} {edit : Row t → Row t} {u : Upsert t} (h : u.By sight L p fresh edit)
    (hstamp : ∀ (row : Row t) now, row.stamp now = row)
    (hmerge : ∀ row, Row.merge row (edit row) row = edit row) {ws : List Write} {now : Time}
    (hws : (ws.filter fun w => w.table = t) = u.writes now) :
    (L.commit ws).db t = u.put (L.db t) := by
  refine (Db.foldl_apply_filter ws t L.db).trans ?_
  rw [hws]
  cases u with
  | created row =>
      rw [writes_created]
      exact Db.apply_insert_self ..
  | updated loaded new =>
      obtain ⟨hseen, -, rfl⟩ := h
      have hloaded := lawful.still halone _ _ hseen
      have hsame : ∀ row ∈ L.db t, row.id = loaded.id → row = loaded :=
        fun row hrow => hdistinct.eq_of_id hrow hloaded
      rw [writes_updated, put]
      by_cases heq : edit loaded = loaded
      · rw [saved_self heq, heq, List.foldl_nil]
        symm
        calc (L.db t).map (fun row => if row.id = loaded.id then loaded else row)
            = (L.db t).map id := List.map_congr_left fun row hrow => by
              split
              · exact (hsame row hrow ‹_›).symm
              · rfl
          _ = L.db t := List.map_id _
      · rw [saved_of_ne heq, List.foldl_cons, List.foldl_nil, hstamp, Db.apply_update_self, Db.updated]
        refine List.map_congr_left fun row hrow => ?_
        by_cases hid : row.id = loaded.id
        · rw [if_pos hid, if_pos hid, hsame row hrow hid, hmerge]
        · rw [if_neg hid, if_neg hid]

theorem By.row_mem {sight : Sight} (lawful : sight.Lawful)
    (halone : ¬ sight.shared) {L : Ledger Db Write} {p : Row t → Prop} {fresh : Uuid → Row t}
    {edit : Row t → Row t} {u : Upsert t} (h : u.By sight L p fresh edit)
    (hstamp : ∀ (row : Row t) now, row.stamp now = row)
    (hmerge : ∀ row, Row.merge row (edit row) row = edit row) {ws : List Write} {now : Time}
    (hws : (ws.filter fun w => w.table = t) = u.writes now) : u.row ∈ (L.commit ws).db t := by
  have hfilter : (L.commit ws).db t = (u.writes now).foldl Db.apply L.db t := by
    rw [← hws]
    exact Db.foldl_apply_filter ws t L.db
  rw [hfilter]
  cases u with
  | created row =>
      rw [writes_created, List.foldl_cons, List.foldl_nil, Db.apply_insert_self]
      exact List.mem_append_right _ (List.mem_singleton_self _)
  | updated loaded new =>
      obtain ⟨hseen, -, rfl⟩ := h
      have hloaded := lawful.still halone _ _ hseen
      rw [writes_updated]
      by_cases heq : edit loaded = loaded
      · rw [saved_self heq, List.foldl_nil, Upsert.row, heq]
        exact hloaded
      · rw [saved_of_ne heq, List.foldl_cons, List.foldl_nil, Db.apply_update_self, hstamp,
          Db.mem_updated]
        exact ⟨loaded, hloaded, by rw [if_pos rfl, hmerge, Upsert.row]⟩

theorem filter_inserts (u : Upsert t) : (u.inserts.filter fun w => w.table = t) = u.inserts :=
  List.filter_eq_self.mpr fun w hw => by simpa using table_of_mem_inserts hw

theorem filter_inserts_of_ne {s : Table} (h : t ≠ s) (u : Upsert t) :
    (u.inserts.filter fun w => w.table = s) = [] :=
  List.filter_eq_nil_iff.mpr fun w hw => by simpa [table_of_mem_inserts hw] using h

theorem filter_writes (u : Upsert t) (now : Time) :
    ((u.writes now).filter fun w => w.table = t) = u.writes now :=
  List.filter_eq_self.mpr fun w hw => by simpa using table_of_mem_writes hw

theorem filter_writes_of_ne {t' : Table} (u : Upsert t) (now : Time) (h : t ≠ t') :
    ((u.writes now).filter fun w => w.table = t') = [] :=
  List.filter_eq_nil_iff.mpr fun w hw => by simpa [table_of_mem_writes hw] using h

end Upsert

/-! ### Ingest -/

/-- The event was there when the request looked. -/
abbrev Sees (sight : Sight) (L : Ledger Db Write) (event : Event) : Prop :=
  sight (fun db => event ∈ db .events) L

namespace Ingest

/-- A new event. -/
inductive Creates (app : App) (model : EventIn) (payload : Json.Fields) (id : Uuid) :
    List Write → Prop
  | intro {rid now} (hvalid : Schemas.validate app payload = .ok model)
      (haccept : acceptable model payload = true) :
      Creates app model payload id
        [.insert .events (created app model payload
            (computeDedupeKey app (.str model.source) (.str model.externalEventId)) id now),
          .insert .receipts (receipt .eventCreated id .event
            (.eventCreated model.source model.schemaVersion) (some id) none .ok rid now)]

/-- The accepted event of a payload's pair. -/
structure Holds (app : App) (model : EventIn) (event : Event) : Prop where
  isValid : event.isValid = true
  dedupeKey : event.dedupeKey =
    computeDedupeKey app (.str model.source) (.str model.externalEventId)

/-- The payload is not the stored version of its pair. -/
def Differs (app : App) (model : EventIn) (payload : Json.Fields) (db : Db) : Prop :=
  (∀ dedupeKey ∈ computeDedupeKey app (.str model.source) (.str model.externalEventId),
    db.holds .events (.eventDedupeKey dedupeKey) = false) ∨
  ∃ event ∈ db .events, Holds app model event ∧
    Event.payloadHash event ≠ computePayloadHash app payload

/-- A new version of an event. -/
inductive Edits (app : App) (sight : Sight) (L : Ledger Db Write) (model : EventIn)
    (payload : Json.Fields) (existing : Event) : List Write → Prop
  | intro {rid now} (hvalid : Schemas.validate app payload = .ok model)
      (haccept : acceptable model payload = true)
      (hexisting : sight (fun db => existing ∈ db .events) L)
      (hholds : Holds app model existing)
      (hnew : existing.payloadHash ≠ computePayloadHash app payload) :
      Edits app sight L model payload existing
        (saved .events existing (edited app existing model payload) now ++
          [.insert .receipts (receipt .eventEdited existing.id .event
            (.eventEdited existing.source existing.payloadHash (computePayloadHash app payload))
            (some existing.id) none .ok rid now)])

theorem Edits.seen {app : App} {sight : Sight} {L : Ledger Db Write} {model : EventIn}
    {payload : Json.Fields} {existing : Event} {ws : List Write}
    (h : Edits app sight L model payload existing ws) : sight (fun db => existing ∈ db .events) L := by
  cases h with
  | intro _ _ hexisting => exact hexisting

/-- The record of a payload that is refused. -/
inductive Rejects (app : App) : List Write → Prop
  | intro {payload reason receivedAt row id rid now}
      (hrow : rejectedEvent app payload reason receivedAt = some row) :
      Rejects app
        [.insert .events (row id now),
          .insert .receipts (receipt .eventRejected id .event (.eventRejected reason) (some id) none
            .error rid now)]

/-- The record of this payload, with this reason. -/
inductive Refuses (app : App) (payload : Json.Fields) (reason : String) : List Write → Prop
  | intro {receivedAt row id rid now}
      (hrow : rejectedEvent app payload reason receivedAt = some row) :
      Refuses app payload reason
        [.insert .events (row id now),
          .insert .receipts (receipt .eventRejected id .event (.eventRejected reason) (some id) none
            .error rid now)]

theorem Refuses.rejects {app : App} {payload : Json.Fields} {reason : String} {ws : List Write}
    (h : Refuses app payload reason ws) : Rejects app ws := by
  obtain ⟨hrow⟩ := h
  exact .intro hrow

end Ingest

/-! ### Resolution -/

namespace Resolve

/-- The link of an event, new or turned to another identity. -/
def LinksBy (sight : Sight) (L : Ledger Db Write) (eventId identityId : Uuid)
    (matchConfidence : Decimal) (matchRule : MatchRule) : Upsert .identityLinks → Prop :=
  Upsert.By sight L (fun link : IdentityLink => link.eventId = eventId)
    (fun id => ({ id, identityId, eventId, matchConfidence, matchRule } : IdentityLink))
    fun link : IdentityLink => { link with identityId, matchConfidence, matchRule }

/-- The identity an exact rule looks up. -/
def Rule.Finds : Rule → MatchRule → Identity → Prop
  | .exactEmail email, matchRule, identity =>
      matchRule = .exactEmail ∧ identity.primaryEmail = some email
  | .exactPhone phone, matchRule, identity =>
      matchRule = .exactPhone ∧ identity.primaryPhone = some phone
  | .fuzzyName _, _, _ => False
  | .noIdentityFields, _, _ => False

/-- The identity a rule creates. -/
def Rule.mints (fields : IdentityFields) (id : Uuid) (now : Time) :
    Rule → Option (MatchRule × Identity)
  | .exactEmail email =>
      some (.exactEmail, { id, primaryEmail := some email, displayName := fields.name
                           primaryCompany := fields.company, createdAt := now })
  | .exactPhone phone =>
      some (.exactPhone, { id, primaryPhone := some phone, displayName := fields.name
                           primaryCompany := fields.company, createdAt := now })
  | .fuzzyName name =>
      some (.fuzzyNameCompany, { id, displayName := some name, primaryCompany := companyName fields
                                 createdAt := now })
  | .noIdentityFields => none

theorem Rule.mints_spec {rule : Rule} {fields : IdentityFields} {id : Uuid}
    {now : Time} {matchRule : MatchRule} {identity : Identity}
    (h : rule.mints fields id now = some (matchRule, identity)) :
    identity.id = id ∧ identity.createdAt = now := by
  cases rule with
  | noIdentityFields => cases h
  | _ =>
      cases h
      exact ⟨rfl, rfl⟩

/-- The identities a fuzzy match compares. -/
def named (db : Db) : List Identity :=
  (db .identities).filter fun identity => identity.displayName.isSome || identity.primaryEmail.isSome

/-- The lookup of the rule finds nothing. -/
def Rule.Misses (app : App) (fields : IdentityFields) (db : Db) : Rule → Prop
  | .exactEmail email => ∀ identity ∈ db .identities, Identity.primaryEmail identity ≠ some email
  | .exactPhone phone => ∀ identity ∈ db .identities, Identity.primaryPhone identity ≠ some phone
  | .fuzzyName name => fuzzyCandidate app name (companyName fields) (named db) = none
  | .noIdentityFields => True

/-- What the rules read of an event. -/
def fieldsOf (event : Event) : IdentityFields := event.identityFields.getD {}

def Unlinked (eventId : Uuid) (db : Db) : Prop := ∀ link ∈ db .identityLinks, link.eventId ≠ eventId

def Linked (eventId identityId : Uuid) (db : Db) : Prop :=
  ∃ link ∈ db .identityLinks, link.eventId = eventId ∧ link.identityId = identityId

/-- The event was linked to the identity, unless others turn its link meanwhile. -/
abbrev SeesLinked (sight : Sight) (L : Ledger Db Write) (eventId identityId : Uuid) : Prop :=
  sight.shared ∨ sight (Linked eventId identityId) L

/-- An event is linked to an identity found or created. -/
inductive Links (app : App) (sight : Sight) (L : Ledger Db Write) (event : Event) :
    Uuid → List Write → Prop
  | found {identity matchRule link now} (hevent : Sees sight L event)
      (hunlinked : sight (Unlinked event.id) L)
      (hidentity : sight (fun db => identity ∈ db .identities) L)
      (hfinds : (rule app (fieldsOf event)).Finds matchRule identity)
      (hlink : LinksBy sight L event.id identity.id certain matchRule link) :
      Links app sight L event identity.id (link.writes now)
  | minted {identity matchRule link now id rid} (hevent : Sees sight L event)
      (hunlinked : sight (Unlinked event.id) L)
      (hmisses : sight (fun db => (rule app (fieldsOf event)).Misses app (fieldsOf event) db) L)
      (hmints : (rule app (fieldsOf event)).mints (fieldsOf event) id now =
        some (matchRule, identity))
      (hlink : LinksBy sight L event.id id certain matchRule link) :
      Links app sight L event id
        (.insert .identities identity ::
          .insert .receipts (receipt .identityCreated id .identity
            (.identityCreated matchRule none) (some event.id) (some id) .ok rid now) ::
          link.writes now)

theorem LinksBy.linked {sight : Sight} (lawful : sight.Lawful) {L : Ledger Db Write} {eventId identityId : Uuid}
    {matchConfidence : Decimal} {matchRule : MatchRule} {link : Upsert .identityLinks}
    (h : LinksBy sight L eventId identityId matchConfidence matchRule link) {ws : List Write}
    (hws : ∃ now, (ws.filter fun w => w.table = .identityLinks) = link.writes now) :
    SeesLinked sight (L.commit ws) eventId identityId := by
  by_cases hshared : sight.shared
  · exact .inl hshared
  · have hmem := Upsert.By.row_mem lawful hshared h (fun _ _ => rfl)
      (fun row => by simp [Row.merge]) hws.choose_spec
    refine .inr (lawful.now _ _ ⟨link.row, hmem, ?_⟩)
    cases link with
    | created row =>
        rw [Upsert.row, h.2]
        exact ⟨rfl, rfl⟩
    | updated loaded new =>
        obtain ⟨-, hevent, rfl⟩ := h
        exact ⟨hevent, rfl⟩

/-- The transaction links the event to the identity. -/
def LinksEvent (sight : Sight) (L : Ledger Db Write) (ws : List Write) (eventId identityId : Uuid)
    (matchRule : MatchRule) : Prop :=
  ∃ link now, LinksBy sight L eventId identityId certain matchRule link ∧
    (ws.filter fun w => w.table = .identityLinks) = link.writes now

theorem Links.linksEvent {sight : Sight} {app : App} {L : Ledger Db Write} {event : Event}
    {identityId : Uuid} {ws : List Write} (h : Links app sight L event identityId ws) :
    ∃ matchRule, LinksEvent sight L ws event.id identityId matchRule := by
  cases h with
  | @found identity matchRule link now hevent hunlinked hidentity hfinds hlink =>
      exact ⟨matchRule, link, now, hlink, Upsert.filter_writes ..⟩
  | @minted identity matchRule link now _ rid hevent hunlinked hmisses hmints hlink =>
      refine ⟨matchRule, link, now, hlink, ?_⟩
      rw [List.filter_cons_of_neg (by simp [Write.table]), List.filter_cons_of_neg
        (by simp [Write.table]), Upsert.filter_writes]

theorem LinksEvent.linked {sight : Sight} (lawful : sight.Lawful) {L : Ledger Db Write}
    {ws : List Write} {eventId identityId : Uuid} {matchRule : MatchRule}
    (h : LinksEvent sight L ws eventId identityId matchRule) :
    SeesLinked sight (L.commit ws) eventId identityId := by
  obtain ⟨link, now, hlink, hwrites⟩ := h
  exact hlink.linked lawful ⟨now, hwrites⟩

theorem Links.linked {sight : Sight} (lawful : sight.Lawful) {app : App} {L : Ledger Db Write}
    {event : Event} {identityId : Uuid} {ws : List Write} (h : Links app sight L event identityId ws) :
    SeesLinked sight (L.commit ws) event.id identityId := by
  obtain ⟨matchRule, hlinks⟩ := h.linksEvent
  exact hlinks.linked lawful

/-- The review row of an event: a pending one, or one whose proposal is brought up to date. -/
def QueuesBy (sight : Sight) (L : Ledger Db Write) (eventId : Uuid)
    (candidateIdentityId : Option Uuid) (reason : String) : Upsert .manualReviewQueue → Prop :=
  Upsert.By sight L (fun review : ManualReviewQueue => review.eventId = eventId)
    (fun id => ({ id, eventId, candidateIdentityId, reason } : ManualReviewQueue))
    fun review : ManualReviewQueue => { review with candidateIdentityId, reason }

/-- What a reviewer is shown of an event that no rule links. -/
inductive Proposes (app : App) (sight : Sight) (L : Ledger Db Write) (fields : IdentityFields) :
    Option Uuid → String → Prop
  | nobody (hrule : rule app fields = .noIdentityFields) :
      Proposes app sight L fields none "no_identity_fields"
  | candidate {name identity} (hrule : rule app fields = .fuzzyName name)
      (hcandidate : sight (fun db =>
        fuzzyCandidate app name (companyName fields) (named db) = some identity) L) :
      Proposes app sight L fields (proposal app name (companyName fields) identity).1
        (proposal app name (companyName fields) identity).2

theorem Proposes.mono {app : App} {sight : Sight} {L L' : Ledger Db Write}
    (hsight : ∀ P, sight P L → sight P L') {fields : IdentityFields}
    {candidateIdentityId : Option Uuid} {reason : String}
    (h : Proposes app sight L fields candidateIdentityId reason) :
    Proposes app sight L' fields candidateIdentityId reason := by
  cases h with
  | nobody hrule => exact .nobody hrule
  | candidate hrule hcandidate => exact .candidate hrule (hsight _ hcandidate)

/-- The receipt of a review row that is new. -/
def queuedReceipt (eventId : Uuid) (reason : String) (rid : Uuid) (now : Time) :
    Upsert .manualReviewQueue → List Write
  | .created entry =>
      [.insert .receipts (receipt .reviewQueued (ManualReviewQueue.id entry) .manualReview
        (.reviewQueued reason) (some eventId) none .ok rid now)]
  | .updated _ _ => []

/-- An event is parked for review. -/
inductive Parks (app : App) (sight : Sight) (L : Ledger Db Write) (event : Event) :
    List Write → Prop
  | intro {candidateIdentityId reason entry now rid} (hevent : Sees sight L event)
      (hunlinked : sight (Unlinked event.id) L)
      (hproposes : Proposes app sight L (fieldsOf event) candidateIdentityId reason)
      (hentry : QueuesBy sight L event.id candidateIdentityId reason entry) :
      Parks app sight L event (entry.writes now ++ queuedReceipt event.id reason rid now entry)

/-- The review row after a decision. -/
def resolved (review : ManualReviewQueue) (decision : String) (resolvedAt : Time) :
    ManualReviewQueue :=
  { review with status := .resolved, resolvedAt := some resolvedAt, resolution := some decision }

/-- A review is claimed, and its event linked to the identity of the decision. -/
inductive Resolves (sight : Sight) (L : Ledger Db Write) (decision : String)
    (review : ManualReviewQueue) : Uuid → List Write → Prop
  | merged {resolvedAt target link rid now}
      (hpending : sight (fun db => review ∈ db .manualReviewQueue) L ∧ review.status = .pending)
      (hdecision : decision = "merge_into")
      (htarget : sight (fun db => target ∈ db .identities) L)
      (hlink : LinksBy sight L review.eventId target.id certain .manualReviewResolve link) :
      Resolves sight L decision review target.id
        (.update .manualReviewQueue review (resolved review decision resolvedAt) ::
          (link.writes now ++
            [.insert .receipts (receipt .reviewResolved review.id .manualReview
              (.reviewResolved decision review.id) (some review.eventId) (some target.id) .ok rid
              now)]))
  | created {resolvedAt identity id rid link rid' now}
      (hpending : sight (fun db => review ∈ db .manualReviewQueue) L ∧ review.status = .pending)
      (hdecision : decision ≠ "merge_into")
      (hid : identity.id = id) (hnow : identity.createdAt = now)
      (hkeys : identity.primaryEmail = none ∧ identity.primaryPhone = none)
      (hlink : LinksBy sight L review.eventId id certain .manualReviewResolve link) :
      Resolves sight L decision review id
        (.update .manualReviewQueue review (resolved review decision resolvedAt) ::
          .insert .identities identity ::
          .insert .receipts (receipt .identityCreated id .identity
            (.identityCreated .manualReviewResolve (some review.id)) (some review.eventId)
            (some id) .ok rid now) ::
          (link.writes now ++
            [.insert .receipts (receipt .reviewResolved review.id .manualReview
              (.reviewResolved decision review.id) (some review.eventId) (some id) .ok rid' now)]))

theorem Resolves.linksEvent {sight : Sight} {L : Ledger Db Write} {decision : String}
    {review : ManualReviewQueue} {identityId : Uuid} {ws : List Write}
    (h : Resolves sight L decision review identityId ws) :
    LinksEvent sight L ws review.eventId identityId .manualReviewResolve := by
  cases h with
  | @merged resolvedAt target link rid now hpending hdecision htarget hlink =>
      refine ⟨link, now, hlink, ?_⟩
      rw [List.filter_cons_of_neg (by simp [Write.table]), List.filter_append,
        Upsert.filter_writes, List.filter_cons_of_neg (by simp [Write.table]), List.filter_nil,
        List.append_nil]
  | @created resolvedAt identity _ rid link rid' now hpending hdecision hid hnow hkeys hlink =>
      refine ⟨link, now, hlink, ?_⟩
      rw [List.filter_cons_of_neg (by simp [Write.table]), List.filter_cons_of_neg
        (by simp [Write.table]), List.filter_cons_of_neg (by simp [Write.table]),
        List.filter_append, Upsert.filter_writes, List.filter_cons_of_neg (by simp [Write.table]),
        List.filter_nil, List.append_nil]

theorem Resolves.linked {sight : Sight} (lawful : sight.Lawful) {L : Ledger Db Write}
    {decision : String} {review : ManualReviewQueue} {identityId : Uuid} {ws : List Write}
    (h : Resolves sight L decision review identityId ws) :
    SeesLinked sight (L.commit ws) review.eventId identityId :=
  h.linksEvent.linked lawful

end Resolve

/-! ### Interpretation -/

namespace Interpret

def Classified.fresh (fields : Classified) (eventId : Uuid) (now : Time) (id : Uuid) :
    Interpretation :=
  { id, eventId, label := fields.label, confidence := fields.confidence, reason := fields.reason
    modelVersion := fields.modelVersion, promptVersion := fields.promptVersion
    wasSkipped := fields.wasSkipped, tokenUsage := fields.tokenUsage, createdAt := now }

def Classified.edit (fields : Classified) (existing : Interpretation) : Interpretation :=
  { existing with
    label := fields.label
    confidence := fields.confidence
    reason := fields.reason
    modelVersion := fields.modelVersion
    promptVersion := fields.promptVersion
    wasSkipped := fields.wasSkipped
    tokenUsage := fields.tokenUsage }

def InterpretsBy (sight : Sight) (L : Ledger Db Write) (eventId : Uuid) (fields : Classified)
    (now : Time) : Upsert .interpretations → Prop :=
  Upsert.By sight L (fun row : Interpretation => row.eventId = eventId) (fields.fresh eventId now)
    fields.edit

/-- The interpretation of an event. -/
inductive Interprets (sight : Sight) (L : Ledger Db Write) (event : Event) (fields : Classified) :
    Interpretation → List Write → Prop
  | intro {interpretation : Upsert .interpretations} {rid now} (hevent : Sees sight L event)
      (hstorable : fields.storable = true)
      (hrow : InterpretsBy sight L event.id fields now interpretation) :
      Interprets sight L event fields interpretation.row
        (interpretation.writes now ++
          [.insert .receipts (receipt .interpreted interpretation.row.id .interpretation
            (.interpreted (Interpretation.label interpretation.row)
              (Interpretation.confidence interpretation.row)
              (Interpretation.wasSkipped interpretation.row)
              (Interpretation.promptVersion interpretation.row)) (some event.id) none .ok rid now)])

/-- An event enters the dead letter queue. -/
inductive DeadLetters (sight : Sight) (L : Ledger Db Write) (event : Event) : List Write → Prop
  | intro {dlq : DeadLetterQueue} {stage retryCount simulated rid now} (hevent : Sees sight L event)
      (heventId : dlq.eventId = event.id) (hopen : dlq.resolved = false)
      (hnow : dlq.createdAt = now) :
      DeadLetters sight L event
        [.insert .deadLetterQueue dlq,
          .insert .receipts (receipt .deadLettered dlq.id .deadLetter
            (.deadLettered stage retryCount simulated) (some event.id) none .error rid now)]

/-- A replay closes a dead letter. -/
inductive Revives (sight : Sight) (L : Ledger Db Write) (eventId identityId : Uuid) :
    List Write → Prop
  | intro {dlq : DeadLetterQueue} {stage rid now}
      (hdlq : sight (fun db => dlq ∈ db .deadLetterQueue) L)
      (hevent : dlq.eventId = eventId) (hopen : dlq.resolved = false) :
      Revives sight L eventId identityId
        (saved .deadLetterQueue dlq ({ dlq with resolved := true } : DeadLetterQueue) now ++
          [.insert .receipts (receipt .deadLetterResolved dlq.id .deadLetter
            (.deadLetterResolved stage) (some eventId) (some identityId) .ok rid now)])

end Interpret

/-! ### Scoring and acting -/

namespace Scoring

/-- The scored columns of a row. -/
structure Columns where
  identityId : Uuid
  score : Option Int
  features : Features
  policyVersion : String
  decision : String

def Columns.fresh (columns : Columns) (eventId : Uuid) (now : Time) (id : Uuid) : Score :=
  { id, eventId, identityId := columns.identityId, score := columns.score
    features := columns.features, policyVersion := columns.policyVersion
    decision := columns.decision, createdAt := now }

def Columns.edit (columns : Columns) (row : Score) : Score :=
  { row with
    identityId := columns.identityId
    score := columns.score
    features := columns.features
    policyVersion := columns.policyVersion
    decision := columns.decision }

/-- The one statement of the upsert: it updates the row even if nothing changes. -/
def upsertWrites : Upsert .scores → List Write
  | .created row => [.insert .scores row]
  | .updated loaded new => [.update .scores loaded new]

def ScoresBy (sight : Sight) (L : Ledger Db Write) (eventId : Uuid) (columns : Columns) (now : Time) :
    Upsert .scores → Prop :=
  Upsert.By sight L (fun row : Score => row.eventId = eventId) (columns.fresh eventId now)
    columns.edit

/-- The score of an event, from its interpretation. -/
inductive Scores (app : App) (sight : Sight) (L : Ledger Db Write) (event : Event)
    (identityId : Uuid) (interpretation : Interpretation) : Score → List Write → Prop
  | intro {score decision features} {row : Score} {upsert : Upsert .scores} {rid now}
      (hevent : Sees sight L event) (hlinked : Resolve.SeesLinked sight L event.id identityId)
      (hscore : computeScore app.scoringPolicy interpretation.label interpretation.confidence
        event.source event.consent event.campaignId = some (score, decision, features))
      (hrow : ScoresBy sight L event.id
        ⟨identityId, score, features, app.scoringPolicy.policyVersion, decision⟩ now upsert)
      (heventId : row.eventId = event.id)
      (hread : sight (fun db => row ∈ (upsertWrites upsert).foldl Db.apply db .scores) L) :
      Scores app sight L event identityId interpretation row
        (upsertWrites upsert ++
          [.insert .receipts (receipt .scored row.id .score
            (.scored row.score row.decision row.policyVersion) (some event.id) (some identityId) .ok
            rid now)])

theorem Scores.mono {app : App} {sight : Sight} {L L' : Ledger Db Write}
    (hsight : ∀ P, sight P L → sight P L') {event : Event} {identityId : Uuid}
    {interpretation : Interpretation} {row : Score} {ws : List Write}
    (h : Scores app sight L event identityId interpretation row ws) :
    Scores app sight L' event identityId interpretation row ws := by
  obtain ⟨hevent, hlinked, hscore, hrow, heventId, hread⟩ := h
  exact .intro (hsight _ hevent) (hlinked.imp_right (hsight _)) hscore (hrow.mono hsight) heventId
    (hsight _ hread)

end Scoring

namespace Act

def LeadsBy (sight : Sight) (L : Ledger Db Write) (event : Event) (identityId : Uuid) (now : Time) :
    Upsert .leads → Prop :=
  Upsert.By sight L (fun lead : Lead => lead.identityId = identityId)
    (fun id => ({ id, identityId, sourceEventId := event.id, createdAt := now
                  updatedAt := now } : Lead))
    fun lead : Lead => { lead with sourceEventId := event.id, status := .routed }

/-- The route a routing rule gives a lead at an instant of the application clock. -/
def RoutesBy (sight : Sight) (L : Ledger Db Write) (leadId : Uuid) (rule : String × String × Int)
    (assignedAt : Time) : Upsert .routes → Prop :=
  Upsert.By sight L (fun route : Route => route.leadId = leadId)
    (fun id => ({ id, leadId, queue := rule.1, ruleMatched := rule.2.1, assignedAt
                  slaDeadline := assignedAt + hours rule.2.2 } : Route))
    fun route : Route =>
      { route with
        queue := rule.1
        ruleMatched := rule.2.1
        slaDeadline := assignedAt + hours rule.2.2 }

def TouchesBy (sight : Sight) (L : Ledger Db Write) (event : Event) (identityId : Uuid)
    (now updatedAt : Time) : Upsert .attributionTouches → Prop :=
  Upsert.By sight L (fun touch : AttributionTouch => touch.identityId = identityId)
    (fun id => Attribute.newTouch event identityId id now)
    fun touch : AttributionTouch =>
      if event.isEdit then Attribute.editTouch touch event updatedAt
      else Attribute.extendTouch touch event updatedAt

def decisionOf (score : Option Score) : String := (score.map Score.decision).getD "needs_review"

def labelOf (score : Option Score) : String :=
  (score.map fun score => score.features.label).getD "unknown"

/-- The writes of `act`, in their order. -/
def writes (event : Event) (identityId : Uuid) (decision : String) (lead : Upsert .leads)
    (route : Upsert .routes) (touch : Upsert .attributionTouches) (leadRid routeRid touchRid : Uuid)
    (now : Time) : List Write :=
  lead.inserts ++ saved .leads lead.loaded lead.row now ++ route.inserts ++
    saved .leads lead.row ({ (lead.row : Lead) with status := .routed } : Lead) now ++
    saved .routes route.loaded route.row now ++ touch.inserts ++
    saved .attributionTouches touch.loaded touch.row now ++
    [.insert .receipts (receipt (if lead.op = .created then .leadCreated else .leadUpdated)
        (Lead.id lead.row) .lead (.lead lead.op decision) (some event.id) (some identityId) .ok
        leadRid now),
      .insert .receipts (receipt (if route.op = .created then .routed else .routeUpdated)
        (Route.id route.row) .route (.route (Route.queue route.row) (Route.ruleMatched route.row)
          (Route.slaDeadline route.row)) (some event.id) (some identityId) .ok routeRid now),
      .insert .receipts (receipt
        (if lead.op = .created then .attributedCreated else .attributedUpdated)
        (AttributionTouch.id touch.row) .attributionTouch
        (.attributed (AttributionTouch.firstTouchAt touch.row)
          (AttributionTouch.lastTouchAt touch.row)) (some event.id) (some identityId) .ok touchRid
        now)]

section Writes

variable {event : Event} {identityId : Uuid} {decision : String} {lead : Upsert .leads}
  {route : Upsert .routes} {touch : Upsert .attributionTouches} {leadRid routeRid touchRid : Uuid}
  {now : Time}

theorem writes_leads :
    ((writes event identityId decision lead route touch leadRid routeRid touchRid now).filter
      fun w => w.table = .leads) = lead.writes now ++
        saved .leads lead.row ({ (lead.row : Lead) with status := .routed } : Lead) now := by
  simp only [writes, List.filter_append, Upsert.filter_inserts, filter_saved,
    route.filter_inserts_of_ne (s := .leads) (by decide),
    touch.filter_inserts_of_ne (s := .leads) (by decide),
    filter_saved_of_ne (t := .routes) (s := .leads) (by decide),
    filter_saved_of_ne (t := .attributionTouches) (s := .leads) (by decide)]
  simp [Write.table, Upsert.writes]

theorem writes_routes :
    ((writes event identityId decision lead route touch leadRid routeRid touchRid now).filter
      fun w => w.table = .routes) = route.writes now := by
  simp only [writes, List.filter_append, Upsert.filter_inserts, filter_saved,
    lead.filter_inserts_of_ne (s := .routes) (by decide),
    touch.filter_inserts_of_ne (s := .routes) (by decide),
    filter_saved_of_ne (t := .leads) (s := .routes) (by decide),
    filter_saved_of_ne (t := .attributionTouches) (s := .routes) (by decide)]
  simp [Write.table, Upsert.writes]

theorem writes_touches :
    ((writes event identityId decision lead route touch leadRid routeRid touchRid now).filter
      fun w => w.table = .attributionTouches) = touch.writes now := by
  simp only [writes, List.filter_append, Upsert.filter_inserts, filter_saved,
    lead.filter_inserts_of_ne (s := .attributionTouches) (by decide),
    route.filter_inserts_of_ne (s := .attributionTouches) (by decide),
    filter_saved_of_ne (t := .leads) (s := .attributionTouches) (by decide),
    filter_saved_of_ne (t := .routes) (s := .attributionTouches) (by decide)]
  simp [Write.table, Upsert.writes]

theorem inserts_subset :
    lead.inserts ⊆ writes event identityId decision lead route touch leadRid routeRid touchRid now ∧
      route.inserts ⊆
        writes event identityId decision lead route touch leadRid routeRid touchRid now ∧
      touch.inserts ⊆
        writes event identityId decision lead route touch leadRid routeRid touchRid now := by
  refine ⟨fun w hw => ?_, fun w hw => ?_, fun w hw => ?_⟩ <;> simp [writes, hw]

end Writes

/-- What `act` has seen of the database, and what it makes of it. -/
structure Grounds (app : App) (sight : Sight) (L : Ledger Db Write) (event : Event)
    (identityId : Uuid) (score : Option Score) (lead : Upsert .leads) (route : Upsert .routes)
    (touch : Upsert .attributionTouches) (now assignedAt updatedAt : Time) : Prop where
  seen : Sees sight L event
  linked : Resolve.SeesLinked sight L event.id identityId
  led : LeadsBy sight L event identityId now lead
  routed : RoutesBy sight L (Lead.id lead.row)
    (applyRoutingRule (decisionOf score) (labelOf score) app.routingRules) assignedAt route
  assigned : now ≤ assignedAt
  touched : TouchesBy sight L event identityId now updatedAt touch

theorem Grounds.mono {app : App} {sight : Sight} {L L' : Ledger Db Write}
    (hsight : ∀ P, sight P L → sight P L') {event : Event} {identityId : Uuid}
    {score : Option Score} {lead : Upsert .leads} {route : Upsert .routes}
    {touch : Upsert .attributionTouches} {now assignedAt updatedAt : Time}
    (h : Grounds app sight L event identityId score lead route touch now assignedAt updatedAt) :
    Grounds app sight L' event identityId score lead route touch now assignedAt updatedAt :=
  ⟨hsight _ h.seen, h.linked.imp_right (hsight _), h.led.mono hsight, h.routed.mono hsight, h.assigned,
    h.touched.mono hsight⟩

/-- An event is acted on: the lead, the route and the touch of its identity. -/
inductive Acts (app : App) (sight : Sight) (L : Ledger Db Write) (event : Event)
    (identityId : Uuid) (score : Option Score) : List Write → Prop
  | intro {lead route touch leadRid routeRid touchRid now assignedAt updatedAt}
      (h : Grounds app sight L event identityId score lead route touch now assignedAt updatedAt) :
      Acts app sight L event identityId score
        (writes event identityId (decisionOf score) lead route touch leadRid routeRid touchRid now)

end Act

/-! ### Escalation -/

namespace Escalation

/-- What a reader of leads writes of the routes it finds past their deadlines: for each the flag and
the receipt. -/
inductive Escalates (sight : Sight) (L : Ledger Db Write) : List Write → Prop
  | nil : Escalates sight L []
  | snoc {ws route identityId detectedAt rid now} (h : Escalates sight L ws)
      (hroute : sight (fun db => route ∈ db .routes) L) (hopen : route.escalated = false)
      (hnew : ∀ w ∈ ws, w.table = .routes → w.rowId ≠ route.id) :
      Escalates sight L (ws ++
        [.update .routes route (({ route with escalated := true } : Route)),
          .insert .receipts (receipt .escalated route.id .route
            (.escalated route.queue route.ruleMatched route.slaDeadline detectedAt) none
            (some identityId) .ok rid now)])

theorem Escalates.mono {sight : Sight} {L L' : Ledger Db Write}
    (hsight : ∀ P, sight P L → sight P L') {ws : List Write} (h : Escalates sight L ws) :
    Escalates sight L' ws := by
  induction h with
  | nil => exact .nil
  | snoc _ hroute hopen hnew ih => exact .snoc ih (hsight _ hroute) hopen hnew

/-- A route that the session sees open is one it has not flagged. -/
theorem Escalates.open_of_view {sight : Sight} {L : Ledger Db Write} {ws : List Write}
    (h : Escalates sight L ws) {db : Db} {route : Route} (hroute : route ∈ ws.foldl Db.apply db .routes)
    (hopen : route.escalated = false) :
    route ∈ db .routes ∧ ∀ w ∈ ws, w.table = .routes → w.rowId ≠ route.id := by
  induction h generalizing route with
  | nil => exact ⟨hroute, by simp⟩
  | @snoc ws flagged identityId detectedAt rid now _ _ hflagged _ ih =>
      rw [List.foldl_append, List.foldl_cons, List.foldl_cons, List.foldl_nil,
        Db.apply_of_ne _ (by simp [Write.table]), Db.apply_update_self, Db.mem_updated] at hroute
      obtain ⟨current, hcurrent, heq⟩ := hroute
      by_cases hid : Row.id current = Row.id (t := .routes) flagged
      · rw [if_pos hid] at heq
        rw [heq] at hopen
        simp [Row.merge, Row.column, hflagged] at hopen
      · rw [if_neg hid] at heq
        subst heq
        obtain ⟨hmem, hnew⟩ := ih hcurrent hopen
        refine ⟨hmem, fun w hw htable => ?_⟩
        simp only [List.mem_append, List.mem_cons, List.not_mem_nil, or_false] at hw
        rcases hw with hw | rfl | rfl
        · exact hnew w hw htable
        · exact fun h => hid h.symm
        · simp [Write.table] at htable

end Escalation

/-! ### The tables of a transaction -/

section Tables

variable {app : App} {sight : Sight} {L : Ledger Db Write} {ws : List Write}

attribute [local simp] Write.table names_saved Upsert.names_inserts Upsert.names_writes

theorem Ingest.Creates.tables {model : EventIn} {payload : Json.Fields} {id : Uuid}
    (h : Ingest.Creates app model payload id ws) : Names ws [.events, .receipts] := by
  cases h
  simp

theorem Ingest.Edits.tables {model : EventIn} {payload : Json.Fields} {existing : Event}
    (h : Ingest.Edits app sight L model payload existing ws) : Names ws [.events, .receipts] := by
  cases h
  simp

theorem Ingest.Rejects.tables (h : Ingest.Rejects app ws) : Names ws [.events, .receipts] := by
  cases h
  simp

theorem Resolve.Links.tables {event : Event} {identityId : Uuid}
    (h : Resolve.Links app sight L event identityId ws) :
    Names ws [.identities, .identityLinks, .receipts] := by
  cases h <;> simp

theorem Resolve.Parks.tables {event : Event} (h : Resolve.Parks app sight L event ws) :
    Names ws [.manualReviewQueue, .receipts] := by
  obtain @⟨_, _, entry, _, _, -, -, -, -⟩ := h
  cases entry <;> simp [Resolve.queuedReceipt]

theorem Resolve.Resolves.tables {decision : String} {review : ManualReviewQueue}
    {identityId : Uuid} (h : Resolve.Resolves sight L decision review identityId ws) :
    Names ws [.manualReviewQueue, .identities, .identityLinks, .receipts] := by
  cases h <;> simp

theorem Interpret.Interprets.tables {event : Event} {fields : Interpret.Classified}
    {interpretation : Interpretation}
    (h : Interpret.Interprets sight L event fields interpretation ws) :
    Names ws [.interpretations, .receipts] := by
  cases h
  simp

theorem Interpret.DeadLetters.tables {event : Event} (h : Interpret.DeadLetters sight L event ws) :
    Names ws [.deadLetterQueue, .receipts] := by
  cases h
  simp

theorem Interpret.Revives.tables {eventId identityId : Uuid}
    (h : Interpret.Revives sight L eventId identityId ws) :
    Names ws [.deadLetterQueue, .receipts] := by
  cases h
  simp

theorem Scoring.Scores.tables {event : Event} {identityId : Uuid} {interpretation : Interpretation}
    {score : Score} (h : Scoring.Scores app sight L event identityId interpretation score ws) :
    Names ws [.scores, .receipts] := by
  obtain @⟨_, _, _, _, upsert, -, -, -, -, -, -, -⟩ := h
  cases upsert <;> simp [Scoring.upsertWrites]

theorem Act.Acts.tables {event : Event} {identityId : Uuid} {score : Option Score}
    (h : Act.Acts app sight L event identityId score ws) :
    Names ws [.leads, .routes, .attributionTouches, .receipts] := by
  cases h
  simp [Act.writes]

theorem Escalation.Escalates.tables (h : Escalation.Escalates sight L ws) :
    Names ws [.routes, .receipts] := by
  induction h with
  | nil => simp
  | snoc _ _ _ _ ih => simp [ih]

end Tables

/-! ### The receipts of a transaction -/

/-- The transaction writes receipts of these actions only. -/
def Records (ws : List Write) (actions : List ActionType) : Prop :=
  ∀ receipt ∈ inserted .receipts ws, Receipt.actionType receipt ∈ actions

theorem Records.ne {ws : List Write} {actions : List ActionType} (h : Records ws actions)
    {receipt : Receipt} (hreceipt : receipt ∈ inserted .receipts ws) {action : ActionType}
    (haction : action ∉ actions) : receipt.actionType ≠ action := by
  rintro rfl
  exact haction (h receipt hreceipt)

section Receipts

variable {app : App} {sight : Sight} {L : Ledger Db Write} {ws : List Write}

attribute [local simp] Records inserted_cons_of_ne Upsert.inserted_inserts_of_ne receipt

theorem Ingest.Creates.records {model : EventIn} {payload : Json.Fields} {id : Uuid}
    (h : Ingest.Creates app model payload id ws) : Records ws [.eventCreated] := by
  cases h
  simp

theorem Ingest.Edits.records {model : EventIn} {payload : Json.Fields} {existing : Event}
    (h : Ingest.Edits app sight L model payload existing ws) : Records ws [.eventEdited] := by
  cases h
  simp

theorem Ingest.Rejects.records (h : Ingest.Rejects app ws) : Records ws [.eventRejected] := by
  cases h
  simp

theorem Resolve.Links.records {event : Event} {identityId : Uuid}
    (h : Resolve.Links app sight L event identityId ws) : Records ws [.identityCreated] := by
  cases h <;> simp

theorem Resolve.Parks.records {event : Event} (h : Resolve.Parks app sight L event ws) :
    Records ws [.reviewQueued] := by
  obtain @⟨_, _, entry, _, _, -, -, -, -⟩ := h
  cases entry <;> simp [Resolve.queuedReceipt]

theorem Resolve.Resolves.records {decision : String} {review : ManualReviewQueue}
    {identityId : Uuid} (h : Resolve.Resolves sight L decision review identityId ws) :
    Records ws [.identityCreated, .reviewResolved] := by
  cases h <;> simp

theorem Interpret.Interprets.records {event : Event} {fields : Interpret.Classified}
    {interpretation : Interpretation}
    (h : Interpret.Interprets sight L event fields interpretation ws) :
    Records ws [.interpreted] := by
  cases h
  simp

theorem Interpret.DeadLetters.records {event : Event}
    (h : Interpret.DeadLetters sight L event ws) : Records ws [.deadLettered] := by
  cases h
  simp

theorem Interpret.Revives.records {eventId identityId : Uuid}
    (h : Interpret.Revives sight L eventId identityId ws) : Records ws [.deadLetterResolved] := by
  cases h
  simp

theorem Scoring.Scores.records {event : Event} {identityId : Uuid}
    {interpretation : Interpretation} {score : Score}
    (h : Scoring.Scores app sight L event identityId interpretation score ws) :
    Records ws [.scored] := by
  obtain @⟨_, _, _, _, upsert, -, -, -, -, -, -, -⟩ := h
  cases upsert <;> simp [Scoring.upsertWrites]

theorem Act.Acts.records {event : Event} {identityId : Uuid} {score : Option Score}
    (h : Act.Acts app sight L event identityId score ws) : Records ws
      [.leadCreated, .leadUpdated, .routed, .routeUpdated, .attributedCreated,
        .attributedUpdated] := by
  obtain @⟨lead, route, touch, _, _, _, _, _, _, -⟩ := h
  cases lead <;> cases route <;> simp [Act.writes]

theorem Escalation.Escalates.records (h : Escalation.Escalates sight L ws) :
    Records ws [.escalated] := by
  induction h with
  | nil => simp
  | snoc _ _ _ _ ih =>
      intro receipt hreceipt
      simp only [inserted_append, inserted_cons_update, inserted_cons_insert, inserted_nil,
        List.mem_append, List.mem_singleton] at hreceipt
      rcases hreceipt with hreceipt | rfl
      · exact ih receipt hreceipt
      · simp

end Receipts

/-- Every transaction of the service. -/
inductive Transaction (app : App) (sight : Sight) (L : Ledger Db Write) (ws : List Write) : Prop
  | creates {model payload id} (h : Ingest.Creates app model payload id ws)
  | edits {model payload existing} (h : Ingest.Edits app sight L model payload existing ws)
  | rejects (h : Ingest.Rejects app ws)
  | links {event identityId} (h : Resolve.Links app sight L event identityId ws)
  | parks {event} (h : Resolve.Parks app sight L event ws)
  | resolves {decision review identityId}
      (h : Resolve.Resolves sight L decision review identityId ws)
  | interprets {event fields interpretation}
      (h : Interpret.Interprets sight L event fields interpretation ws)
  | scores {event identityId interpretation score}
      (h : Scoring.Scores app sight L event identityId interpretation score ws)
  | acts {event identityId score} (h : Act.Acts app sight L event identityId score ws)
  | deadLetters {event} (h : Interpret.DeadLetters sight L event ws)
  | revives {eventId identityId} (h : Interpret.Revives sight L eventId identityId ws)
  | escalates (h : Escalation.Escalates sight L ws)

end DemandSignal
