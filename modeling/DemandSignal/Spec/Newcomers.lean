import DemandSignal.Spec.Candidates
import DemandSignal.Spec.Rulings
import Mathlib.Data.List.DropRight

/-!
# Newcomers

Calls of `resolve_identity` on events with a name and no other key. Each searches the identities for a
similar one, and commits an identity of its own if it has found none.
-/

namespace DemandSignal

open Txn Program Resolve

variable {app : App} {sight : Sight} {L L₀ L' : Ledger Db Write} {ws : List Write}

theorem Python.stripChars_eq (cs : List Char) :
    stripChars cs = (cs.dropWhile isSpace).rdropWhile isSpace := rfl

theorem Python.strip_strip (s : String) : strip (strip s) = strip s := by
  unfold strip
  rw [String.toList_ofList]
  have hfront : (stripChars s.toList).dropWhile isSpace = stripChars s.toList := by
    rw [List.dropWhile_eq_self_iff]
    intro hlength
    have hpre : stripChars s.toList <+: s.toList.dropWhile isSpace := List.rdropWhile_prefix _ _
    rw [hpre.getElem hlength]
    exact List.dropWhile_eq_self_iff.mp (List.dropWhile_idempotent isSpace _)
      (hlength.trans_le hpre.length_le)
  rw [stripChars_eq (stripChars s.toList), hfront, stripChars_eq, List.rdropWhile_idempotent]

namespace Resolve

/-- The name of an event, its identity and the company its search compares. -/
theorem rule_fuzzyName {fields : IdentityFields} {name : String} (h : rule app fields = .fuzzyName name) :
    name = fuzzyName fields ∧ name ≠ "" := by
  unfold rule at h
  split at h
  · cases h
  split at h
  · cases h
  split at h
  · cases h
  · cases h
    exact ⟨rfl, ‹_›⟩

/-- What the search compares of two events. -/
def likeness (app : App) (fields other : IdentityFields) : Decimal :=
  fuzzySimilarity app (fuzzyName fields) (fuzzyName other) (companyName fields) (companyName other)

/-- Each event would find the other. -/
def Similar (app : App) (fields other : IdentityFields) : Prop :=
  below (.hundredths 0) (likeness app fields other) = true ∧
    below (.hundredths 0) (likeness app other fields) = true

instance (app : App) (fields other : IdentityFields) : Decidable (Similar app fields other) :=
  inferInstanceAs (Decidable (_ ∧ _))

/-- The identity of an event without another key than its name. -/
def Introduces (fields : IdentityFields) (identity : Identity) : Prop :=
  identity.displayName = some (fuzzyName fields) ∧ identity.primaryCompany = companyName fields

theorem Introduces.similarity {fields other : IdentityFields} {identity : Identity}
    (h : Introduces other identity) (hname : fuzzyName other ≠ "") :
    fuzzySimilarity app (fuzzyName fields) (identityName identity) (companyName fields)
      identity.primaryCompany = likeness app fields other := by
  obtain ⟨hdisplay, hcompany⟩ := h
  have hidentity : identityName identity = fuzzyName other := by
    rw [identityName, hdisplay, Python.orElse, if_neg hname]
    exact Python.strip_strip _
  rw [hidentity, hcompany, likeness]

attribute [local irreducible] companyName

/-- What a commit of such an event's call introduces. -/
theorem Links.introduces {event : Event} {identityId : Uuid} {name : String}
    (h : Links app sight L event identityId ws) (hrule : rule app (fieldsOf event) = .fuzzyName name) :
    ∃ identity : Identity, inserted .identities ws = [identity] ∧ identity.id = identityId ∧
      Introduces (fieldsOf event) identity ∧
        LinksEvent sight L ws event.id identityId .fuzzyNameCompany := by
  cases h with
  | found hevent hunlinked hidentity hfinds =>
      rw [hrule] at hfinds
      exact hfinds.elim
  | @minted identity matchRule link now _ rid hevent hunlinked hmisses hmints hlink =>
      rw [hrule, Rule.mints] at hmints
      cases hmints
      refine ⟨{ id := identityId, displayName := some name
                primaryCompany := companyName (fieldsOf event), createdAt := now }, ?_, rfl,
        ⟨congrArg some (rule_fuzzyName hrule).1, rfl⟩, link, now, hlink, ?_⟩
      · simp [inserted_cons_of_ne, Upsert.inserted_inserts_of_ne]
      · rw [List.filter_cons_of_neg (by simp [Write.table]), List.filter_cons_of_neg
          (by simp [Write.table]), Upsert.filter_writes]

end Resolve

/-! ### Strangers -/

/-- An event of the database with a name, and neither an email nor a phone. -/
structure Stranger (app : App) (db : Db) where
  event : Event
  name : String
  mem : event ∈ db .events
  rule_eq : rule app (fieldsOf event) = .fuzzyName name

/-- The calls of `resolve_identity` on strangers. -/
def strangers (app : App) (db : Db) :
    Service (Stranger app db) Db Write Error Question Reply Resolution where
  program stranger := resolveIdentity app stranger.event

/-- A call that commits an identity of its own has the database it changes without a similar one. -/
def Unmatched (app : App) (commit : Commit Db Write) : Prop :=
  ∀ identity ∈ inserted .identities commit.writes, ∀ name ∈ Identity.displayName identity,
    fuzzyCandidate app name (Identity.primaryCompany identity) (named commit.before) = none

instance (app : App) (commit : Commit Db Write) : Decidable (Unmatched app commit) :=
  inferInstanceAs (Decidable (∀ identity ∈ inserted .identities commit.writes,
    ∀ name ∈ Identity.displayName identity, fuzzyCandidate app name (Identity.primaryCompany identity)
      (named commit.before) = none))

/-- An event without a link has been linked to an identity that was not there. -/
def Newcomer (before after : Db) (eventId : Uuid) : Prop :=
  Unlinked eventId before ∧
    ∃ identityId, Linked eventId identityId after ∧ ¬ before.Has .identities identityId

instance (before after : Db) (eventId : Uuid) : Decidable (Newcomer before after eventId) :=
  decidable_of_iff ((∀ link ∈ before .identityLinks, IdentityLink.eventId link ≠ eventId) ∧
      ∃ link ∈ after .identityLinks, IdentityLink.eventId link = eventId ∧
        ∀ identity ∈ before .identities, Identity.id identity ≠ IdentityLink.identityId link) <| by
    refine and_congr_right fun _ => ⟨?_, ?_⟩
    · rintro ⟨link, hlink, hevent, hnew⟩
      exact ⟨_, ⟨link, hlink, hevent, rfl⟩, fun ⟨identity, hidentity, hid⟩ => hnew identity hidentity hid⟩
    · rintro ⟨_, ⟨link, hlink, hevent, rfl⟩, hnew⟩
      exact ⟨link, hlink, hevent, fun identity hidentity hid => hnew ⟨identity, hidentity, hid⟩⟩

/-- The event has a review, pending or decided. -/
def Queued (db : Db) (eventId : Uuid) : Prop :=
  ∃ review ∈ db .manualReviewQueue, ManualReviewQueue.eventId review = eventId

theorem Newcomer.of_links {db after after' : Db} {eventId : Uuid} (h : Newcomer db after eventId)
    (hlinks : ∀ link ∈ after .identityLinks, IdentityLink.eventId link = eventId →
      link ∈ after' .identityLinks) : Newcomer db after' eventId := by
  obtain ⟨hunlinked, identityId, ⟨link, hlink, hevent, hidentity⟩, hnew⟩ := h
  exact ⟨hunlinked, identityId, ⟨link, hlinks link hlink hevent, hevent, hidentity⟩, hnew⟩

theorem Extends.log_length_le (h : Extends L L') : L.log.length ≤ L'.log.length := by
  induction h with
  | refl => exact le_rfl
  | tail _ hlast ih =>
      obtain ⟨ws, rfl⟩ := hlast
      rw [Ledger.commit, List.length_append]
      omega

/-- The commits since then, after one more. -/
theorem Extends.drop_commit (h : Extends L₀ L) (ws : List Write) :
    (L.commit ws).log.drop L₀.log.length = L.log.drop L₀.log.length ++ [⟨L.db, ws⟩] :=
  List.drop_append_of_le_length h.log_length_le

namespace Stranger

/-- What a call commits. -/
def Commits (app : App) (db : Db) (s : Session Write Reply) (L : Ledger Db Write) : Prop :=
  Ready s L ∧ ∃ stranger : Stranger app db,
    (∃ identityId, Links app once L stranger.event identityId s.pending) ∨
      Parks app once L stranger.event s.pending

/-- The events that had no link are linked to identities that introduce them, and no two of them are
similar if every call has committed unmatched. -/
structure Introduced (app : App) (L₀ L : Ledger Db Write) : Prop where
  extend : Extends L₀ L
  distinct : L.db.Distinct
  links : ∀ stranger : Stranger app L₀.db, Unlinked stranger.event.id L₀.db →
    ∀ link ∈ L.db .identityLinks, IdentityLink.eventId link = stranger.event.id →
      ∃ identity ∈ L.db .identities, Identity.id identity = IdentityLink.identityId link ∧
        ¬ L₀.db.Has .identities (IdentityLink.identityId link) ∧
        Introduces (fieldsOf stranger.event) identity
  apart : (∀ commit ∈ L.log.drop L₀.log.length, Unmatched app commit) →
    ∀ stranger other : Stranger app L₀.db, stranger.event.id ≠ other.event.id →
      Newcomer L₀.db L.db stranger.event.id → Newcomer L₀.db L.db other.event.id →
        ¬ Similar app (fieldsOf stranger.event) (fieldsOf other.event)

/-- Two strangers that are one event. -/
theorem eq_of_id (hdistinct : L.db.Distinct) {stranger other : Stranger app L.db}
    (h : stranger.event.id = other.event.id) : stranger.event = other.event :=
  hdistinct.eq_of_id (t := .events) stranger.mem other.mem h

theorem Introduced.start (hdistinct : L₀.db.Distinct) : Introduced app L₀ L₀ where
  extend := .refl
  distinct := hdistinct
  links stranger hunlinked link hlink hevent := absurd hevent (hunlinked link hlink)
  apart _ stranger other _ hnewcomer := by
    obtain ⟨hunlinked, identityId, ⟨link, hlink, hevent, -⟩, -⟩ := hnewcomer
    exact absurd hevent (hunlinked link hlink)

/-- A commit that introduces nobody. -/
theorem Introduced.of_parks (h : Introduced app L₀ L) {event : Event}
    (hparks : Parks app once L event ws) (happ : Applicable ws L.db) :
    Introduced app L₀ (L.commit ws) := by
  have hlinks : (L.commit ws).db .identityLinks = L.db .identityLinks :=
    commit_of_untouched (hparks.tables.ne (by decide))
  have hidentities : (L.commit ws).db .identities = L.db .identities :=
    commit_of_untouched (hparks.tables.ne (by decide))
  refine ⟨h.extend.trans (Extends.commit L ws), h.distinct.foldl happ, fun stranger hunlinked => ?_,
    fun hseen stranger other hne hstranger hother => ?_⟩
  · rw [hlinks, hidentities]
    exact h.links stranger hunlinked
  · refine h.apart (fun commit hcommit => hseen commit ?_) stranger other hne
      (hstranger.of_links fun link hlink _ => by rwa [← hlinks])
      (hother.of_links fun link hlink _ => by rwa [← hlinks])
    rw [h.extend.drop_commit]
    exact List.mem_append_left _ hcommit

/-- The link of an event after the commit of a call on another. -/
theorem mem_of_links {stranger : Stranger app L₀.db} {identityId : Uuid}
    (hlinks : Links app once L stranger.event identityId ws) (hdistinct : L.db.Distinct)
    {link : IdentityLink} (hlink : link ∈ (L.commit ws).db .identityLinks)
    (hne : link.eventId ≠ stranger.event.id) : link ∈ L.db .identityLinks := by
  obtain ⟨identity, -, -, -, hevent⟩ := hlinks.introduces stranger.rule_eq
  obtain hold | ⟨-, heventId, -⟩ | ⟨loaded, current, -, -, -, -, heventId, rfl⟩ :=
    hevent.cases_commit lawful_once hdistinct hlink
  · exact hold
  · exact absurd heventId hne
  · exact absurd heventId hne

/-- A search that finds nobody has found no newcomer to be like the name. -/
theorem Introduced.unlike (h : Introduced app L₀ L) {fields : IdentityFields}
    (hnone : fuzzyCandidate app (fuzzyName fields) (companyName fields) (named L.db) = none)
    {other : Stranger app L₀.db} (hother : Newcomer L₀.db L.db other.event.id) :
    ¬ below (.hundredths 0) (likeness app fields (fieldsOf other.event)) = true := by
  obtain ⟨hunlinked, identityId, ⟨link, hlink, heventId, -⟩, -⟩ := hother
  obtain ⟨identity, hidentity, -, -, hintroduces⟩ := h.links other hunlinked link hlink heventId
  have hnamed : identity ∈ named L.db :=
    List.mem_filter.mpr ⟨hidentity, by rw [hintroduces.1]; rfl⟩
  have hzero := fuzzyCandidate_eq_none.mp hnone identity hnamed
  obtain ⟨hname, hne⟩ := rule_fuzzyName other.rule_eq
  rw [hname] at hne
  rw [← hintroduces.similarity hne, fuzzySimilarity_identity, hzero]
  simp [below]

/-- A call that commits introduces its event, and if it commits unmatched no one like it is there. -/
theorem Introduced.of_links (hdistinct : L₀.db.Distinct) (h : Introduced app L₀ L)
    {stranger : Stranger app L₀.db} {identityId : Uuid}
    (hlinks : Links app once L stranger.event identityId ws) (happ : Applicable ws L.db) :
    Introduced app L₀ (L.commit ws) := by
  have hextend : Extends L₀ (L.commit ws) := h.extend.trans (Extends.commit L ws)
  obtain ⟨identity, hinserted, rfl, hintroduces, hevent⟩ := hlinks.introduces stranger.rule_eq
  have hidentities : (L.commit ws).db .identities = L.db .identities ++ [identity] := by
    rw [← hinserted]
    exact Db.identities_foldl ws L.db
  have hnew : ¬ L₀.db.Has .identities identity.id := by
    intro hhas
    obtain ⟨old, hold, hid⟩ := h.extend.has hhas
    exact happ.id_ne (t := .identities) (s := .identities) hold
      (mem_inserted.mp (by rw [hinserted]; exact List.mem_singleton_self _)) hid.symm
  refine ⟨hextend, h.distinct.foldl happ, fun other hunlinked link hlink heventId => ?_,
    fun hseen => ?_⟩
  · rw [hidentities]
    have hold : ∀ old ∈ L.db .identityLinks, IdentityLink.eventId old = other.event.id →
        IdentityLink.identityId old = link.identityId →
        ∃ row ∈ L.db .identities ++ [identity], Identity.id row = link.identityId ∧
          ¬ L₀.db.Has .identities link.identityId ∧ Introduces (fieldsOf other.event) row := by
      intro old hold holdEvent holdIdentity
      obtain ⟨row, hrow, hid, hnew, hrow'⟩ := h.links other hunlinked old hold holdEvent
      rw [holdIdentity] at hid hnew
      exact ⟨row, List.mem_append_left _ hrow, hid, hnew, hrow'⟩
    have hown : link.eventId = stranger.event.id → link.identityId = identity.id →
        ∃ row ∈ L.db .identities ++ [identity], Identity.id row = link.identityId ∧
          ¬ L₀.db.Has .identities link.identityId ∧ Introduces (fieldsOf other.event) row := by
      intro hstranger hidentity
      rw [hidentity, eq_of_id hdistinct (heventId.symm.trans hstranger)]
      exact ⟨identity, List.mem_append_right _ (List.mem_singleton_self _), rfl, hnew, hintroduces⟩
    obtain hlink | ⟨-, hstranger, hidentity, -⟩ |
        ⟨loaded, current, -, hcurrent, -, -, hstranger, rfl⟩ :=
      hevent.cases_commit lawful_once h.distinct hlink
    · exact hold link hlink heventId rfl
    · exact hown hstranger hidentity
    · -- the update leaves the identity as it is, or sets the new one
      by_cases hsame : identity.id = loaded.identityId
      · exact hold current hcurrent heventId (by simp [Row.merge, Row.column, turn, hsame])
      · exact hown hstranger (by simp [Row.merge, Row.column, turn, hsame])
  · have hseen' : ∀ commit ∈ L.log.drop L₀.log.length, Unmatched app commit := fun commit hcommit =>
      hseen commit (by rw [h.extend.drop_commit]; exact List.mem_append_left _ hcommit)
    have hunmatched : Unmatched app ⟨L.db, ws⟩ := hseen _ (by
      rw [h.extend.drop_commit]
      exact List.mem_append_right _ (List.mem_singleton_self _))
    have hnone := hunmatched identity (by rw [hinserted]; exact List.mem_singleton_self _) _
      hintroduces.1
    rw [hintroduces.2] at hnone
    have hunlike : ∀ other : Stranger app L₀.db, other.event.id ≠ stranger.event.id →
        Newcomer L₀.db (L.commit ws).db other.event.id →
        ¬ below (.hundredths 0) (likeness app (fieldsOf stranger.event) (fieldsOf other.event)) = true :=
      fun other hne hother => h.unlike hnone (hother.of_links fun link hlink heventId =>
        mem_of_links hlinks h.distinct hlink (heventId ▸ hne))
    intro first second hne hfirst hsecond hsimilar
    by_cases hfirstId : first.event.id = stranger.event.id
    · rw [eq_of_id hdistinct hfirstId] at hsimilar
      exact hunlike second (fun hid => hne (hfirstId.trans hid.symm)) hsecond hsimilar.1
    by_cases hsecondId : second.event.id = stranger.event.id
    · rw [eq_of_id hdistinct hsecondId] at hsimilar
      exact hunlike first hfirstId hfirst hsimilar.2
    · exact h.apart hseen' first second hne
        (hfirst.of_links fun link hlink heventId =>
          mem_of_links hlinks h.distinct hlink (heventId ▸ hfirstId))
        (hsecond.of_links fun link hlink heventId =>
          mem_of_links hlinks h.distinct hlink (heventId ▸ hsecondId)) hsimilar

/-! ### Calls -/

/-- A call that returns has linked its event or queued it for review. -/
def Ends (stranger : Stranger app L₀.db) : Post Db Write Error Reply Resolution := fun r _ L =>
  (∃ resolution, r = .ok resolution) →
    (∃ identityId, Linked stranger.event.id identityId L.db) ∨ Queued L.db stranger.event.id

theorem Ends.extends {stranger : Stranger app L₀.db} {r : Except Error Resolution}
    {s t : Session Write Reply} (h : Ends stranger r s L) (hextends : Extends L L') :
    Ends stranger r t L' := by
  intro hok
  have hlink : Row.Static (t := .identityLinks) IdentityLink.eventId := fun _ _ _ => rfl
  have hreview : Row.Static (t := .manualReviewQueue) ManualReviewQueue.eventId := fun _ _ _ => rfl
  obtain ⟨identityId, link, hmem, hevent, -⟩ | ⟨review, hmem, hevent⟩ := h hok
  · obtain ⟨link', hmem', hkept⟩ := hextends.exists_kept hmem
    exact .inl ⟨_, link', hmem', (hkept.static hlink).trans hevent, rfl⟩
  · obtain ⟨review', hmem', hkept⟩ := hextends.exists_kept hmem
    exact .inr ⟨review', hmem', (hkept.static hreview).trans hevent⟩

/-- The link of an event is there once its transaction is committed. -/
theorem exists_linked_commit (lawful : sight.Lawful) {eventId identityId : Uuid} {matchRule : MatchRule}
    (h : LinksEvent sight L ws eventId identityId matchRule) :
    ∃ identityId, Linked eventId identityId (L.commit ws).db := by
  obtain ⟨link, now, hby, hwrites⟩ := h
  have hsub : link.inserts ⊆ ws := by
    intro w hw
    have hmem : w ∈ link.writes now := List.mem_append_left _ hw
    rw [← hwrites] at hmem
    exact List.mem_of_mem_filter hmem
  obtain ⟨row, hrow, hkept⟩ := Upsert.By.exists_kept lawful hby ws hsub
  have hstatic : Row.Static (t := .identityLinks) IdentityLink.eventId := fun _ _ _ => rfl
  refine ⟨_, row, hrow, (hkept.static hstatic).trans ?_, rfl⟩
  cases link with
  | created row => rw [Upsert.loaded, hby.2]
  | updated loaded new => exact hby.2.1

theorem queued_commit (lawful : sight.Lawful) {event : Event} (h : Parks app sight L event ws) :
    Queued (L.commit ws).db event.id := by
  obtain @⟨candidateIdentityId, reason, entry, now, rid, -, -, -, hentry⟩ := h
  obtain ⟨row, hrow, hkept⟩ := Upsert.By.exists_kept lawful hentry
    (entry.writes now ++ queuedReceipt event.id reason rid now entry)
    fun w hw => List.mem_append_left _ (List.mem_append_left _ hw)
  have hstatic : Row.Static (t := .manualReviewQueue) ManualReviewQueue.eventId := fun _ _ _ => rfl
  refine ⟨row, hrow, (hkept.static hstatic).trans ?_⟩
  cases entry with
  | created row => rw [Upsert.loaded, hentry.2]
  | updated loaded new => exact hentry.2.1

theorem wp_resolves (stranger : Stranger app L₀.db) (h : Extends L₀ L) :
    wp (among (strangers app L₀.db) (Commits app L₀.db) (fun _ _ _ => True) stranger)
      ((strangers app L₀.db).program stranger) (Ends stranger) {} L := by
  have fair : Fair (among (strangers app L₀.db) (Commits app L₀.db) (fun _ _ _ => True) stranger)
      once := fair_among (fun _ _ hs => hs.1) (fun _ _ _ _ _ _ _ => trivial) stranger
  refine wp_resolveIdentity fair rfl ⟨L₀, h, stranger.mem⟩
    (fun identityId s' L' _ hready hlinks => ⟨hready, stranger, .inl ⟨identityId, hlinks⟩⟩)
    (fun s' L' _ hready hparks => ⟨hready, stranger, .inr hparks⟩)
    (fun s' L' identityId _ _ hlinked _ => .inl ⟨identityId, hlinked⟩)
    (fun s' L₁ L' ws identityId expired _ _ hlinks _ hafter _ => ?_)
    (fun s' L₁ L' ws reviewId _ _ hparks _ hafter => ?_) fun x s' L' _ hok => ?_
  · obtain ⟨matchRule, hevent⟩ := hlinks.linksEvent
    exact Ends.extends (s := s') (t := s') (r := .ok (.linked identityId expired))
      (fun _ => .inl (exists_linked_commit lawful_once hevent)) (hafter.toExtends fair)
  · exact Ends.extends (s := s') (t := s') (r := .ok (.queuedReview reviewId))
      (fun _ => .inr (queued_commit lawful_once hparks)) (hafter.toExtends fair)
  · obtain ⟨resolution, hok⟩ := hok
    cases hok

/-- **Among calls on strangers**, whoever commits introduces its event. -/
theorem sound (hdistinct : L₀.db.Distinct) {config : Config (Stranger app L₀.db) Db Write Error Question
      Reply Resolution} (h : Reachable (strangers app L₀.db) L₀ config) :
    config.Sound (strangers app L₀.db) (Introduced app L₀) (Commits app L₀.db) (fun _ _ _ => True)
      Ends := by
  refine h.sound (fun s L hL hs => ?_) (fun stranger L hL => wp_resolves stranger hL.extend)
    (fun stranger r s L L' hends hamid => hends.extends (amid_extends hamid)) (.start hdistinct)
  obtain ⟨hready, stranger, ⟨identityId, hlinks⟩ | hparks⟩ := hs
  · exact hL.of_links hdistinct hlinks hready.toApplicable
  · exact hL.of_parks hparks hready.toApplicable

end Stranger

end DemandSignal
