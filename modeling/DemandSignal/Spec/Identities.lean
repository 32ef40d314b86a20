import DemandSignal.Spec.Bodies
import DemandSignal.Spec.Frames
import DemandSignal.Spec.Links

/-!
# Identities and their events

What a request does to the identity of an event. A pipeline that acts gives the identity a lead, and
an event whose versions all carry one email is linked by that email and by nobody else.
-/

namespace DemandSignal

open Txn Resolve

variable {app : App} {L L' : Ledger Db Write} {ws : List Write} {heard : List Reply}

/-! ### Leads of linked events -/

/-- An event gets an identity, or another one, and is not acted on: its pipeline has failed. -/
def LinksInVain (L L' : Ledger Db Write) : Prop :=
  ∃ link ∈ L'.db .identityLinks, link ∉ L.db .identityLinks ∧
    ∀ act ∈ (acts L'.log).drop (acts L.log).length, act.eventId ≠ IdentityLink.eventId link

instance (L L' : Ledger Db Write) : Decidable (LinksInVain L L') := by
  unfold LinksInVain
  infer_instance

def Db.HasLead (db : Db) (identityId : Uuid) : Prop :=
  ∃ lead ∈ db .leads, Lead.identityId lead = identityId

/-- The identity of every linked event has a lead. -/
def Db.Led (db : Db) : Prop :=
  ∀ link ∈ db .identityLinks, db.HasLead (IdentityLink.identityId link)

theorem Extends.hasLead (h : Extends L L') {identityId : Uuid} (hlead : L.db.HasLead identityId) :
    L'.db.HasLead identityId := by
  obtain ⟨lead, hmem, rfl⟩ := hlead
  obtain ⟨current, hcurrent, hkept⟩ := h.exists_kept hmem
  have hstatic : Row.Static (t := .leads) Lead.identityId := fun _ _ _ => rfl
  exact ⟨current, hcurrent, hkept.static hstatic⟩

theorem Piped.hasLead {event : Event} {identityId : Uuid} {outcome : Pipeline.Outcome}
    (h : Piped app L event identityId heard (.ok (some outcome)) L') (hhistory : History app still L) :
    L'.db.HasLead identityId := by
  cases h with
  | acted hfields hinterprets happ₁ hcurrent heventId hscores happ₂ hacts happ₃ =>
      have hhistory₂ := (hhistory.commit (.interprets hinterprets) happ₁).commit (.scores hscores) happ₂
      obtain ⟨lead, route, touch, hleaves⟩ := hacts.acts.leaves hhistory₂.distinct happ₃
      exact ⟨lead, hleaves.leads.new_mem, hleaves.leadIdentity⟩

theorem Piped.acted_or_idle {event : Event} {identityId : Uuid}
    {r : Except Error (Option Pipeline.Outcome)} (h : Piped app L event identityId heard r L') :
    (∃ outcome, r = .ok (some outcome)) ∨ acts L'.log = acts L.log := by
  cases h with
  | acted => exact .inl ⟨_, rfl⟩
  | dead herror hdead => exact .inr (acts_of_records hdead.records (by decide) (by decide))
  | alreadyDead => exact .inr rfl
  | noText => exact .inr rfl
  | unstorable => exact .inr rfl
  | badMessage => exact .inr rfl
  | noScore hfields hinterprets =>
      exact .inr (acts_of_records hinterprets.records (by decide) (by decide))

theorem Prepared.acts {request : Request} (h : Prepared app L request L') :
    DemandSignal.acts L'.log = DemandSignal.acts L.log := by
  cases h with
  | nothing => rfl
  | accepted hbody hvalid haccepted => exact haccepted.acts
  | linked hbody hvalid haccepted hlinks =>
      exact (acts_of_records hlinks.records (by decide) (by decide)).trans haccepted.acts
  | parked hbody hvalid haccepted hparks =>
      exact (acts_of_records hparks.records (by decide) (by decide)).trans haccepted.acts
  | rejected hrejects => exact acts_of_records hrejects.records (by decide) (by decide)
  | resolved hpost hresolves => exact acts_of_records hresolves.records (by decide) (by decide)
  | simulated hpost hdead => exact acts_of_records hdead.records (by decide) (by decide)
  | escalated hpost hescalates => exact acts_of_records hescalates.records (by decide) (by decide)

theorem Prepared.extends {request : Request} (h : Prepared app L request L') : Extends L L' := by
  cases h with
  | nothing => exact .refl
  | accepted hbody hvalid haccepted => exact .of_accepted haccepted
  | linked hbody hvalid haccepted => exact (Extends.of_accepted haccepted).trans (Extends.commit _ _)
  | parked hbody hvalid haccepted => exact (Extends.of_accepted haccepted).trans (Extends.commit _ _)
  | rejected => exact .commit _ _
  | resolved => exact .commit _ _
  | simulated => exact .commit _ _
  | escalated => exact .commit _ _

theorem Pipelined.extends (h : Pipelined app L heard L') : Extends L L' := by
  cases h with
  | idle => exact .refl
  | ran hevent hlinked hpiped => exact hpiped.extends
  | revived hevent hlinked hpiped => exact hpiped.extends.trans (Extends.commit _ _)

theorem Visited.extends {request : Request} {r : Except Error Response}
    (h : Visited app L heard request r L') : Extends L L' := by
  obtain ⟨L₁, hprepared, hpipelined⟩ := h.phases
  exact hprepared.extends.trans hpipelined.extends

/-- What a request leaves is there at the end. -/
theorem served_extends {visits : List ServiceVisit}
    (h : Served (service app) emptyLedger visits L) {visit : ServiceVisit} (hvisit : visit ∈ visits) :
    Extends visit.after L := by
  induction h with
  | nil => cases hvisit
  | @snoc visits L i r s L' hserved hrun ih =>
      rcases List.mem_append.mp hvisit with hvisit | hvisit
      · exact (ih hvisit).trans (visited_of_runs hrun).extends
      · rw [List.mem_singleton.mp hvisit]
        exact .refl

/-- What the pipeline and the replay's last word do not write to. -/
theorem Pipelined.untouched (h : Pipelined app L heard L') {t : Table}
    (ht : t ∈ [Table.events, .identities, .identityLinks, .manualReviewQueue]) :
    L'.db t = L.db t := by
  cases h with
  | idle => rfl
  | ran hevent hlinked hpiped => exact hpiped.untouched ht
  | revived hevent hlinked hpiped hrevives =>
      have hnot : ∀ t ∈ [Table.events, .identities, .identityLinks, .manualReviewQueue],
          t ∉ [Table.deadLetterQueue, .receipts] := by decide
      rw [commit_of_untouched (hrevives.tables.ne (hnot t ht))]
      exact hpiped.untouched ht

/-- The pipeline acts on nothing, or on a linked event whose identity has a lead then. -/
theorem Pipelined.leads (h : Pipelined app L heard L') (hhistory : History app still L) :
    acts L'.log = acts L.log ∨ ∃ identityId eventId receivedAt, Linked eventId identityId L.db ∧
      acts L'.log = acts L.log ++ [⟨identityId, eventId, receivedAt⟩] ∧
      L'.db.HasLead identityId := by
  cases h with
  | idle => exact .inl rfl
  | ran hevent hlinked hpiped =>
      obtain ⟨outcome, rfl⟩ | hidle := hpiped.acted_or_idle
      · exact .inr ⟨_, _, _, hlinked, (hpiped.acted_tells hhistory).1, hpiped.hasLead hhistory⟩
      · exact .inl hidle
  | revived hevent hlinked hpiped hrevives =>
      have hacts := (acts_of_records hrevives.records (by decide) (by decide)).trans
        (hpiped.acted_tells hhistory).1
      exact .inr ⟨_, _, _, hlinked, hacts, (Extends.commit _ _).hasLead (hpiped.hasLead hhistory)⟩

/-- A request that links nothing in vain leaves a lead with each linked event. -/
theorem Visited.led {request : Request} {r : Except Error Response}
    (h : Visited app L heard request r L') (hhistory : History app still L)
    (hvain : ¬ LinksInVain L L') (hled : L.db.Led) : L'.db.Led := by
  have hextends := h.extends
  obtain ⟨L₁, hprepared, hpipelined⟩ := h.phases
  have hhistory₁ := hprepared.history hhistory
  intro link hlink
  by_cases hold : link ∈ L.db .identityLinks
  · exact hextends.hasLead (hled link hold)
  obtain ⟨act, hact, hevent⟩ : ∃ act ∈ (acts L'.log).drop (acts L.log).length,
      act.eventId = IdentityLink.eventId link := by
    by_contra hnone
    exact hvain ⟨link, hlink, hold, fun act hact hevent => hnone ⟨act, hact, hevent⟩⟩
  obtain hidle | ⟨identityId, eventId, receivedAt, hlinked, hacts, hlead⟩ := hpipelined.leads hhistory₁
  · rw [hidle, hprepared.acts, List.drop_length] at hact
    cases hact
  · rw [hacts, hprepared.acts, List.drop_left, List.mem_singleton] at hact
    subst hact
    -- the event that is acted on has one link, and it is the new one
    obtain ⟨held, hheld, hheldEvent, hheldIdentity⟩ := hlinked
    rw [hpipelined.untouched (by decide)] at hlink
    rw [eq_of_eventId hhistory₁.distinct hlink hheld (hevent.symm.trans hheldEvent.symm), hheldIdentity]
    exact hlead

theorem served_led {visits : List ServiceVisit} (h : Served (service app) emptyLedger visits L)
    (hvain : ∀ visit ∈ visits, ¬ LinksInVain visit.before visit.after) : L.db.Led :=
  (served_keeps h (fun L => L.db.Led) (fun _ hlink => absurd hlink List.not_mem_nil)
    fun visit hvisit hhistory hbefore hvisited =>
      hvisited.led hhistory (hvain visit hvisit) hbefore).1

/-! ### Events with one email -/

/-- The normalized email of an event. An address that the schema accepts is not blank. -/
def Resolve.emailOf (app : App) (event : Event) : Option String :=
  ((fieldsOf event).email.map (normalizeEmail app)).bind Python.orNone

theorem Resolve.rule_of_emailOf {event : Event} {email : String}
    (h : emailOf app event = some email) : rule app (fieldsOf event) = .exactEmail email := by
  unfold emailOf at h
  unfold rule
  rw [h]

/-- The rules link the event to the identity of its email. -/
theorem Resolve.Links.email {event : Event} {identityId : Uuid} {email : String}
    (h : Links app still L event identityId ws) (hemail : emailOf app event = some email) :
    ∃ identity ∈ (L.commit ws).db .identities, Identity.id identity = identityId ∧
      Identity.primaryEmail identity = some email := by
  have hrule := rule_of_emailOf hemail
  cases h with
  | found _ _ hidentity hfinds =>
      rw [hrule] at hfinds
      exact ⟨_, (Extends.commit L _).identity_mem hidentity, rfl, hfinds.2⟩
  | @minted identity matchRule link now id rid _ _ _ hmints =>
      rw [hrule] at hmints
      cases hmints
      obtain ⟨identity, hidentity, hkept⟩ := Db.exists_kept_inserted L.db (List.mem_cons_self ..)
      obtain rfl := identity_of_kept hkept
      exact ⟨_, hidentity, rfl, rfl⟩

theorem Resolve.Parks.not_emailed {event : Event} (h : Parks app still L event ws) :
    emailOf app event = none := by
  obtain ⟨-, -, hproposes, -⟩ := h
  cases hemail : emailOf app event with
  | none => rfl
  | some email =>
      have hrule := rule_of_emailOf hemail
      cases hproposes with
      | nobody hnobody => rw [hrule] at hnobody; cases hnobody
      | candidate hfuzzy => rw [hrule] at hfuzzy; cases hfuzzy

/-- No review names the event, and it is linked to the identity of the email, if at all. -/
structure Db.Emailed (db : Db) (eventId : Uuid) (email : String) : Prop where
  unreviewed : ∀ review ∈ db .manualReviewQueue, ManualReviewQueue.eventId review ≠ eventId
  identified : ∀ identityId, Linked eventId identityId db → ∃ identity ∈ db .identities,
    Identity.id identity = identityId ∧ Identity.primaryEmail identity = some email

theorem Db.Emailed.empty (eventId : Uuid) (email : String) : Db.Emailed {} eventId email :=
  ⟨fun _ hreview => absurd hreview List.not_mem_nil,
    fun _ ⟨_, hlink, _⟩ => absurd hlink List.not_mem_nil⟩

section Steps

variable {eventId : Uuid} {email : String}

theorem Db.Emailed.of_eq (h : L.db.Emailed eventId email) (hextends : Extends L L')
    (hreviews : L'.db .manualReviewQueue = L.db .manualReviewQueue)
    (hlinks : L'.db .identityLinks = L.db .identityLinks) : L'.db.Emailed eventId email := by
  refine ⟨fun review hreview => ?_, fun identityId hlinked => ?_⟩
  · rw [hreviews] at hreview
    exact h.unreviewed review hreview
  · unfold Linked at hlinked
    rw [hlinks] at hlinked
    obtain ⟨identity, hidentity, hemail⟩ := h.identified identityId hlinked
    exact ⟨identity, hextends.identity_mem hidentity, hemail⟩

theorem Db.Emailed.of_names {ts : List Table} (h : L.db.Emailed eventId email) (hnames : Names ws ts)
    (hreviews : .manualReviewQueue ∉ ts) (hlinks : .identityLinks ∉ ts) :
    (L.commit ws).db.Emailed eventId email :=
  h.of_eq (.commit L ws) (commit_of_untouched (hnames.ne hreviews))
    (commit_of_untouched (hnames.ne hlinks))

/-- A transaction that links one event. -/
theorem Db.Emailed.of_link {link : IdentityLink} (h : L.db.Emailed eventId email)
    (hsets : Sets IdentityLink.eventId link (L.db .identityLinks) ((L.commit ws).db .identityLinks))
    (hunreviewed : ∀ review ∈ (L.commit ws).db .manualReviewQueue,
      ManualReviewQueue.eventId review ≠ eventId)
    (hlinked : link.eventId = eventId → ∃ identity ∈ (L.commit ws).db .identities,
      Identity.id identity = link.identityId ∧ Identity.primaryEmail identity = some email) :
    (L.commit ws).db.Emailed eventId email := by
  refine ⟨hunreviewed, ?_⟩
  rintro identityId ⟨other, hother, hevent, rfl⟩
  obtain rfl | ⟨hold, -⟩ := (hsets other).mp hother
  · exact hlinked hevent
  · obtain ⟨identity, hidentity, hemail⟩ := h.identified _ ⟨other, hold, hevent, rfl⟩
    exact ⟨identity, (Extends.commit L ws).identity_mem hidentity, hemail⟩

theorem Resolve.Links.emailed {event : Event} {identityId : Uuid}
    (h : Links app still L event identityId ws) (hdistinct : L.db.Distinct)
    (hbears : event.id = eventId → emailOf app event = some email)
    (hemailed : L.db.Emailed eventId email) : (L.commit ws).db.Emailed eventId email := by
  obtain ⟨matchRule, hlinks⟩ := h.linksEvent
  obtain ⟨link, hevent, hidentity, hsets⟩ := hlinks.sets hdistinct
  refine hemailed.of_link hsets (fun review hreview => ?_) fun hsame => ?_
  · rw [commit_of_untouched (h.tables.ne (by decide))] at hreview
    exact hemailed.unreviewed review hreview
  · rw [hidentity]
    exact h.email (hbears (hevent.symm.trans hsame))

theorem Resolve.Parks.emailed {event : Event} (h : Parks app still L event ws)
    (hdistinct : L.db.Distinct) (hbears : event.id = eventId → emailOf app event = some email)
    (hemailed : L.db.Emailed eventId email) : (L.commit ws).db.Emailed eventId email := by
  obtain ⟨entry, hevent, -, hsets⟩ := h.sets hdistinct
  refine ⟨fun review hreview hsame => ?_, fun identityId hlinked => ?_⟩
  · obtain rfl | ⟨hold, -⟩ := (hsets review).mp hreview
    · have hemail := hbears (hevent.symm.trans hsame)
      rw [h.not_emailed] at hemail
      cases hemail
    · exact hemailed.unreviewed review hold hsame
  · unfold Linked at hlinked
    rw [commit_of_untouched (h.tables.ne (by decide))] at hlinked
    obtain ⟨identity, hidentity, hemail⟩ := hemailed.identified identityId hlinked
    exact ⟨identity, (Extends.commit L ws).identity_mem hidentity, hemail⟩

/-- A reviewer decides on other events. -/
theorem Resolve.Resolves.emailed {decision : String} {review : ManualReviewQueue} {identityId : Uuid}
    (h : Resolves still L decision review identityId ws) (hdistinct : L.db.Distinct)
    (hemailed : L.db.Emailed eventId email) : (L.commit ws).db.Emailed eventId email := by
  obtain ⟨resolvedAt, hreviews⟩ := h.sets hdistinct
  obtain ⟨link, hevent, -, hsets⟩ := h.linksEvent.sets hdistinct
  have hother := hemailed.unreviewed review h.pending.1
  refine hemailed.of_link hsets (fun other hmem => ?_) fun hsame => ?_
  · obtain rfl | ⟨hold, -⟩ := (hreviews other).mp hmem
    · exact hother
    · exact hemailed.unreviewed other hold
  · exact absurd (hevent.symm.trans hsame) hother

theorem Accepted.emailed {model : EventIn} {payload : Json.Fields} {event : Event}
    {status : Ingest.IngestStatus} (h : Accepted app L model payload event status L')
    (hemailed : L.db.Emailed eventId email) : L'.db.Emailed eventId email :=
  hemailed.of_eq (.of_accepted h) h.identities.2.2.1 h.identities.2.1

theorem Prepared.emailed {request : Request} (h : Prepared app L request L')
    (hhistory : History app still L)
    (hbears : ∀ event ∈ L'.db .events, Event.id event = eventId → emailOf app event = some email)
    (hemailed : L.db.Emailed eventId email) : L'.db.Emailed eventId email := by
  cases h with
  | nothing => exact hemailed
  | accepted hbody hvalid haccepted => exact haccepted.emailed hemailed
  | linked hbody hvalid haccepted hlinks =>
      refine hlinks.emailed (haccepted.history hhistory).distinct (hbears _ ?_)
        (haccepted.emailed hemailed)
      rw [commit_of_untouched (hlinks.tables.ne (by decide))]
      exact haccepted.event_mem
  | parked hbody hvalid haccepted hparks =>
      refine hparks.emailed (haccepted.history hhistory).distinct (hbears _ ?_)
        (haccepted.emailed hemailed)
      rw [commit_of_untouched (hparks.tables.ne (by decide))]
      exact haccepted.event_mem
  | rejected hrejects => exact hemailed.of_names hrejects.tables (by decide) (by decide)
  | resolved hpost hresolves => exact hresolves.emailed hhistory.distinct hemailed
  | simulated hpost hdead => exact hemailed.of_names hdead.tables (by decide) (by decide)
  | escalated hpost hescalates => exact hemailed.of_names hescalates.tables (by decide) (by decide)

/-- A request that accepts the event with its email only. -/
theorem Visited.emailed {request : Request} {r : Except Error Response}
    (h : Visited app L heard request r L') (hhistory : History app still L)
    (hbears : ∀ event ∈ L'.db .events, Event.id event = eventId → emailOf app event = some email)
    (hemailed : L.db.Emailed eventId email) : L'.db.Emailed eventId email := by
  obtain ⟨L₁, hprepared, hpipelined⟩ := h.phases
  rw [hpipelined.untouched (by decide)] at hbears
  exact (hprepared.emailed hhistory hbears hemailed).of_eq hpipelined.extends
    (hpipelined.untouched (by decide)) (hpipelined.untouched (by decide))

end Steps

/-! ### New events -/

/-- Links name identities that are there. -/
theorem History.linksIdentities (h : History app still L) :
    ∀ link ∈ L.db .identityLinks, L.db.Has .identities (IdentityLink.identityId link) := by
  induction h with
  | empty => exact fun _ hlink => absurd hlink List.not_mem_nil
  | @commit L ws h htransaction happ ih =>
      obtain ⟨event, identityId, hlinks⟩ | ⟨decision, review, identityId, hresolves⟩ | huntouched :=
        htransaction.links_cases
      · obtain ⟨matchRule, hevent⟩ := hlinks.linksEvent
        obtain ⟨link, -, hidentity, hsets⟩ := hevent.sets h.distinct
        have hhas : (L.commit ws).db.Has .identities identityId := by
          obtain ⟨identity, hold, hid, -⟩ | ⟨identity, hid, hrows⟩ := hlinks.identities
          · exact Db.Has.foldl (t := .identities) ⟨identity, hold, hid⟩ ws
          · refine ⟨identity, ?_, hid⟩
            rw [hrows]
            exact List.mem_append_right _ (List.mem_singleton_self _)
        intro other hother
        obtain rfl | ⟨hold, -⟩ := (hsets other).mp hother
        · rwa [hidentity]
        · exact (ih other hold).foldl ws
      · obtain ⟨link, -, hidentity, hsets⟩ := hresolves.linksEvent.sets h.distinct
        have hhas : (L.commit ws).db.Has .identities identityId := by
          cases hresolves with
          | merged _ _ htarget => exact Db.Has.foldl (t := .identities) ⟨_, htarget, rfl⟩ _
          | created _ _ hid =>
              rw [← hid]
              exact Db.has_of_insert (List.mem_cons_of_mem _ (List.mem_cons_self ..))
        intro other hother
        obtain rfl | ⟨hold, -⟩ := (hsets other).mp hother
        · rwa [hidentity]
        · exact (ih other hold).foldl ws
      · intro link hlink
        rw [commit_of_untouched huntouched] at hlink
        exact (ih link hlink).foldl ws

/-- The tables that the rules write to. -/
abbrev Resolve.tables : List Table := [.identities, .identityLinks, .manualReviewQueue]

/-- The rules take up an event, and nothing else is done to identities, links and reviews. -/
structure TakesUp (app : App) (L : Ledger Db Write) (event : Event) (L₁ : Ledger Db Write)
    (ws : List Write) (L' : Ledger Db Write) : Prop where
  before : ∀ t ∈ Resolve.tables, L₁.db t = L.db t
  history : History app still L₁
  applicable : Applicable ws L₁.db
  after : ∀ t ∈ Resolve.tables, L'.db t = (L₁.commit ws).db t
  taken : (∃ identityId, Links app still L₁ event identityId ws) ∨ Parks app still L₁ event ws

/-- An event that is new after it has been accepted is the accepted one. -/
theorem Accepted.eq_new {model : EventIn} {payload : Json.Fields} {event accepted : Event}
    {status : Ingest.IngestStatus} (h : Accepted app L model payload accepted status L')
    (hdistinct : L.db.Distinct) (hevent : event ∈ L'.db .events)
    (hnew : ¬ L.db.Has .events event.id) : event = accepted := by
  obtain rfl | ⟨hold, -⟩ := ((h.sets hdistinct).2 event).mp hevent
  · rfl
  · exact absurd ⟨event, hold, rfl⟩ hnew

theorem Accepted.tables {model : EventIn} {payload : Json.Fields} {event : Event}
    {status : Ingest.IngestStatus} (h : Accepted app L model payload event status L') :
    ∀ t ∈ Resolve.tables, L'.db t = L.db t := by
  have hsame := h.identities
  simp only [List.forall_mem_cons, List.not_mem_nil, IsEmpty.forall_iff, implies_true, and_true]
  exact ⟨hsame.1, hsame.2.1, hsame.2.2.1⟩

theorem Posted.takesUp {model : EventIn} {payload : Json.Fields} {r : Except Error Events.Answer}
    {event : Event} (h : Posted app L heard model payload r L') (hhistory : History app still L)
    (hevent : event ∈ L'.db .events) (hnew : ¬ L.db.Has .events event.id) :
    ∃ L₁ ws, TakesUp app L event L₁ ws L' := by
  cases h with
  | duplicate => exact absurd ⟨event, hevent, rfl⟩ hnew
  | unacceptable => exact absurd ⟨event, hevent, rfl⟩ hnew
  | parked haccepted hparks happ =>
      rw [commit_of_untouched (hparks.tables.ne (by decide))] at hevent
      obtain rfl := haccepted.eq_new hhistory.distinct hevent hnew
      exact ⟨_, _, haccepted.tables, haccepted.history hhistory, happ, fun _ _ => rfl, .inr hparks⟩
  | piped haccepted hidentified hpiped =>
      rw [hpiped.events, hidentified.events] at hevent
      obtain rfl := haccepted.eq_new hhistory.distinct hevent hnew
      have hafter := fun t (ht : t ∈ Resolve.tables) =>
        hpiped.untouched (List.mem_cons_of_mem .events ht)
      cases hidentified with
      | found hlinked =>
          -- a link names an event that has been there before
          obtain ⟨link, hlink, hlinkEvent, -⟩ := hlinked
          rw [haccepted.identities.2.1] at hlink
          rw [← hlinkEvent] at hnew
          exact absurd (hhistory.grounded.links link hlink) hnew
      | linked hlinks happ =>
          exact ⟨_, _, haccepted.tables, haccepted.history hhistory, happ, hafter, .inl ⟨_, hlinks⟩⟩

/-- A valid event that is new has been accepted, and the rules take it up. -/
theorem Visited.takesUp {request : Request} {r : Except Error Response} {event : Event}
    (h : Visited app L heard request r L') (hhistory : History app still L)
    (hevent : event ∈ L'.db .events) (hvalid : event.isValid = true)
    (hnew : ¬ L.db.Has .events event.id) : ∃ L₁ ws, TakesUp app L event L₁ ws L' := by
  have hold : L'.db .events ≠ L.db .events := by
    intro hsame
    rw [hsame] at hevent
    exact hnew ⟨event, hevent, rfl⟩
  cases h with
  | posted hbody hvalid' hposted => exact hposted.takesUp hhistory hevent hnew
  | rejected hrefusal hrefuses =>
      obtain ⟨row, -, hrows, hinvalid, -⟩ := hrefuses.rejects.rows (L := L)
      rw [hrows, List.mem_append, List.mem_singleton] at hevent
      obtain hmem | rfl := hevent
      · exact absurd ⟨event, hmem, rfl⟩ hnew
      · rw [hinvalid] at hvalid
        cases hvalid
  | malformed => exact absurd rfl hold
  | unrecorded => exact absurd rfl hold
  | quiet => exact absurd rfl hold
  | reviewed hdecides hresolves =>
      exact absurd (commit_of_untouched (hresolves.tables.ne (by decide))) hold
  | resumed hdecides hresolves happ hmem heventId hpiped =>
      exact absurd (hpiped.events.trans (commit_of_untouched (hresolves.tables.ne (by decide)))) hold
  | replayed hmem hlinked hdlq heventId hopen hfailed hpiped => exact absurd hpiped.events hold
  | revived hmem hlinked hpiped hrevives =>
      exact absurd ((commit_of_untouched (hrevives.tables.ne (by decide))).trans hpiped.events) hold
  | simulated hdead => exact absurd (commit_of_untouched (hdead.tables.ne (by decide))) hold
  | escalated hreads hescalates =>
      exact absurd (commit_of_untouched (hescalates.tables.ne (by decide))) hold

/-! ### Phones -/

/-- The normalized phone of an event. -/
def Resolve.phoneOf (app : App) (event : Event) : Option String :=
  (fieldsOf event).phone.bind (normalizePhone app)

theorem Resolve.rule_of_phoneOf {event : Event} {phone : String} (hemail : emailOf app event = none)
    (h : phoneOf app event = some phone) : rule app (fieldsOf event) = .exactPhone phone := by
  unfold emailOf at hemail
  unfold phoneOf at h
  unfold rule
  rw [hemail, h]

/-- An event that has carried the phone is linked to the identity. -/
def HasPhone (app : App) (L : Ledger Db Write) (phone : String) (identityId : Uuid) : Prop :=
  ∃ eventId, Linked eventId identityId L.db ∧ ∃ L₀, Extends L₀ L ∧
    ∃ event ∈ L₀.db .events, Event.id event = eventId ∧ phoneOf app event = some phone

theorem Resolve.Parks.not_phoned {event : Event} (h : Parks app still L event ws) :
    phoneOf app event = none := by
  have hemail := h.not_emailed
  obtain ⟨-, -, hproposes, -⟩ := h
  cases hphone : phoneOf app event with
  | none => rfl
  | some phone =>
      have hrule := rule_of_phoneOf hemail hphone
      cases hproposes with
      | nobody hnobody => rw [hrule] at hnobody; cases hnobody
      | candidate hfuzzy => rw [hrule] at hfuzzy; cases hfuzzy

/-- The new event goes to somebody known by the phone, or to a reviewer, and nobody is created. -/
structure Recognizes (app : App) (L L' : Ledger Db Write) (event : Event) (phone : String) : Prop where
  resolved : (∃ identityId, Linked event.id identityId L'.db ∧ HasPhone app L phone identityId) ∨
    AwaitsReview event.id L'.db
  identities : L'.db .identities = L.db .identities

namespace TakesUp

variable {L₁ : Ledger Db Write} {event : Event}

/-- The event has the one link that the rules give it. -/
theorem linked_iff (h : TakesUp app L event L₁ ws L') {identityId : Uuid}
    (hlinks : Links app still L₁ event identityId ws) (owner : Uuid) :
    Linked event.id owner L'.db ↔ owner = identityId := by
  obtain ⟨matchRule, hevent⟩ := hlinks.linksEvent
  obtain ⟨link, hlinkEvent, hidentity, hsets⟩ := hevent.sets h.history.distinct
  have hlinked : Linked event.id identityId L'.db := by
    refine ⟨link, ?_, hlinkEvent, hidentity⟩
    rw [h.after _ (by decide)]
    exact hsets.new_mem
  constructor
  · rintro ⟨other, hother, hotherEvent, rfl⟩
    rw [h.after _ (by decide)] at hother
    rw [hsets.eq_new hother (hotherEvent.trans hlinkEvent.symm), hidentity]
  · rintro rfl
    exact hlinked

/-- Nobody is asked about an event that the rules have linked. -/
theorem not_awaits (h : TakesUp app L event L₁ ws L') (hhistory : History app still L)
    (hnew : ¬ L.db.Has .events event.id) {identityId : Uuid}
    (hlinks : Links app still L₁ event identityId ws) : ¬ AwaitsReview event.id L'.db := by
  rintro ⟨review, hreview, hevent, -⟩
  rw [h.after _ (by decide), commit_of_untouched (hlinks.tables.ne (by decide)),
    h.before _ (by decide)] at hreview
  refine hnew ?_
  rw [← hevent]
  exact hhistory.grounded.reviews review hreview

/-- A known phone is recognized if and only if the event has no email, and the phone is on the row of
somebody who is known by it. -/
theorem recognizes_iff (h : TakesUp app L event L₁ ws L') (hhistory : History app still L)
    (hnew : ¬ L.db.Has .events event.id) {phone : String} (hphone : phoneOf app event = some phone)
    (hemail : ∀ email, emailOf app event = some email → ∀ identity ∈ L.db .identities,
      Identity.primaryEmail identity ≠ some email) :
    Recognizes app L L' event phone ↔ emailOf app event = none ∧ ∃ identity ∈ L.db .identities,
      Identity.primaryPhone identity = some phone ∧ HasPhone app L phone (Identity.id identity) := by
  obtain ⟨identityId, hlinks⟩ | hparks := h.taken
  swap
  · rw [hparks.not_phoned] at hphone
    cases hphone
  have hlinked := h.linked_iff hlinks
  have hidentities : L₁.db .identities = L.db .identities := h.before _ (by decide)
  constructor
  · rintro ⟨⟨owner, howner, hknown⟩ | hawaits, -⟩
    swap
    · exact absurd hawaits (h.not_awaits hhistory hnew hlinks)
    obtain rfl := (hlinked owner).mp howner
    cases hlinks with
    | @found identity _ _ _ _ _ hidentity hfinds =>
        have hmem : identity ∈ L.db .identities := hidentities ▸ hidentity
        cases hcase : emailOf app event with
        | some email =>
            rw [rule_of_emailOf hcase] at hfinds
            exact absurd hfinds.2 (hemail email hcase identity hmem)
        | none =>
            rw [rule_of_phoneOf hcase hphone] at hfinds
            exact ⟨rfl, identity, hmem, hfinds.2, hknown⟩
    | @minted identity _ _ _ id _ _ _ _ hmints =>
        -- nobody who is known has the id of a new row
        obtain ⟨eventId, ⟨link, hlink, -, hlinkIdentity⟩, -⟩ := hknown
        obtain ⟨old, hold, holdId⟩ := hhistory.linksIdentities link hlink
        rw [← hidentities] at hold
        refine absurd ?_ (h.applicable.id_ne (t := .identities) (s := .identities) hold
          (List.mem_cons_self ..))
        exact (Rule.mints_spec hmints).1.trans (hlinkIdentity.symm.trans holdId.symm)
  · rintro ⟨hnone, identity, hidentity, hprimary, hknown⟩
    have hrule := rule_of_phoneOf hnone hphone
    cases hlinks with
    | @found found _ link now _ _ hfound hfinds hlink =>
        rw [hrule] at hfinds
        have hkey : ∀ row : Identity, row.primaryPhone = some phone →
            Key.identityPhone phone ∈ Row.indexed (t := .identities) row := by
          intro row hrow
          simp [Row.indexed, hrow]
        rw [← hidentities] at hidentity
        obtain rfl : found = identity := h.history.distinct.eq_of_indexed (t := .identities) hfound
          hidentity (hkey _ hfinds.2) (hkey _ hprimary)
        refine ⟨.inl ⟨_, (hlinked _).mpr rfl, hknown⟩, ?_⟩
        rw [h.after _ (by decide), ← hidentities]
        exact commit_of_untouched fun w hw => by
          rw [Upsert.table_of_mem_writes hw]
          decide
    | minted _ _ hmisses =>
        rw [hrule] at hmisses
        rw [← hidentities] at hidentity
        exact absurd hprimary (hmisses identity hidentity)

end TakesUp

end DemandSignal
