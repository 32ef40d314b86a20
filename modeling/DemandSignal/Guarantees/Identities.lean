import DemandSignal.Simulation
import DemandSignal.Spec.Identities

/-!
# Who an event belongs to

An event whose versions all carry one normalized email is linked to the one identity of that email,
whatever else the events, the other events and the reviewers say. A phone is recognized only where it
is on the row of an identity: an event with an email is linked by the email, and its phone is not kept.
-/

namespace DemandSignal

open Txn Resolve

variable {app : App} {L : Ledger Db Write} {visits : List ServiceVisit}

/-! ### Emails -/

/-- Every version of the event that a run accepts carries the email. -/
def Bears (app : App) (visits : List ServiceVisit) (eventId : Uuid) (email : String) : Prop :=
  ∀ visit ∈ visits, ∀ event ∈ visit.after.db .events, Event.id event = eventId →
    emailOf app event = some email

instance (app : App) (visits : List ServiceVisit) (eventId : Uuid) (email : String) :
    Decidable (Bears app visits eventId email) := by
  unfold Bears
  infer_instance

/-- A linked event bears the email, and this is its identity. -/
def Emails (app : App) (visits : List ServiceVisit) (db : Db) (email : String) (identityId : Uuid) :
    Prop :=
  ∃ eventId, Bears app visits eventId email ∧ Linked eventId identityId db

/-- The email of the person that a lead is about. -/
def Db.leadEmail (db : Db) (lead : Lead) : Option String :=
  ((db .identities).find? fun identity => Identity.id identity = lead.identityId).bind Identity.primaryEmail

theorem Emails.identity (h : Served (service app) emptyLedger visits L) {email : String}
    {identityId : Uuid} (hemails : Emails app visits L.db email identityId) :
    ∃ identity ∈ L.db .identities, Identity.id identity = identityId ∧
      Identity.primaryEmail identity = some email := by
  obtain ⟨eventId, hbears, hlinked⟩ := hemails
  have hemailed : L.db.Emailed eventId email :=
    (served_keeps h (fun L => L.db.Emailed eventId email) (.empty eventId email)
      fun visit hvisit hhistory hbefore hvisited =>
        hvisited.emailed hhistory (hbears visit hvisit) hbefore).1
  exact hemailed.identified identityId hlinked

/-- The identities of two emails are one if and only if the emails are. -/
theorem Emails.eq_iff (h : Served (service app) emptyLedger visits L) {email email' : String}
    {identityId identityId' : Uuid} (hemails : Emails app visits L.db email identityId)
    (hemails' : Emails app visits L.db email' identityId') :
    identityId = identityId' ↔ email = email' := by
  have hdistinct := (served_history h).1.distinct
  obtain ⟨identity, hidentity, rfl, hemail⟩ := hemails.identity h
  obtain ⟨identity', hidentity', rfl, hemail'⟩ := hemails'.identity h
  constructor
  · intro hid
    rw [hdistinct.eq_of_id (t := .identities) hidentity hidentity' hid, hemail'] at hemail
    exact (Option.some_injective _ hemail).symm
  · rintro rfl
    have hkey : ∀ row : Identity, row.primaryEmail = some email →
        Key.identityEmail email ∈ Row.indexed (t := .identities) row := by
      intro row hrow
      simp [Row.indexed, hrow]
    rw [hdistinct.eq_of_indexed (t := .identities) hidentity hidentity' (hkey _ hemail)
      (hkey _ hemail')]

theorem Emails.leadEmail (h : Served (service app) emptyLedger visits L) {email : String} {lead : Lead}
    (hemails : Emails app visits L.db email lead.identityId) : L.db.leadEmail lead = some email := by
  obtain ⟨identity, hidentity, hid, hemail⟩ := hemails.identity h
  have hdistinct := (served_history h).1.distinct
  unfold Db.leadEmail
  cases hfound : (L.db .identities).find? fun identity => Identity.id identity = lead.identityId with
  | none => exact absurd (List.find?_eq_none.mp hfound identity hidentity) (by simpa using hid)
  | some found =>
      have hfoundId : Identity.id found = lead.identityId := by simpa using List.find?_some hfound
      rw [hdistinct.eq_of_id (t := .identities) (List.mem_of_find?_eq_some hfound) hidentity
        (hfoundId.trans hid.symm)]
      exact hemail

/-- An identity has one lead. -/
theorem eq_of_leadIdentity {db : Db} (h : db.Distinct) {lead lead' : Lead} (hlead : lead ∈ db .leads)
    (hlead' : lead' ∈ db .leads) (hidentity : lead.identityId = lead'.identityId) : lead = lead' := by
  have hkey : Key.leadIdentity lead.identityId ∈ Row.indexed (t := .leads) lead' := by
    rw [hidentity]
    exact List.mem_singleton_self _
  exact h.eq_of_indexed (t := .leads) hlead hlead' (List.mem_singleton_self _) hkey

/-- **One lead per email address**: linked events whose versions all carry one email have one identity
if and only if they have one email, which is the identity's, and in a run that links nothing in vain
the leads of those identities stand for the emails one to one. -/
theorem emails_identify (h : Served (service app) emptyLedger visits L) :
    (∀ eventId eventId' email email' identityId identityId',
      Bears app visits eventId email → Linked eventId identityId L.db →
      Bears app visits eventId' email' → Linked eventId' identityId' L.db →
      (identityId = identityId' ↔ email = email')) ∧
    (∀ eventId email identityId, Bears app visits eventId email → Linked eventId identityId L.db →
      ∃ identity ∈ L.db .identities, Identity.id identity = identityId ∧
        Identity.primaryEmail identity = some email) ∧
    ((∀ visit ∈ visits, ¬ LinksInVain visit.before visit.after) →
      Set.BijOn L.db.leadEmail
        {lead | lead ∈ L.db .leads ∧ ∃ email, Emails app visits L.db email lead.identityId}
        {email | ∃ address identityId, email = some address ∧
          Emails app visits L.db address identityId}) := by
  refine ⟨fun eventId eventId' email email' identityId identityId' hbears hlinked hbears' hlinked' =>
      Emails.eq_iff h ⟨eventId, hbears, hlinked⟩ ⟨eventId', hbears', hlinked'⟩,
    fun eventId email identityId hbears hlinked => Emails.identity h ⟨eventId, hbears, hlinked⟩,
    fun hvain => ⟨?_, ?_, ?_⟩⟩
  · rintro lead ⟨-, email, hemails⟩
    exact ⟨email, _, hemails.leadEmail h, hemails⟩
  · rintro lead ⟨hlead, email, hemails⟩ lead' ⟨hlead', email', hemails'⟩ hsame
    rw [hemails.leadEmail h, hemails'.leadEmail h] at hsame
    exact eq_of_leadIdentity (served_history h).1.distinct hlead hlead'
      ((hemails.eq_iff h hemails').mpr (Option.some_injective _ hsame))
  · rintro _ ⟨email, identityId, rfl, hemails⟩
    obtain ⟨eventId, hbears, link, hlink, hevent, rfl⟩ := hemails
    obtain ⟨lead, hlead, hidentity⟩ := served_led h hvain link hlink
    have hemails : Emails app visits L.db email lead.identityId :=
      ⟨eventId, hbears, link, hlink, hevent, hidentity.symm⟩
    exact ⟨lead, ⟨hlead, email, hemails⟩, hemails.leadEmail h⟩

def shoutedForm : Request :=
  submit [("source", "web_form"), ("external_event_id", "2"), ("received_at", secondDay),
    ("email", " ADA@example.com "), ("message", "hi")] (by simp)

/-- Two forms of a sender, of whom the second shouts, and an engagement of another. -/
def addressed : List Turn :=
  failing [webForm "1" firstDay "hi", shoutedForm, engagementOf "bob@example.com"]

theorem emails_identify_addressed :
    ∃ L, Served (service shipped) emptyLedger (simulate shipped addressed emptyLedger) L ∧
      (∀ eventId eventId' email email' identityId identityId',
        Bears shipped (simulate shipped addressed emptyLedger) eventId email →
        Linked eventId identityId L.db →
        Bears shipped (simulate shipped addressed emptyLedger) eventId' email' →
        Linked eventId' identityId' L.db → (identityId = identityId' ↔ email = email')) ∧
      Set.BijOn L.db.leadEmail
        {lead | lead ∈ L.db .leads ∧ ∃ email,
          Emails shipped (simulate shipped addressed emptyLedger) L.db email lead.identityId}
        {email | ∃ address identityId, email = some address ∧
          Emails shipped (simulate shipped addressed emptyLedger) L.db address identityId} := by
  have hvain : ∀ visit ∈ simulate shipped addressed emptyLedger,
      ¬ LinksInVain visit.before visit.after := by
    rw [shipped_eq_bucketed]
    decide +kernel
  have hserved := simulate_served shipped addressed
  obtain ⟨hiff, -, hleads⟩ := emails_identify hserved
  exact ⟨_, hserved, hiff, hleads hvain⟩

example : ((outcome shipped addressed emptyLedger).db .leads).map
    (outcome shipped addressed emptyLedger).db.leadEmail =
      [some "ada@example.com", some "bob@example.com"] := by
  rw [shipped_eq_bucketed]
  decide +kernel

/-! ### Phones -/

/-- **A known phone is recognized** if and only if the new event has no email, and the phone is on the
row of an identity that an earlier event with the phone is linked to. -/
theorem phone_recognized_iff (h : Served (service app) emptyLedger visits L) {visit : ServiceVisit}
    (hvisit : visit ∈ visits) {event : Event} (hevent : event ∈ visit.after.db .events)
    (hvalid : event.isValid = true) (hnew : ¬ visit.before.db.Has .events event.id) {phone : String}
    (hphone : phoneOf app event = some phone)
    (hemail : ∀ email, emailOf app event = some email →
      ∀ identity ∈ visit.before.db .identities, Identity.primaryEmail identity ≠ some email) :
    Recognizes app visit.before visit.after event phone ↔
      emailOf app event = none ∧ ∃ identity ∈ visit.before.db .identities,
        Identity.primaryPhone identity = some phone ∧
          HasPhone app visit.before phone (Identity.id identity) := by
  have hhistory := (served_history h).2 visit hvisit
  obtain ⟨L₁, ws, htakes⟩ := (served_visited h hvisit).takesUp hhistory.1 hevent hvalid hnew
  exact htakes.recognizes_iff hhistory.1 hnew hphone hemail

def phoneForm (externalEventId : String) : Request :=
  submit [("source", "web_form"), ("external_event_id", externalEventId), ("received_at", firstDay),
    ("phone", "5550001111"), ("message", "hi")] (by simp)

/-- A sender gives an email and a phone. -/
def contactForm : Request :=
  submit [("source", "web_form"), ("external_event_id", "1"), ("received_at", firstDay),
    ("email", "ada@example.com"), ("phone", "5550001111"), ("message", "hi")] (by simp)

theorem phone_recognized_iff_twoForms :
    ∃ visit ∈ simulate shipped (failing [phoneForm "1", phoneForm "2"]) emptyLedger,
      ∃ event ∈ visit.after.db .events, ¬ visit.before.db.Has .events (Event.id event) ∧
        Recognizes shipped visit.before visit.after event "5550001111" := by
  obtain ⟨visit, hvisit, event, hevent, hvalid, hnew, hphone, hemail, old, hold, holdPhone, link, hlink,
      hlinkEvent, identity, hidentity, hprimary, hlinkIdentity⟩ :
      ∃ visit ∈ simulate shipped (failing [phoneForm "1", phoneForm "2"]) emptyLedger,
        ∃ event ∈ visit.after.db .events, Event.isValid event = true ∧
          (∀ row ∈ visit.before.db .events, Event.id row ≠ Event.id event) ∧
          phoneOf shipped event = some "5550001111" ∧ emailOf shipped event = none ∧
          ∃ old ∈ visit.before.db .events, phoneOf shipped old = some "5550001111" ∧
          ∃ link ∈ visit.before.db .identityLinks, IdentityLink.eventId link = Event.id old ∧
          ∃ identity ∈ visit.before.db .identities,
            Identity.primaryPhone identity = some "5550001111" ∧
            IdentityLink.identityId link = Identity.id identity := by
    rw [shipped_eq_bucketed]
    decide +kernel
  have hnew : ¬ visit.before.db.Has .events (Event.id event) := fun ⟨row, hrow, hid⟩ => hnew row hrow hid
  have hknown : HasPhone shipped visit.before "5550001111" (Identity.id identity) :=
    ⟨_, ⟨link, hlink, hlinkEvent, hlinkIdentity⟩, _, .refl, old, hold, rfl, holdPhone⟩
  refine ⟨visit, hvisit, event, hevent, hnew, ?_⟩
  refine (phone_recognized_iff (simulate_served shipped _) hvisit hevent hvalid hnew hphone
    fun email hsome => ?_).mpr ⟨hemail, identity, hidentity, hprimary, hknown⟩
  rw [hemail] at hsome
  cases hsome

theorem phone_not_recognized :
    ¬ ∀ visits L, Served (service shipped) emptyLedger visits L → ∀ visit ∈ visits,
      ∀ event ∈ visit.after.db .events, Event.isValid event = true →
      ¬ visit.before.db.Has .events (Event.id event) →
      ∀ phone, phoneOf shipped event = some phone →
      (∃ identityId, HasPhone shipped visit.before phone identityId) →
      (∀ email, emailOf shipped event = some email →
        ∀ identity ∈ visit.before.db .identities, Identity.primaryEmail identity ≠ some email) →
      Recognizes shipped visit.before visit.after event phone := by
  intro hall
  obtain ⟨visit, hvisit, event, hevent, hvalid, hnew, hphone, hemail, old, hold, holdPhone, link, hlink,
      hlinkEvent, hminted⟩ :
      ∃ visit ∈ simulate shipped (failing [contactForm, phoneForm "2"]) emptyLedger,
        ∃ event ∈ visit.after.db .events, Event.isValid event = true ∧
          (∀ row ∈ visit.before.db .events, Event.id row ≠ Event.id event) ∧
          phoneOf shipped event = some "5550001111" ∧ emailOf shipped event = none ∧
          ∃ old ∈ visit.before.db .events, phoneOf shipped old = some "5550001111" ∧
          ∃ link ∈ visit.before.db .identityLinks, IdentityLink.eventId link = Event.id old ∧
          visit.after.db .identities ≠ visit.before.db .identities := by
    rw [shipped_eq_bucketed]
    decide +kernel
  have hrecognizes := hall _ _ (simulate_served shipped _) visit hvisit event hevent hvalid
    (fun ⟨row, hrow, hid⟩ => hnew row hrow hid) _ hphone
    ⟨_, _, ⟨link, hlink, hlinkEvent, rfl⟩, _, .refl, old, hold, rfl, holdPhone⟩ fun email hsome => by
      rw [hemail] at hsome
      cases hsome
  exact hminted hrecognizes.identities

end DemandSignal
