import DemandSignal.Services.Ingest

/-!
# Identity resolution

`app/services/resolve.py`: exact email, exact phone, and a fuzzy name match that only ever proposes a
candidate to a reviewer. A rollback expires every object the session has loaded; what a function
returns says whether that happened.
-/

namespace DemandSignal

open Txn Program

namespace Resolve

variable (app : App)

/-! ### Normalization and similarity -/

def normalizeEmail (email : String) : String := app.lower (Python.strip email)

def normalizePhone (phone : String) : Option String :=
  let digits := phone.toList.filter fun c => (app.digit c).isSome
  let national := if digits.length = 11 ∧ digits.head? = some '1' then digits.tail else digits
  Python.orNone (String.ofList national)

def tokens (s : String) : List String := Python.split (app.lower (Python.strip s))

def fuzzySimilarity (nameA nameB : String) (companyA companyB : Option String) : Decimal :=
  if nameA = "" ∨ nameB = "" then .hundredths 0
  else
    let nameRatio := Difflib.ratio (tokens app nameA) (tokens app nameB)
    match companyA.bind Python.orNone, companyB.bind Python.orNone with
    | some a, some b =>
        .ofDouble (Python.toDouble (nameRatio + Difflib.ratio (tokens app a) (tokens app b)) / 2)
    | _, _ => .ofDouble nameRatio

/-- A fuzzy match never links by itself. -/
def shouldAutoLink (_score _threshold : Decimal) : Bool := false

def identityName (identity : Identity) : String :=
  Python.strip (Python.orElse identity.displayName (Python.orElse identity.primaryEmail ""))

/-- The order of quantized decimals. A similarity is never `nan`. -/
def below : Decimal → Decimal → Bool
  | .hundredths a, .hundredths b => a < b
  | _, _ => false

/-- The best candidate so far and its score. -/
def better (name : String) (company : Option String) (best : Option Identity × Decimal)
    (identity : Identity) : Option Identity × Decimal :=
  let score := fuzzySimilarity app name (identityName identity) company identity.primaryCompany
  if below best.2 score then (some identity, score) else best

def fuzzyCandidate (name : String) (company : Option String) (identities : List Identity) :
    Option Identity :=
  (identities.foldl (better app name company) (none, .hundredths 0)).1

/-! ### Lookups and links -/

def findByEmail (email : String) : Prog (Option Identity) :=
  find .identities fun identity => identity.primaryEmail = some email

def findByPhone (phone : String) : Prog (Option Identity) :=
  find .identities fun identity => identity.primaryPhone = some phone

def findFuzzyCandidate (name : String) (company : Option String) : Prog (Option Identity) := do
  let identities ← findAll .identities fun identity =>
    identity.displayName.isSome || identity.primaryEmail.isSome
  return fuzzyCandidate app name company identities

def findLink (eventId : Uuid) : Prog (Option IdentityLink) :=
  find .identityLinks fun link => link.eventId = eventId

/-- `Decimal("1.00")` -/
def certain : Decimal := .hundredths 100

def upsertIdentityLink (eventId identityId : Uuid) (matchConfidence : Decimal)
    (matchRule : MatchRule) : Prog Unit := do
  match ← findLink eventId with
  | none =>
      let _ ← insert .identityLinks .integrityError fun id _ =>
        { id, identityId, eventId, matchConfidence, matchRule }
      return ()
  | some link =>
      save .identityLinks .integrityError link
        ({ link with identityId, matchConfidence, matchRule } : IdentityLink)

def queueReview (eventId : Uuid) (candidateIdentityId : Option Uuid) (reason : String) :
    Prog ManualReviewQueue := do
  match ← find .manualReviewQueue fun review => review.eventId = eventId with
  | some existing => do
      let refreshed : ManualReviewQueue := { existing with candidateIdentityId, reason }
      save .manualReviewQueue .integrityError existing refreshed
      return refreshed
  | none =>
      let entry ← insert .manualReviewQueue .integrityError fun id _ =>
        { id, eventId, candidateIdentityId, reason }
      let _ ← writeReceipt .reviewQueued entry.id .manualReview (.reviewQueued reason)
        (some eventId)
      return entry

/-! ### Resolving an event -/

/-- What became of an event. `expired` says that a rollback expired the objects of the session. -/
inductive Resolution where
  | linked (identityId : Uuid) (expired : Bool)
  | queuedReview (reviewId : Uuid)
deriving DecidableEq

/-- Link to the identity a lookup finds, or to one created from the event. -/
def linkViaExact (event : Event) (matchRule : MatchRule) (lookup : Prog (Option Identity))
    (create : Uuid → Time → Identity) : Prog Resolution := do
  let finish (identity : Identity) (expired : Bool) : Prog Resolution := do
    upsertIdentityLink event.id identity.id certain matchRule
    commitNow
    return .linked identity.id expired
  match ← lookup with
  | some identity => finish identity false
  | none =>
    match ← tryInsert .identities create with
    | some identity =>
        let _ ← writeReceipt .identityCreated identity.id .identity
          (.identityCreated matchRule none) (some event.id) (some identity.id)
        finish identity false
    | none =>
        -- lost a race: the winner's row, and every object of the session expired
        rollbackNow
        match ← lookup with
        | none => .raise .integrityError
        | some identity => finish identity true

/-- The name a fuzzy match compares. -/
def fuzzyName (fields : IdentityFields) : String :=
  Python.strip (Python.orElse fields.name (Python.orElse fields.displayName ""))

/-- A company with nothing but spaces is none. -/
def companyName (fields : IdentityFields) : Option String :=
  Python.orNone (Python.strip (Python.orElse fields.company ""))

/-- What a fuzzy match proposes: a candidate at or above the threshold, and why. -/
def proposal (name : String) (company : Option String) (candidate : Identity) :
    Option Uuid × String :=
  match fuzzySimilarity app name (identityName candidate) company candidate.primaryCompany with
  | .nan => (some candidate.id, Python.concat ["fuzzy_name_company_manual_review:", Decimal.nan.str])
  | .hundredths score =>
      if (score / 100 : ℚ) < app.identityPolicy.confidenceThreshold then
        (none, "no_confident_fuzzy_candidate")
      else
        (some candidate.id,
          Python.concat ["fuzzy_name_company_manual_review:", (Decimal.hundredths score).str])

/-- Park an event and halt its pipeline. -/
def park (eventId : Uuid) (candidateIdentityId : Option Uuid) (reason : String) :
    Prog Resolution := do
  let entry ← queueReview eventId candidateIdentityId reason
  commitNow
  let entry ← refresh .manualReviewQueue .invalidRequest entry
  return .queuedReview entry.id

def resolveByName (event : Event) (name : String) (company : Option String) :
    Prog Resolution := do
  match ← findFuzzyCandidate app name company with
  | none =>
      let identity ← insert .identities .integrityError fun id now =>
        { id, displayName := some name, primaryCompany := company, createdAt := now }
      let _ ← writeReceipt .identityCreated identity.id .identity
        (.identityCreated .fuzzyNameCompany none) (some event.id) (some identity.id)
      upsertIdentityLink event.id identity.id certain .fuzzyNameCompany
      commitNow
      let identity ← refresh .identities .invalidRequest identity
      return .linked identity.id false
  | some candidate =>
      let (candidateIdentityId, reason) := proposal app name company candidate
      park event.id candidateIdentityId reason

/-- The rules in order, for an event without a link. -/
inductive Rule where
  | exactEmail (email : String)
  | exactPhone (phone : String)
  | fuzzyName (name : String)
  | noIdentityFields

/-- The first rule whose field the event has. -/
def rule (fields : IdentityFields) : Rule :=
  match (fields.email.map (normalizeEmail app)).bind Python.orNone with
  | some email => .exactEmail email
  | none =>
    match fields.phone.bind (normalizePhone app) with
    | some phone => .exactPhone phone
    | none => if fuzzyName fields = "" then .noIdentityFields else .fuzzyName (fuzzyName fields)

def resolveIdentity (event : Event) : Prog Resolution := do
  let fields := event.identityFields.getD {}
  match ← findLink event.id with
  | some link => return .linked link.identityId false
  | none =>
    match rule app fields with
    | .exactEmail email =>
        linkViaExact event .exactEmail (findByEmail email) fun id now =>
          { id, primaryEmail := some email, displayName := fields.name
            primaryCompany := fields.company, createdAt := now }
    | .exactPhone phone =>
        linkViaExact event .exactPhone (findByPhone phone) fun id now =>
          { id, primaryPhone := some phone, displayName := fields.name
            primaryCompany := fields.company, createdAt := now }
    | .fuzzyName name => resolveByName app event name (companyName fields)
    | .noIdentityFields => park event.id none "no_identity_fields"

/-! ### Resolving a review -/

/-- The exceptions of `resolve_review` that its callers catch. -/
inductive ReviewError where
  | alreadyResolved
  | mergeWithoutIdentity
  | identityNotFound
  | reviewNotFound
deriving DecidableEq

structure ResolvedReview where
  identityId : Uuid
  reviewId : Uuid
  eventId : Uuid

def findIdentity (identityId : Uuid) : Prog (Option Identity) :=
  find .identities fun identity => identity.id = identityId

def findReview (reviewId : Uuid) : Prog (Option ManualReviewQueue) :=
  find .manualReviewQueue fun review => review.id = reviewId

/-- `UPDATE ... WHERE status = 'pending' RETURNING ...` -/
def claimReview (reviewId : Uuid) (decision : String) (resolvedAt : Time) :
    Prog (Option ManualReviewQueue) :=
  .execute .integrityError fun _ db =>
    match (db .manualReviewQueue).find? fun review =>
        review.id = reviewId && review.status = .pending with
    | none => (none, none)
    | some review =>
        (some (.update .manualReviewQueue review
          ({ review with
              status := .resolved
              resolvedAt := some resolvedAt
              resolution := some decision } : ManualReviewQueue)), some review)

/-- The identity a reviewer merges into, or the new one the event's fields name. -/
def mergeInto (review : ManualReviewQueue) (decision : String) (identityId : Uuid) :
    Prog (Except ReviewError ResolvedReview) := do
  match ← findIdentity identityId with
  | none => return .error .identityNotFound
  | some target =>
      upsertIdentityLink review.eventId target.id certain .manualReviewResolve
      let _ ← writeReceipt .reviewResolved review.id .manualReview
        (.reviewResolved decision review.id) (some review.eventId) (some target.id)
      commitNow
      return .ok ⟨target.id, review.id, review.eventId⟩

def createNew (review : ManualReviewQueue) (decision : String) :
    Prog (Except ReviewError ResolvedReview) := do
  let event ← find .events fun event => event.id = review.eventId
  let fields := (event.bind Event.identityFields).getD {}
  let identity ← insert .identities .integrityError fun id now =>
    { id, displayName := Python.orNone (fuzzyName fields), primaryCompany := companyName fields
      createdAt := now }
  let _ ← writeReceipt .identityCreated identity.id .identity
    (.identityCreated .manualReviewResolve (some review.id)) (some review.eventId) (some identity.id)
  upsertIdentityLink review.eventId identity.id certain .manualReviewResolve
  let _ ← writeReceipt .reviewResolved review.id .manualReview
    (.reviewResolved decision review.id) (some review.eventId) (some identity.id)
  commitNow
  return .ok ⟨identity.id, review.id, review.eventId⟩

/-- Claim a pending review and link its event; every decision but `merge_into` creates an
identity. -/
def claimAndLink (reviewId : Uuid) (decision : String) (mergeTarget : Option Uuid) :
    Prog (Except ReviewError ResolvedReview) := do
  let resolvedAt ← utcNow
  match ← claimReview reviewId decision resolvedAt with
  | none =>
      match ← findReview reviewId with
      | none => return .error .reviewNotFound
      | some _ => return .error .alreadyResolved
  | some review =>
      match mergeTarget with
      | some identityId => mergeInto review decision identityId
      | none => createNew review decision

def resolveReview (reviewId : Uuid) (decision : String) (identityId : Option Uuid) :
    Prog (Except ReviewError ResolvedReview) := do
  if decision = "merge_into" then
    match identityId with
    | none => return .error .mergeWithoutIdentity
    | some identityId =>
        match ← findIdentity identityId with
        | none => return .error .identityNotFound
        | some _ => claimAndLink reviewId decision (some identityId)
  else claimAndLink reviewId decision none

end Resolve

end DemandSignal
