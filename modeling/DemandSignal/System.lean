import DemandSignal.Routers.Dashboard
import DemandSignal.Routers.Events
import DemandSignal.Routers.Operations
import DemandSignal.Txn.Interleave

/-!
# The service

Every request that writes, and the reconciliation report. Requests are served one after another or
interleaved; each holds one database session.
-/

namespace DemandSignal

open Txn Program

/-- A request body as the JSON reader returns it: every object has distinct keys. -/
structure Body where
  json : Json
  wf : json.Wf

inductive Request where
  | postEvent (body : Option Body)
  | resolveManualReview (reviewId : Option Uuid) (decision : String)
      (identityId : Option (Option Uuid))
  | resolveForm (reviewId : Option Uuid) (decision : String) (identityId : Option (Option Uuid))
  | replayEvent (authorized : Bool) (eventId : Option Uuid)
  | simulateFailure (authorized : Bool) (stage : String) (eventId : Option Uuid)
  | listLeads (filters : Leads.Filters)
  | getLead (withEvent : Bool) (leadId : Option Uuid)
  | reconciliation (window : Dashboard.Window)

inductive Response where
  | ingest (answer : Events.Answer)
  | resolved (status : Nat) (review : ManualReview.Resolved)
  | page (status : Nat) (ok : Bool)
  | replayed (replay : Admin.Replayed)
  | deadLettered (dlq : DeadLetterQueue)
  | leads (views : List Leads.LeadView)
  | lead (detail : Option Leads.LeadDetail)
  | report (report : Dashboard.Report)

def handle (app : App) : Request → Prog Response
  | .postEvent body => do return .ingest (← Events.createEvent app (body.map Body.json))
  | .resolveManualReview reviewId decision identityId => do
      let (status, review) ← ManualReview.resolveManualReview app reviewId decision identityId
      return .resolved status review
  | .resolveForm reviewId decision identityId => do
      let (status, ok) ← ManualReview.resolveForm app reviewId decision identityId
      return .page status ok
  | .replayEvent authorized eventId => do
      return .replayed (← Admin.replayEvent app authorized eventId)
  | .simulateFailure authorized stage eventId => do
      return .deadLettered (← Admin.simulateFailure app authorized stage eventId)
  | .listLeads filters => do return .leads (← Leads.listLeads filters)
  | .getLead withEvent leadId => do return .lead (← Leads.getLead withEvent leadId)
  | .reconciliation window => do return .report (← Dashboard.reconciliation window)

/-- The empty database. -/
def emptyLedger : Ledger Db Write := ⟨{}, []⟩

def service (app : App) : Service Request Db Write Error Question Reply Response where
  program := handle app

end DemandSignal
