import DemandSignal.Json.RoundTrip
import DemandSignal.Guarantees.Reconciliation
import DemandSignal.Guarantees.Escalation
import DemandSignal.Guarantees.DeadLetters
import DemandSignal.Guarantees.Leads
import DemandSignal.Guarantees.Links
import DemandSignal.Guarantees.Reviews
import DemandSignal.Guarantees.Touches
import DemandSignal.Guarantees.Routes
import DemandSignal.Guarantees.Worklist
import DemandSignal.Guarantees.Accounting
import DemandSignal.Guarantees.Bodies
import DemandSignal.Guarantees.Versions
import DemandSignal.Guarantees.Edits
import DemandSignal.Guarantees.Candidates
import DemandSignal.Guarantees.Frames
import DemandSignal.Guarantees.Projections
import DemandSignal.Guarantees.Receipts
import DemandSignal.Guarantees.Decisions
import DemandSignal.Guarantees.Rulings
import DemandSignal.Guarantees.Reruns
import DemandSignal.Guarantees.Newcomers
import DemandSignal.Guarantees.Deadlines
import DemandSignal.Guarantees.Serial
import DemandSignal.Guarantees.Canonical
import DemandSignal.Guarantees.Scoring
import DemandSignal.Guarantees.Classification
import DemandSignal.Guarantees.Migrations
import DemandSignal.Guarantees.Identities
import DemandSignal.Guarantees.Replays
import DemandSignal.Guarantees.Deliveries
import DemandSignal.Guarantees.Progress
import DemandSignal.Guarantees.Lifecycles
import DemandSignal.Guarantees.Integrity
import DemandSignal.Guarantees.Summary
import DemandSignal.Guarantees.Listings
