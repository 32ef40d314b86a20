import DemandSignal.Simulation
import DemandSignal.Spec.Projections

/-!
# An event row and its payload

Every accepted event is made of the payload it stores, unless edits of it overlap: each of two edits
writes the columns in which it differs from what both have read, and the row is made of both.
-/

namespace DemandSignal

open Txn

variable {app : App}

/-- Two versions of an event, one after the other. -/
def successive : List (Action Request) :=
  inTurn 0 [(webForm "1" firstDay "hi", 52), (webForm "1" secondDay "hi", 8)]

/-- Two edits of the first version: one has read it before the other stores a later date. -/
def overlapping : List (Action Request) :=
  inTurn 0 [(webForm "1" firstDay "hi", 52)] ++
    [.spawn (webForm "1" firstDay "what does it cost"), .step 1] ++
    [.spawn (webForm "1" secondDay "hi")] ++ List.replicate 6 (.step 2) ++
    List.replicate 5 (.step 1)

end DemandSignal
