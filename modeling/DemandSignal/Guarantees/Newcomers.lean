import DemandSignal.Simulation
import DemandSignal.Spec.Newcomers

/-!
# Similar newcomers

Two events with similar names and no other key: whoever comes second is to find the first. Nothing stands
behind the search as the unique indexes stand behind those for an email and a phone, so two calls that
both search before the other commits mint two identities.
-/

namespace DemandSignal

open Txn Resolve

variable {app : App}

/-- Of two similar events at most one is linked to a fresh identity, and a call that returns has queued
the other for review. -/
def Reviewed (L₀ : Ledger Db Write)
    (config : Config (Stranger app L₀.db) Db Write Error Question Reply Resolution) : Prop :=
  ∀ first second : Stranger app L₀.db, first.event.id ≠ second.event.id →
    Similar app (fieldsOf first.event) (fieldsOf second.event) →
    Newcomer L₀.db config.ledger.db first.event.id →
    ¬ Newcomer L₀.db config.ledger.db second.event.id ∧
      ∀ call ∈ config.threads, call.input.event.id = second.event.id →
        (∃ resolution, call.status = .ended (.ok resolution)) → Unlinked second.event.id L₀.db →
        Queued config.ledger.db second.event.id

/-- **Of two similar newcomers one is reviewed**, in every interleaving in which each call that mints an
identity commits it to a database that still holds no similar one. -/
theorem newcomers_reviewed {before : Config Request Db Write Error Question Reply Response}
    (hbefore : Reachable (service app) emptyLedger before)
    {config : Config (Stranger app before.ledger.db) Db Write Error Question Reply Resolution}
    (h : Reachable (strangers app before.ledger.db) before.ledger config)
    (hunmatched : ∀ commit ∈ config.ledger.log.drop before.ledger.log.length, Unmatched app commit) :
    Reviewed before.ledger config := by
  have hsound := Stranger.sound (reachable_history hbefore).distinct h
  intro first second hne hsimilar hfirst
  have hsecond : ¬ Newcomer before.ledger.db config.ledger.db second.event.id := fun hsecond =>
    hsound.inv.apart hunmatched first second hne hfirst hsecond hsimilar
  refine ⟨hsecond, fun call hcall hid ⟨resolution, hstatus⟩ hunlinked => ?_⟩
  have hends := hsound.threads call hcall
  rw [Thread.Sound, hstatus] at hends
  obtain ⟨s, -, hends⟩ := hends
  rw [← hid]
  refine (hends ⟨resolution, rfl⟩).resolve_left ?_
  rintro ⟨identityId, link, hlink, hevent, -⟩
  rw [hid] at hevent
  obtain ⟨identity, -, -, hnew, -⟩ := hsound.inv.links second hunlinked link hlink hevent
  exact hsecond ⟨hunlinked, _, ⟨link, hlink, hevent, rfl⟩, hnew⟩

/-- A mention of somebody by name. -/
def mention (externalEventId : String) : Request :=
  submit [("source", "social_mention"), ("external_event_id", externalEventId),
    ("received_at", firstDay), ("display_name", "Ada"), ("text", "hi")] (by simp)

def Stranger.ofEvent (app : App) (db : Db) (event : Event) (hmem : event ∈ db .events) :
    Option (Stranger app db) :=
  match hrule : rule app (fieldsOf event) with
  | .fuzzyName name => some ⟨event, name, hmem, hrule⟩
  | _ => none

/-- The strangers of a database. -/
def Db.strangers (app : App) (db : Db) : List (Stranger app db) :=
  (db .events).attach.filterMap fun event => Stranger.ofEvent app db event.1 event.2

/-- A call for each stranger, and who takes the next step. -/
def callsInTurn (app : App) (db : Db) (turns : List Nat) : List (Action (Stranger app db)) :=
  (db.strangers app).map .spawn ++ turns.map .step

/-- Two mentions are stored, and nobody has been resolved. -/
def mentionedTwice : List (Action Request) := inTurn 0 [(mention "4", 6), (mention "5", 6)]

/-- The second call searches when the first has committed. -/
theorem newcomers_reviewed_inTurn :
    ∃ before config, interleave unreachable mentionedTwice = some before ∧
      Config.play (strangers shipped before.ledger.db) unreachable 40 ⟨before.ledger, []⟩
        (callsInTurn shipped before.ledger.db (List.replicate 12 0 ++ List.replicate 10 1)) =
          some config ∧ Reviewed before.ledger config := by
  have hplayed : (interleave unreachable mentionedTwice).any (fun before =>
      (Config.play (strangers shipped before.ledger.db) unreachable 40 ⟨before.ledger, []⟩
        (callsInTurn shipped before.ledger.db (List.replicate 12 0 ++ List.replicate 10 1))).any
      fun config => decide (∀ commit ∈ config.ledger.log.drop before.ledger.log.length,
        Unmatched shipped commit)) = true := by
    rw [interleave, shipped_eq_bucketed]
    decide +kernel
  obtain ⟨before, hbefore, hcalls⟩ := (Option.any_eq_true _ _).mp hplayed
  obtain ⟨config, hconfig, hunmatched⟩ := (Option.any_eq_true _ _).mp hcalls
  exact ⟨before, config, hbefore, hconfig, newcomers_reviewed (interleave_reachable hbefore)
    (Config.play_reachable (fun _ _ _ _ => trivial) (fun _ => trivial) .refl hconfig)
    (of_decide_eq_true hunmatched)⟩

/-- Both calls search before either commits, and both mint. -/
theorem newcomers_unreviewed :
    ¬ ∀ (before : Config Request Db Write Error Question Reply Response)
      (config : Config (Stranger shipped before.ledger.db) Db Write Error Question Reply Resolution),
      Reachable (service shipped) emptyLedger before →
      Reachable (strangers shipped before.ledger.db) before.ledger config →
      Reviewed before.ledger config := by
  intro hall
  have hplayed : (interleave unreachable mentionedTwice).any (fun before =>
      (Config.play (strangers shipped before.ledger.db) unreachable 40 ⟨before.ledger, []⟩
        (callsInTurn shipped before.ledger.db
          ([0, 0, 1, 1] ++ List.replicate 10 0 ++ List.replicate 10 1))).any
      fun config => decide (∃ first ∈ before.ledger.db.strangers shipped,
        ∃ second ∈ before.ledger.db.strangers shipped, first.event.id ≠ second.event.id ∧
          Similar shipped (fieldsOf first.event) (fieldsOf second.event) ∧
          Newcomer before.ledger.db config.ledger.db first.event.id ∧
          Newcomer before.ledger.db config.ledger.db second.event.id)) = true := by
    rw [interleave, shipped_eq_bucketed]
    decide +kernel
  obtain ⟨before, hbefore, hcalls⟩ := (Option.any_eq_true _ _).mp hplayed
  obtain ⟨config, hconfig, hminted⟩ := (Option.any_eq_true _ _).mp hcalls
  obtain ⟨first, -, second, -, hne, hsimilar, hfirst, hsecond⟩ := of_decide_eq_true hminted
  exact (hall before config (interleave_reachable hbefore)
    (Config.play_reachable (fun _ _ _ _ => trivial) (fun _ => trivial) .refl hconfig)
    first second hne hsimilar hfirst).1 hsecond

end DemandSignal
