import DemandSignal.Simulation
import DemandSignal.Spec.Citations

/-!
# References hold

In every interleaving each foreign key, and each entity of a receipt, is the id of one row.
-/

namespace DemandSignal

open Txn

variable {app : App} {config : Config Request Db Write Error Question Reply Response}

/-- What a session commits is a transaction that cites what is there. -/
def Honours (app : App) (s : Session Write Reply) (L : Ledger Db Write) : Prop :=
  Pays app once s L ∧ L.db.Cites s.pending

theorem citing_among (request : Request) :
    Citing (among (service app) (Honours app) Explains request) app once where
  fair := fair_among (fun _ _ hs => hs.1.1) (fun _ _ _ _ => .intro) request
  intact := by
    refine ⟨fun s L L' hrely hintact => ?_, fun s L hs hintact => hintact.commit hs.2⟩
    refine amid_induct hrely Intact hintact fun L₁ L₂ hintact hinterferes => ?_
    obtain ⟨other, hother, -, -, rfl⟩ := hinterferes
    exact hintact.commit hother.2
  commits _ _ hready htransaction hcites := ⟨⟨hready, htransaction⟩, hcites⟩

theorem reachable_intact (h : Reachable (service app) emptyLedger config) : Intact config.ledger := by
  have hsound : config.Sound (service app) Intact (Honours app) Explains fun _ _ _ _ => True :=
    h.sound_of_commits (fun _ _ hintact hs => hintact.commit hs.2)
      (fun request _ hintact => (citing_among request).wp_handle rfl hintact request) intact_empty
  exact hsound.inv

/-- **No reference dangles.** Whatever runs at the same time, what a row refers to is there, once. -/
theorem references_hold (h : Reachable (service app) emptyLedger config) {t : Table} {row : Row t}
    (hrow : row ∈ config.ledger.db t) {ref : Table × Uuid} (href : ref ∈ row.refs) :
    ∃ target ∈ config.ledger.db ref.1, target.id = ref.2 ∧
      ∀ other ∈ config.ledger.db ref.1, other.id = ref.2 → other = target := by
  obtain ⟨target, htarget, hid⟩ := reachable_intact h config.ledger .refl t row hrow ref href
  exact ⟨target, htarget, hid, fun other hother hother' =>
    (reachable_history h).distinct.eq_of_id hother htarget (hother'.trans hid.symm)⟩

/-- A form that is served, and another of the same sender half way. -/
def overtaken : List (Action Request) :=
  [.spawn (webForm "1" firstDay "hi"), .spawn (webForm "2" secondDay "hi")] ++
    List.replicate 20 (.step 1) ++ List.replicate 48 (.step 0)

theorem references_hold_overtaken : ∃ config, interleave unreachable overtaken = some config ∧
    ∃ lead ∈ config.ledger.db .leads, ∃ event ∈ config.ledger.db .events,
      Event.id event = Lead.sourceEventId lead := by
  have hplayed : (interleave unreachable overtaken).any
      (fun config => (config.ledger.db .leads).any fun _ => true) = true := by
    rw [interleave, shipped_eq_bucketed]
    decide +kernel
  obtain ⟨config, hconfig, h⟩ := (Option.any_eq_true _ _).mp hplayed
  obtain ⟨lead, hlead, -⟩ := List.any_eq_true.mp h
  obtain ⟨event, hevent, hid, -⟩ := references_hold (interleave_reachable hconfig) hlead
    (List.mem_cons_of_mem _ (List.mem_singleton_self (Table.events, Lead.sourceEventId lead)))
  exact ⟨config, hconfig, lead, hlead, event, hevent, hid⟩

end DemandSignal
