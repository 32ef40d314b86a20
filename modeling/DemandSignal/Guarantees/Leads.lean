import DemandSignal.Simulation
import DemandSignal.Spec.Routes

/-!
# Leads, routes and touches

Leads, routes and touches come and stay together. Whoever holds the insert of a lead is alone with its identity, so the inserts that follow it are
never refused.
-/

namespace DemandSignal

open Txn

variable {app : App} {sight : Sight} {L L₀ : Ledger Db Write} {ws : List Write}

/-- The route of a lead and the touch of an identity are never in the way of the insert that `act`
tries after it has found none. -/
theorem History.not_contested {s : Session Write Reply} {t : Table} {row : Row t}
    (h : History app once L) (hexplains : Explains s L (.insert t row))
    (ht : t = .routes ∨ t = .attributionTouches) : False := by
  cases hexplains with
  | intro hready hheld hcontested =>
  obtain ⟨key, hkey, hheld⟩ := hheld
  simp only [Db.holds, List.any_eq_true, decide_eq_true_eq] at hheld
  obtain ⟨other, hother, hmem⟩ := hheld
  rcases ht with rfl | rfl
  · obtain rfl := List.mem_singleton.mp hkey
    have hleadId : Route.leadId other = Route.leadId row := by
      simpa [Row.keys, Row.indexed, eq_comm] using hmem
    obtain ⟨lead, hlead, hid⟩ | ⟨L₀, hextends, ⟨lead, hlead, hid⟩, hnone⟩ := hcontested
    · obtain ⟨old, hold, holdId⟩ := List.mem_map.mp
        ((h.leadsRouted lawful_once (Route.leadId row)).mpr
          (List.mem_map.mpr ⟨other, hother, hleadId⟩))
      exact hready.toApplicable.id_ne (t := .leads) (s := .leads) hold hlead (hid.trans holdId.symm)
    · obtain ⟨held, hheldRow, hheldLead⟩ := List.mem_map.mp
        (((h.of_extends hextends).leadsRouted lawful_once (Route.leadId row)).mp
          (List.mem_map.mpr ⟨lead, hlead, hid⟩))
      exact hnone held hheldRow hheldLead
  · obtain rfl := List.mem_singleton.mp hkey
    have hidentity : AttributionTouch.identityId other = AttributionTouch.identityId row := by
      simpa [Row.keys, Row.indexed, eq_comm] using hmem
    obtain ⟨lead, hlead, hled⟩ | ⟨L₀, hextends, ⟨lead, hlead, hled⟩, hnone⟩ := hcontested
    · obtain ⟨old, hold, holdIdentity⟩ := List.mem_map.mp
        ((h.matched lawful_once (AttributionTouch.identityId row)).mpr
          (List.mem_map.mpr ⟨other, hother, hidentity⟩))
      have hfree := hready.free .leads lead hlead (.leadIdentity lead.identityId)
        (List.mem_singleton_self _)
      rw [Db.holds_eq_false] at hfree
      refine hfree old hold (List.mem_cons_of_mem _ ?_)
      rw [Row.indexed, holdIdentity, hled]
      exact List.mem_singleton_self _
    · obtain ⟨held, hheldRow, hheldIdentity⟩ := List.mem_map.mp
        (((h.of_extends hextends).matched lawful_once (AttributionTouch.identityId row)).mp
          (List.mem_map.mpr ⟨lead, hlead, hled⟩))
      exact hnone held hheldRow hheldIdentity

/-- Leads, routes and touches are complete. -/
structure LeadsComplete (db : Db) : Prop where
  touch : ∀ identityId, (∃ lead ∈ db .leads, Lead.identityId lead = identityId) ↔
    ∃ touch ∈ db .attributionTouches, AttributionTouch.identityId touch = identityId
  route : ∀ lead ∈ db .leads, ((db .routes).filter fun route =>
    Route.leadId route = Lead.id lead).length = 1

/-- The next statement of a request inserts a row of the table, and a unique index refuses it. -/
inductive RefusesInsert (config : Config Request Db Write Error Question Reply Response)
    (t : Table) : Prop
  | intro {n : Nat} {i : Request} {s : Session Write Reply} {β : Type}
      {f : Time → Db → Option Write × β} {k : Option β → Prog Response} {now : Time} {row : Row t}
      {b : β} (hthread : config.threads[n]? = some ⟨i, s, .running (.write f k)⟩)
      (hstart : s.StartsAt now)
      (hwrite : f now (s.view config.ledger.db) = (some (.insert t row), b))
      (hrefuse : Store.refuses (s.view config.ledger.db) (Write.insert t row) = true)

theorem not_refusesInsert {config : Config Request Db Write Error Question Reply Response}
    (h : Reachable (service app) emptyLedger config) {t : Table}
    (ht : t = .routes ∨ t = .attributionTouches) : ¬ RefusesInsert config t := by
  rintro @⟨n, i, s, β, f, k, now, row, b, hthread, hstart, hwrite, hrefuse⟩
  exact (reachable_history h).not_contested
    ((reachable_sound h).refusal hthread hstart hwrite hrefuse trivial) ht

/-- **Leads, routes and touches exist together, and nobody loses the insert of a route or a touch.** -/
theorem leads_complete {config : Config Request Db Write Error Question Reply Response}
    (h : Reachable (service app) emptyLedger config) :
    LeadsComplete config.ledger.db ∧ ¬ RefusesInsert config .routes ∧
      ¬ RefusesInsert config .attributionTouches := by
  have hhistory := reachable_history h
  refine ⟨⟨fun identityId => ?_, fun lead hlead => ?_⟩, not_refusesInsert h (.inl rfl),
    not_refusesInsert h (.inr rfl)⟩
  · simpa using hhistory.matched lawful_once identityId
  · obtain ⟨route, hroute, hleadId⟩ := List.mem_map.mp
      ((hhistory.leadsRouted lawful_once (Lead.id lead)).mp (List.mem_map_of_mem hlead))
    rw [hhistory.distinct.filter_eq_singleton (t := .routes) hroute (decide_eq_true hleadId)]
    · rfl
    · intro other hother hother'
      refine hhistory.distinct.eq_of_indexed (t := .routes) hother hroute
        (?_ : Key.routeLead (Lead.id lead) ∈ _) ?_
      · rw [Row.indexed, of_decide_eq_true hother']
        exact List.mem_singleton_self _
      · rw [Row.indexed, hleadId]
        exact List.mem_singleton_self _

/-- Two forms of one sender, each served half way. -/
def halfServed : List (Action Request) :=
  [.spawn (webForm "1" firstDay "hi"), .spawn (webForm "2" secondDay "hi")] ++
    List.replicate 20 (.step 0) ++ List.replicate 20 (.step 1)

theorem leads_complete_halfServed :
    ∃ config, interleave unreachable halfServed = some config ∧
      LeadsComplete config.ledger.db ∧ ¬ RefusesInsert config .routes ∧
        ¬ RefusesInsert config .attributionTouches := by
  have hplayed : (interleave unreachable halfServed).isSome = true := by
    rw [interleave, shipped_eq_bucketed]
    decide +kernel
  obtain ⟨config, hconfig⟩ := Option.isSome_iff_exists.mp hplayed
  exact ⟨config, hconfig, leads_complete (interleave_reachable hconfig)⟩

end DemandSignal
