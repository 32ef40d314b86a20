import DemandSignal.Simulation
import DemandSignal.Spec.Links

/-!
# Fuzzy similarity never merges

An event is attached to an identity that was there before only by its own email or phone, or by a
reviewer, unless two requests turn its link at once: an `UPDATE` leaves out the columns that it has
read as they should be, whatever another request has made of them since.
-/

namespace DemandSignal

open Txn Resolve

variable {app : App} {L L₀ : Ledger Db Write} {ws : List Write}

/-- Why a transaction may attach an event to an identity. -/
inductive Warranted (app : App) (L : Ledger Db Write) (ws : List Write) (link : IdentityLink) : Prop
  | minted (hnew : ¬ L.db.Has .identities link.identityId)
  | exactEmail {event identity email} (hrule : link.matchRule = .exactEmail)
      (hevent : ∃ L₀, Extends L₀ L ∧ event ∈ L₀.db .events) (heventId : event.id = link.eventId)
      (hemail : (fieldsOf event).email = some email) (hidentity : identity ∈ L.db .identities)
      (hidentityId : Identity.id identity = link.identityId)
      (hprimary : Identity.primaryEmail identity = some (normalizeEmail app email))
  | exactPhone {event identity phone normal} (hrule : link.matchRule = .exactPhone)
      (hevent : ∃ L₀, Extends L₀ L ∧ event ∈ L₀.db .events) (heventId : event.id = link.eventId)
      (hphone : (fieldsOf event).phone = some phone) (hnormal : normalizePhone app phone = some normal)
      (hidentity : identity ∈ L.db .identities)
      (hidentityId : Identity.id identity = link.identityId)
      (hprimary : Identity.primaryPhone identity = some normal)
  | reviewed {receipt reviewId} (hrule : link.matchRule = .manualReviewResolve)
      (hreceipt : receipt ∈ (L.commit ws).db .receipts)
      (haction : Receipt.actionType receipt = .reviewResolved)
      (heventId : Receipt.eventId receipt = some link.eventId)
      (hidentityId : Receipt.identityId receipt = some link.identityId)
      (hdecision : Receipt.metadata receipt = .reviewResolved "merge_into" reviewId)

theorem rule_eq_exactEmail {fields : IdentityFields} {email : String}
    (h : rule app fields = .exactEmail email) :
    ∃ raw, fields.email = some raw ∧ normalizeEmail app raw = email := by
  unfold rule at h
  split at h
  · next heq =>
    cases h
    obtain ⟨normal, hnormal, horNone⟩ := Option.bind_eq_some_iff.mp heq
    obtain ⟨raw, hraw, rfl⟩ := Option.map_eq_some_iff.mp hnormal
    refine ⟨raw, hraw, ?_⟩
    unfold Python.orNone at horNone
    split at horNone
    · cases horNone
    · exact Option.some.inj horNone
  · split at h
    · cases h
    · split at h <;> cases h

theorem rule_eq_exactPhone {fields : IdentityFields} {phone : String}
    (h : rule app fields = .exactPhone phone) :
    ∃ raw, fields.phone = some raw ∧ normalizePhone app raw = some phone := by
  unfold rule at h
  split at h
  · cases h
  · split at h
    · next heq =>
      cases h
      exact Option.bind_eq_some_iff.mp heq
    · split at h <;> cases h

theorem Resolve.Links.warranted {event : Event} {identityId : Uuid}
    (h : Links app once L event identityId ws) (happ : Applicable ws L.db) :
    ∃ matchRule, LinksEvent once L ws event.id identityId matchRule ∧
      ∀ link : IdentityLink, link.eventId = event.id → link.identityId = identityId →
        link.matchRule = matchRule → Warranted app L ws link := by
  obtain ⟨matchRule, hlinks⟩ := h.linksEvent
  cases h with
  | @found identity matchRule link now hevent hunlinked hidentity hfinds hlink =>
      refine ⟨matchRule, ⟨link, now, hlink, Upsert.filter_writes ..⟩, fun link heventId hid hrule => ?_⟩
      obtain ⟨L₁, hextends, hidentity⟩ := hidentity
      have hidentity := hextends.identity_mem hidentity
      cases hcase : rule app (fieldsOf event) with
      | exactEmail email =>
          rw [hcase] at hfinds
          obtain ⟨raw, hraw, rfl⟩ := rule_eq_exactEmail hcase
          exact .exactEmail (hrule.trans hfinds.1) hevent heventId.symm hraw hidentity hid.symm
            hfinds.2
      | exactPhone phone =>
          rw [hcase] at hfinds
          obtain ⟨raw, hraw, hnormal⟩ := rule_eq_exactPhone hcase
          exact .exactPhone (hrule.trans hfinds.1) hevent heventId.symm hraw hnormal hidentity hid.symm
            hfinds.2
      | fuzzyName name =>
          rw [hcase] at hfinds
          exact hfinds.elim
      | noIdentityFields =>
          rw [hcase] at hfinds
          exact hfinds.elim
  | @minted identity _ link now _ rid hevent hunlinked hmisses hmints hlink =>
      refine ⟨matchRule, hlinks, fun link _ hid _ => .minted ?_⟩
      rw [hid]
      rintro ⟨old, hold, holdId⟩
      exact happ.id_ne (t := .identities) (s := .identities) hold (List.mem_cons_self ..)
        ((Resolve.Rule.mints_spec hmints).1.trans holdId.symm)

theorem Resolve.Resolves.warranted {decision : String} {review : ManualReviewQueue}
    {identityId : Uuid} (h : Resolves once L decision review identityId ws)
    (happ : Applicable ws L.db) {link : IdentityLink} (heventId : link.eventId = review.eventId)
    (hidentityId : link.identityId = identityId) (hrule : link.matchRule = .manualReviewResolve) :
    Warranted app L ws link := by
  cases h with
  | @merged resolvedAt target upsert rid now hpending hdecision htarget hlink =>
      have hreceipt : .insert .receipts (receipt .reviewResolved review.id .manualReview
          (.reviewResolved decision review.id) (some review.eventId) (some target.id) .ok rid now) ∈
          .update .manualReviewQueue review (resolved review decision resolvedAt) ::
            (upsert.writes now ++
              [.insert .receipts (receipt .reviewResolved review.id .manualReview
                (.reviewResolved decision review.id) (some review.eventId) (some target.id) .ok rid
                now)]) := by simp
      refine .reviewed hrule (receipt_mem_commit hreceipt) rfl (congrArg some heventId.symm)
        (congrArg some hidentityId.symm)
        (?_ : _ = Meta.reviewResolved "merge_into" review.id)
      rw [hdecision]
      rfl
  | @created resolvedAt identity _ rid upsert rid' now hpending hdecision hid hnow hkeys hlink =>
      refine .minted ?_
      rw [hidentityId]
      rintro ⟨old, hold, holdId⟩
      exact happ.id_ne (t := .identities) (s := .identities) hold
        (List.mem_cons_of_mem _ (List.mem_cons_self ..)) (hid.trans holdId.symm)

/-- Every link was attached by a transaction that had a warrant for it. -/
theorem History.linksWarranted (h : History app once L)
    (hcurrent : ∀ commit ∈ L.log, LinksCurrent commit.before commit.writes) :
    ∀ link ∈ L.db .identityLinks, ∃ L₁ ws, Extends (L₁.commit ws) L ∧ Attaches ws link ∧
      Warranted app L₁ ws link := by
  induction h with
  | empty => exact fun link hlink => absurd hlink List.not_mem_nil
  | @commit L ws h htransaction happ ih =>
      have hlast : LinksCurrent L.db ws :=
        hcurrent ⟨L.db, ws⟩ (List.mem_append_right _ (List.mem_singleton_self _))
      have hold : ∀ link ∈ L.db .identityLinks, ∃ L₁ ws', Extends (L₁.commit ws') (L.commit ws) ∧
          Attaches ws' link ∧ Warranted app L₁ ws' link := by
        intro link hlink
        obtain ⟨L₁, ws', hextends, hattaches, hwarranted⟩ :=
          ih (fun commit hcommit => hcurrent commit (List.mem_append_left _ hcommit)) link hlink
        exact ⟨L₁, ws', hextends.trans (Extends.commit L ws), hattaches, hwarranted⟩
      intro link hlink
      obtain ⟨event, identityId, hlinks⟩ | ⟨decision, review, identityId, hresolves⟩ | huntouched :=
        htransaction.links_cases
      · obtain ⟨matchRule, hlinksEvent, hwarranted⟩ := hlinks.warranted happ
        obtain hmem | ⟨hattaches, heventId, hidentityId, hrule⟩ :=
          hlinksEvent.mem_commit lawful_once h.distinct hlast hlink
        · exact hold link hmem
        · exact ⟨L, ws, .refl, hattaches, hwarranted link heventId hidentityId hrule⟩
      · obtain hmem | ⟨hattaches, heventId, hidentityId, hrule⟩ :=
          hresolves.linksEvent.mem_commit lawful_once h.distinct hlast hlink
        · exact hold link hmem
        · exact ⟨L, ws, .refl, hattaches, hresolves.warranted happ heventId hidentityId hrule⟩
      · rw [commit_of_untouched huntouched] at hlink
        exact hold link hlink

/-- **Nothing but its own email, its own phone or a reviewer attaches an event to an identity that was
there before**, in every run whose updates of links find the columns they leave out as they read
them. -/
theorem links_warranted {config : Config Request Db Write Error Question Reply Response}
    (h : Reachable (service app) emptyLedger config)
    (hcurrent : ∀ commit ∈ config.ledger.log, LinksCurrent commit.before commit.writes) :
    ∀ link ∈ config.ledger.db .identityLinks, ∃ L₁ ws, Extends (L₁.commit ws) config.ledger ∧
      Attaches ws link ∧ Warranted app L₁ ws link :=
  (reachable_history h).linksWarranted hcurrent

/-- Two forms of one sender, one after the other. -/
def sameSender : List (Action Request) :=
  inTurn 0 [(webForm "1" firstDay "hi", 52), (webForm "2" secondDay "hi", 43)]

theorem links_warranted_sameSender :
    ∃ config, interleave unreachable sameSender = some config ∧
      ∀ link ∈ config.ledger.db .identityLinks, ∃ L₁ ws, Extends (L₁.commit ws) config.ledger ∧
        Attaches ws link ∧ Warranted shipped L₁ ws link := by
  have hplayed : (interleave unreachable sameSender).any (fun config =>
      decide (∀ commit ∈ config.ledger.log, LinksCurrent commit.before commit.writes)) = true := by
    rw [interleave, shipped_eq_bucketed]
    decide +kernel
  obtain ⟨config, hconfig, hcurrent⟩ := (Option.any_eq_true _ _).mp hplayed
  exact ⟨config, hconfig, links_warranted (interleave_reachable hconfig) (of_decide_eq_true hcurrent)⟩

def steps (n count : Nat) : List (Action Request) := List.replicate count (.step n)

/-- Two edits of the engagement and its reviewer: an edit has read the link of the other before the
reviewer turns it. -/
def crossedLinks : List (Action Request) :=
  inTurn 0 [(webForm "1" firstDay "hi", 52), (bobForm, 52), (engagement, 16)] ++
    [.spawn (engagementOf "bob@example.com")] ++ steps 3 7 ++
    [.spawn (engagementOf "ada@example.com")] ++ steps 4 12 ++ steps 3 2 ++
    [.spawn (.resolveManualReview (some 33) "merge_into" (some (some 3)))] ++ steps 5 6 ++
    steps 3 2 ++ steps 5 4

theorem links_unwarranted :
    ¬ ∀ config, Reachable (service shipped) emptyLedger config →
      ∀ link ∈ config.ledger.db .identityLinks, ∃ L₁ ws, Extends (L₁.commit ws) config.ledger ∧
        Attaches ws link ∧ Warranted shipped L₁ ws link := by
  intro hall
  have hplayed : (interleave unreachable crossedLinks).any (fun config =>
      (config.ledger.db .identityLinks).any fun link =>
        config.ledger.log.all fun commit => !decide (Attaches commit.writes link)) = true := by
    rw [interleave, shipped_eq_bucketed]
    decide +kernel
  obtain ⟨config, hconfig, hlink⟩ := (Option.any_eq_true _ _).mp hplayed
  obtain ⟨link, hmem, hnone⟩ := List.any_eq_true.mp hlink
  obtain ⟨L₁, ws, hextends, hattaches, -⟩ := hall config (interleave_reachable hconfig) link hmem
  have hnot := List.all_eq_true.mp hnone _ hextends.mem_log
  simp [hattaches] at hnot

end DemandSignal
