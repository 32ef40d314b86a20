import DemandSignal.Simulation
import DemandSignal.Spec.Versions

/-!
# Ingest keeps a map of versions

Over any run the accepted events are the map that the submissions make, every submission is answered
with the verdict of the map, and the receipts count the verdicts.
-/

namespace DemandSignal

open Txn Keyed

variable {app : App} {L : Ledger Db Write}

/-- The accepted events, as entries of a map. -/
def acceptedRows (db : Db) : List (Sigma fun _ : Pair => Json.Fields) :=
  ((db .events).filter Event.isValid).map fun event => ⟨event.pair, event.rawPayload⟩

/-- What the requests have submitted. -/
def submissions (app : App) (visits : List ServiceVisit) : List (Pair × Json.Fields) :=
  visits.filterMap fun visit => visit.input.submission app

noncomputable def stored (app : App) (visits : List ServiceVisit) : Versions Pair Json.Fields :=
  replay SamePayload (submissions app visits)

/-- The accepted events are the map, and the receipts count its keys and the edits. -/
structure Refines (app : App) (visits : List ServiceVisit) (db : Db) : Prop where
  rows : (acceptedRows db).Perm (stored app visits).entries
  created : receipted .eventCreated db = (stored app visits).keys.length
  edited : receipted .eventEdited db =
    (verdicts SamePayload ∅ (submissions app visits)).count .edit

theorem Mirrors.rows_perm {versions : Versions Pair Json.Fields} {db : Db}
    (h : Mirrors app versions db) (hdistinct : db.Distinct) :
    (acceptedRows db).Perm versions.entries := by
  have hnodup : (acceptedRows db).Nodup := by
    refine List.Nodup.map_on (fun event hevent other hother heq => ?_)
      ((List.Nodup.of_map _ (hdistinct.nodup_ids .events)).filter _)
    rw [List.mem_filter] at hevent hother
    obtain ⟨hpair, -⟩ := Sigma.mk.inj heq
    exact (h.sealed other hother.1 hother.2).eq_of_pair (h.sealed event hevent.1 hevent.2) hdistinct
      hother.1 hother.2 hevent.1 hevent.2 hpair
  refine (List.perm_ext_iff_of_nodup hnodup versions.nodupKeys.nodup).mpr fun entry => ?_
  rw [← AList.mem_lookup_iff, h.lookup]
  simp only [acceptedRows, List.mem_map, List.mem_filter]
  constructor
  · rintro ⟨event, ⟨hevent, hvalid⟩, rfl⟩
    exact ⟨event, hevent, hvalid, rfl, rfl⟩
  · rintro ⟨event, hevent, hvalid, hpair, hpayload⟩
    exact ⟨event, ⟨hevent, hvalid⟩, Sigma.ext hpair (heq_of_eq hpayload)⟩

theorem submissions_concat (visits : List ServiceVisit) (visit : ServiceVisit) :
    submissions app (visits ++ [visit]) =
      submissions app visits ++ (visit.input.submission app).toList := by
  rw [submissions, List.filterMap_append, ← submissions]
  congr 1

theorem stored_concat (visits : List ServiceVisit) (visit : ServiceVisit) :
    stored app (visits ++ [visit]) =
      (visit.input.submission app).elim (stored app visits)
        (Keyed.submit SamePayload (stored app visits)) := by
  rw [stored, submissions_concat]
  cases visit.input.submission app with
  | none => rw [Option.toList_none, List.append_nil]; rfl
  | some submission => exact replay_concat _ _

/-- A request adds its verdict to the verdicts. -/
theorem count_concat (visits : List ServiceVisit) (visit : ServiceVisit) (verdict : Keyed.Verdict) :
    (verdicts SamePayload ∅ (submissions app (visits ++ [visit]))).count verdict =
      (verdicts SamePayload ∅ (submissions app visits)).count verdict +
        if verdictOn app (stored app visits) visit.input = some verdict then 1 else 0 := by
  rw [submissions_concat, verdictOn]
  cases visit.input.submission app with
  | none => simp
  | some submission =>
      rw [Option.toList_some, verdicts_concat, List.count_append, List.count_singleton, Option.map_some]
      simp [stored, replay]

/-- The shipped configuration, with digests that do not collide. -/
def collisionFree : App :=
  { shipped with sha256 := fun text => (digests.lookup text).getD (Python.concat ["#", text]) }

theorem collisionFree_eq : collisionFree =
    { bucketed with sha256 := fun text => (lookupDigest text).getD (Python.concat ["#", text]) } := by
  simp only [collisionFree, shipped_eq_bucketed, lookupDigest_eq]

theorem collisionFree_injective : Function.Injective collisionFree.sha256 := by
  have hnodup : (digests.map Prod.snd).Nodup := by decide +kernel
  have hmarked : ∀ digest ∈ digests.map Prod.snd, digest.toList.head? ≠ some '#' := by decide +kernel
  have hvalue : ∀ {text digest}, digests.lookup text = some digest → (text, digest) ∈ digests := by
    intro text digest h
    obtain ⟨before, after, heq, -⟩ := List.lookup_eq_some_iff.mp h
    rw [heq]
    exact List.mem_append_right _ (List.mem_cons_self ..)
  have hne : ∀ {text digest other}, digests.lookup text = some digest →
      digest ≠ Python.concat ["#", other] := by
    rintro text digest other h rfl
    refine hmarked _ (List.mem_map_of_mem (hvalue h)) ?_
    simp [Python.concat]
  intro a b h
  simp only [collisionFree] at h
  cases ha : digests.lookup a with
  | none =>
      cases hb : digests.lookup b with
      | none =>
          rw [ha, hb] at h
          have hlist := congrArg String.toList h
          simpa [Python.concat, String.toList_inj] using hlist
      | some digest =>
          rw [ha, hb] at h
          exact absurd h.symm (hne hb)
  | some digest =>
      cases hb : digests.lookup b with
      | none =>
          rw [ha, hb] at h
          exact absurd h (hne ha)
      | some digest' =>
          rw [ha, hb] at h
          have hsame := List.inj_on_of_nodup_map hnodup (hvalue ha) (hvalue hb) h
          exact congrArg Prod.fst hsame

/-- A form that is sent, sent again, edited and sent in its first version. -/
def resubmissions : List Turn :=
  failing [webForm "1" firstDay "hi", webForm "1" firstDay "hi",
    webForm "1" firstDay "what does it cost", webForm "1" firstDay "hi"]

end DemandSignal
