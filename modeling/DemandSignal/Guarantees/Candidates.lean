import DemandSignal.Simulation
import DemandSignal.Spec.Candidates

/-!
# The candidate shown to a reviewer

The search finds the same identity in every order of the rows exactly when no two share the highest
similarity above zero. Otherwise the first of them wins, and not the oldest.
-/

namespace DemandSignal

open Txn Program Resolve

variable {app : App} {name : String} {company : Option String}

/-- The most similar identity and, of several, the oldest; nobody exactly when nobody is similar. -/
def OldestMostSimilar (app : App) (name : String) (company : Option String)
    (identities : List Identity) : Option Identity → Prop
  | none => ∀ identity ∈ identities, similarity app name company identity = 0
  | some candidate => MostSimilar app name company identities candidate ∧
      ∀ other, MostSimilar app name company identities other → candidate.createdAt ≤ other.createdAt

/-- Every search over the identities of the database, in whatever order they come, finds the
candidate. -/
def AlwaysFinds (app : App) (name : String) (company : Option String) (db : Db)
    (candidate : Option Identity) : Prop :=
  ∀ (setting : Setting Db Write Key Question Reply) s L r s' L',
    (s.view L.db .identities).Perm (db .identities) →
    Runs setting s L (findFuzzyCandidate app name company) r s' L' → r = .ok candidate

/-- The candidate is the one it should be, and it does not depend on the order of the rows. -/
def CandidateDetermined (app : App) (name : String) (company : Option String) (db : Db) : Prop :=
  ∃ candidate, OldestMostSimilar app name company (named db) candidate ∧
    AlwaysFinds app name company db candidate

theorem findFuzzyCandidate_result {setting : Setting Db Write Key Question Reply}
    {s s' : Session Write Reply} {L L' : Ledger Db Write} {r : Except Error (Option Identity)}
    (h : Runs setting s L (findFuzzyCandidate app name company) r s' L') :
    r = .ok (fuzzyCandidate app name company (named (s.view L.db))) := by
  refine h.of_wp (fun r _ _ => r = .ok _) ?_
  unfold findFuzzyCandidate findAll Program.select
  rintro _ rfl t - -
  rfl

/-- Some order of the rows brings the search to each of the most similar identities. -/
theorem AlwaysFinds.eq_some {db : Db} {candidate : Option Identity}
    (h : AlwaysFinds app name company db candidate) {identity : Identity}
    (hmost : MostSimilar app name company (named db) identity) : candidate = some identity := by
  obtain ⟨order, hperm, hbest⟩ := hmost.exists_order
  let isNamed : Identity → Bool := fun identity =>
    identity.displayName.isSome || identity.primaryEmail.isSome
  let rows : List Identity := order ++ (db .identities).filter fun identity => !isNamed identity
  let L : Ledger Db Write := ⟨{ identities := rows }, []⟩
  have hrows : L.db .identities = rows := rfl
  have hnamed : named L.db = order := by
    have horder : ∀ identity ∈ order, isNamed identity = true := fun identity hmem =>
      (List.mem_filter.mp (hperm.mem_iff.mp hmem)).2
    have hrest : ((db .identities).filter fun identity => !isNamed identity).filter isNamed = [] := by
      rw [List.filter_filter, List.filter_eq_nil_iff]
      simp
    change rows.filter isNamed = order
    rw [List.filter_append, List.filter_eq_self.mpr horder, hrest, List.append_nil]
  have hsame : ((({} : Session Write Reply).view L.db) .identities).Perm (db .identities) := by
    change (L.db .identities).Perm _
    rw [hrows]
    exact (hperm.append_right _).trans (List.filter_append_perm isNamed _)
  obtain ⟨r, s', L', hrun⟩ : ∃ r s' L', Runs ({} : Setting Db Write Key Question Reply) {} L
      (findFuzzyCandidate app name company) r s' L' := exists_run (fun _ => id) (fun _ => id) (fun _ _ _ => trivial)
    (fun _ => ⟨.failed false "", trivial⟩) (findFuzzyCandidate app name company) {} L
  have hresult := findFuzzyCandidate_result hrun
  rw [h _ _ _ _ _ _ hsame hrun] at hresult
  change _ = Except.ok (fuzzyCandidate app name company (named L.db)) at hresult
  rw [hnamed, fuzzyCandidate_eq_best, hbest] at hresult
  exact Except.ok.inj hresult

/-- **The search finds the most similar identity, the oldest of several, whatever the order of the
rows, if and only if no two identities share the highest similarity above zero.** -/
theorem candidate_determined_iff (app : App) (name : String) (company : Option String) (db : Db) :
    CandidateDetermined app name company db ↔
      ∀ a b, MostSimilar app name company (named db) a → MostSimilar app name company (named db) b →
        a = b := by
  constructor
  · rintro ⟨candidate, -, hfinds⟩ a b ha hb
    exact Option.some.inj ((hfinds.eq_some ha).symm.trans (hfinds.eq_some hb))
  · intro hunique
    refine ⟨fuzzyCandidate app name company (named db), ?_, fun setting s L r s' L' hperm hrun => ?_⟩
    · cases hcandidate : fuzzyCandidate app name company (named db) with
      | none => exact fuzzyCandidate_eq_none.mp hcandidate
      | some candidate =>
          rw [fuzzyCandidate_eq_best] at hcandidate
          have hmost := Search.isBest_of_best hcandidate
          refine ⟨hmost, fun other hother => ?_⟩
          rw [hunique candidate other hmost hother]
    · have horder : (named (s.view L.db)).Perm (named db) := hperm.filter _
      rw [findFuzzyCandidate_result hrun, fuzzyCandidate_eq_best, fuzzyCandidate_eq_best,
        Search.best_order_iff.mpr hunique _ horder]

/-- Two people of one name, the later first. -/
def namesakes : List Identity :=
  [{ id := 2, primaryEmail := some "ada@example.com", displayName := some "Ada"
     primaryCompany := none, createdAt := 2 },
    { id := 1, primaryEmail := some "ada@example.org", displayName := some "Ada"
      primaryCompany := none, createdAt := 1 }]

theorem candidate_depends_on_order :
    ¬ ∀ name company db, CandidateDetermined shipped name company db := by
  intro hall
  obtain ⟨candidate, -, hfinds⟩ := hall "Ada" none { identities := namesakes }
  have hrows : named ({ identities := namesakes }) = namesakes := by
    decide
  have hsame : ∀ identity ∈ namesakes, similarity shipped "Ada" none identity = 100 := by
    decide +kernel
  have hmost : ∀ identity ∈ namesakes,
      MostSimilar shipped "Ada" none (named { identities := namesakes }) identity := by
    intro identity hmem
    rw [hrows]
    refine ⟨hmem, ?_, fun other hother => ?_⟩
    · rw [hsame identity hmem]
      norm_num
    · rw [hsame identity hmem, hsame other hother]
  have hfirst := hfinds.eq_some (hmost _ (List.mem_cons_self ..))
  have hsecond := hfinds.eq_some (hmost _ (List.mem_cons_of_mem _ (List.mem_cons_self ..)))
  rw [hfirst] at hsecond
  revert hsecond
  decide

end DemandSignal
