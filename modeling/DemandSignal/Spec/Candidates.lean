import DemandSignal.Python.Rounding
import DemandSignal.Search.Best
import DemandSignal.Spec.Transactions

/-!
# Candidates for a reviewer

The search for a similar name is one pass for the best score above zero. The scores are counts of
hundredths, so equal ones are common.
-/

namespace DemandSignal

open Txn

/-! ### Scores -/

theorem Difflib.ratio_nonneg (a b : List String) : 0 ≤ Difflib.ratio a b := by
  unfold Difflib.ratio
  split
  · exact zero_le_one
  · apply Python.toDouble_nonneg
    positivity

namespace Resolve

variable {app : App} {name : String} {company : Option String}

theorem fuzzySimilarity_eq (app : App) (nameA nameB : String) (companyA companyB : Option String) :
    ∃ count : Int, 0 ≤ count ∧
      fuzzySimilarity app nameA nameB companyA companyB = .hundredths count := by
  unfold fuzzySimilarity
  split
  · exact ⟨0, le_rfl, rfl⟩
  · dsimp only
    split
    all_goals
      refine ⟨_, Python.le_roundHalfEven (mul_nonneg ?_ (by norm_num)), rfl⟩
    · exact div_nonneg (Python.toDouble_nonneg (add_nonneg (Difflib.ratio_nonneg _ _)
        (Difflib.ratio_nonneg _ _))) (by norm_num)
    · exact Difflib.ratio_nonneg _ _

/-- What the search compares, in hundredths. -/
def similarity (app : App) (name : String) (company : Option String) (identity : Identity) : Int :=
  match fuzzySimilarity app name (identityName identity) company identity.primaryCompany with
  | .nan => 0
  | .hundredths count => count

theorem fuzzySimilarity_identity (app : App) (name : String) (company : Option String)
    (identity : Identity) :
    fuzzySimilarity app name (identityName identity) company identity.primaryCompany =
      .hundredths (similarity app name company identity) := by
  obtain ⟨count, -, hcount⟩ :=
    fuzzySimilarity_eq app name (identityName identity) company identity.primaryCompany
  rw [similarity, hcount]

theorem similarity_nonneg (app : App) (name : String) (company : Option String)
    (identity : Identity) : 0 ≤ similarity app name company identity := by
  obtain ⟨count, hnonneg, hcount⟩ :=
    fuzzySimilarity_eq app name (identityName identity) company identity.primaryCompany
  rwa [similarity, hcount]

/-! ### The search -/

theorem foldl_better (candidate : Option Identity) (count : Int) (identities : List Identity) :
    (identities.foldl (better app name company) (candidate, .hundredths count)).1 =
      (identities.foldl (Search.keepBetter (similarity app name company)) (candidate, count)).1 := by
  induction identities generalizing candidate count with
  | nil => rfl
  | cons identity identities ih =>
      rw [List.foldl_cons, List.foldl_cons, better, Search.keepBetter, fuzzySimilarity_identity]
      by_cases hlt : count < similarity app name company identity
      · rw [if_pos hlt, ← ih]
        simp [below, hlt]
      · rw [if_neg hlt, ← ih]
        simp [below, hlt]

theorem fuzzyCandidate_eq_best (identities : List Identity) :
    fuzzyCandidate app name company identities =
      Search.best (similarity app name company) 0 identities :=
  foldl_better none 0 identities

/-- The identity is most similar to the name, and similar at all. -/
abbrev MostSimilar (app : App) (name : String) (company : Option String)
    (identities : List Identity) : Identity → Prop :=
  Search.IsBest (similarity app name company) 0 identities

/-- Nobody is a candidate exactly when nobody is similar. -/
theorem fuzzyCandidate_eq_none {identities : List Identity} :
    fuzzyCandidate app name company identities = none ↔
      ∀ identity ∈ identities, similarity app name company identity = 0 := by
  rw [fuzzyCandidate_eq_best, Search.best_eq_none_iff]
  exact forall₂_congr fun identity _ =>
    ⟨fun h => le_antisymm h (similarity_nonneg app name company identity), fun h => h.le⟩

end Resolve

end DemandSignal
