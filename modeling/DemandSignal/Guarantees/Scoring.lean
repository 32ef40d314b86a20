import DemandSignal.Spec.Scoring

/-!
# Scores

Whatever table of scores, bonuses and thresholds a policy lists, a score lies between 0 and 100, its
decision is that of the threshold it reaches, and a better input never lowers either.
-/

namespace DemandSignal

namespace Scoring

/-- **Scoring is correct and monotone**, for every policy without negative scores or bonuses whose
thresholds descend and every monotone reading of `round(label_base * confidence)`. -/
theorem computeScore_monotone {multiply : Int → ℚ → Int}
    (hmultiply : ∀ labelBase, 0 ≤ labelBase → MonotoneOn (multiply labelBase) (Set.Ici 0))
    {policy : ScoringPolicy} (hnonneg : NonNegative policy) (hdescending : Descending policy)
    (label source : String) :
    (labelScore policy label = none → ∀ confidence consent campaignId,
      outcome multiply policy label confidence source consent campaignId = (none, "needs_review")) ∧
    (labelScore policy label ≠ none → ∀ confidence, 0 ≤ confidence → ∀ consent campaignId,
      ∃ score t,
        Scored policy (outcome multiply policy label confidence source consent campaignId) score t ∧
        ∀ confidence' consent' campaignId', confidence ≤ confidence' → consent ≤ consent' →
          (campaignId' = campaignId ∨ ∃ name, campaignId' = some name ∧ name ≠ "") →
          ∃ score' t', Scored policy
            (outcome multiply policy label confidence' source consent' campaignId') score' t' ∧
            score ≤ score' ∧ t.minScore ≤ t'.minScore) := by
  refine ⟨fun hlabel confidence consent campaignId => by rw [outcome, hlabel], ?_⟩
  intro hlabel confidence hconfidence consent campaignId
  obtain ⟨labelBase, hlabel⟩ := Option.ne_none_iff_exists'.mp hlabel
  have hlabelBase : 0 ≤ labelBase := labelScore_nonneg hnonneg.labelScores hlabel
  have hscored := scored_total hdescending
    (if policy.confidenceMultiplierEnabled then multiply labelBase confidence else labelBase) source
    consent campaignId
  refine ⟨_, _, by rw [outcome_of_labelScore hlabel]; exact hscored, ?_⟩
  intro confidence' consent' campaignId' hle hconsent hcampaign
  have hbase : (if policy.confidenceMultiplierEnabled then multiply labelBase confidence
      else labelBase) ≤
      if policy.confidenceMultiplierEnabled then multiply labelBase confidence' else labelBase := by
    split
    · exact hmultiply labelBase hlabelBase hconfidence (hconfidence.trans hle) hle
    · exact le_rfl
  have hnamed : named campaignId ≤ named campaignId' := by
    obtain rfl | hname := hcampaign
    · exact le_rfl
    · rw [named_iff.mpr hname]
      exact Bool.le_true _
  have hscored' := scored_total hdescending
    (if policy.confidenceMultiplierEnabled then multiply labelBase confidence' else labelBase) source
    consent' campaignId'
  have hscore := total_mono hnonneg hbase source hconsent hnamed
  exact ⟨_, _, by rw [outcome_of_labelScore hlabel]; exact hscored', hscore,
    hscored.reaches.mono hdescending hscored'.reaches hscore⟩

theorem nonNegative_scoringPolicyV1 : NonNegative scoringPolicyV1 :=
  ⟨by decide, by decide, by decide, by decide⟩

theorem descending_scoringPolicyV1 : Descending scoringPolicyV1 := by
  unfold Descending
  decide

/-- A pricing inquiry at one half and at nine tenths, in doubles and rounded at once. -/
theorem computeScore_monotone_shipped :
    (∃ score t, Scored scoringPolicyV1
        (outcome multiply scoringPolicyV1 "pricing_inquiry" (1 / 2) "web_form" false none) score t ∧
      ∃ score' t', Scored scoringPolicyV1
        (outcome multiply scoringPolicyV1 "pricing_inquiry" (9 / 10) "web_form" true (some "spring"))
        score' t' ∧ score ≤ score' ∧ t.minScore ≤ t'.minScore) ∧
    outcome (fun labelBase confidence => Python.roundHalfEven (labelBase * confidence))
      scoringPolicyV1 "unknown" 1 "web_form" true none = (none, "needs_review") := by
  refine ⟨?_, ?_⟩
  · obtain ⟨score, t, hscored, hbetter⟩ := (computeScore_monotone (fun _ => multiply_mono)
      nonNegative_scoringPolicyV1 descending_scoringPolicyV1 "pricing_inquiry" "web_form").2
      (by decide) (1 / 2) (by norm_num) false none
    exact ⟨score, t, hscored, hbetter (9 / 10) true (some "spring") (by norm_num) (by decide)
      (.inr ⟨"spring", rfl, by decide⟩)⟩
  · exact (computeScore_monotone (fun _ => monotoneOn_rounding Python.roundHalfEven_mono)
      nonNegative_scoringPolicyV1 descending_scoringPolicyV1 "unknown" "web_form").1 (by decide) 1
      true none

end Scoring

end DemandSignal
