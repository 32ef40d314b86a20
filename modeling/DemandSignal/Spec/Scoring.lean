import DemandSignal.Python.Rounding
import DemandSignal.Services.Act

/-!
# Scoring

The score is the clamped sum of four terms, each monotone in its input, and the decision that of the
threshold the score reaches.
-/

namespace DemandSignal

namespace Scoring

variable {policy : ScoringPolicy} {score : Int}

/-! ### The decision -/

/-- The thresholds are listed from the greatest to the least. -/
def Descending (policy : ScoringPolicy) : Prop :=
  policy.decisionThresholds.Pairwise fun t t' => t'.minScore < t.minScore

/-- The threshold whose decision is taken. -/
def reached (score : Int) (policy : ScoringPolicy) : Threshold :=
  (policy.decisionThresholds.find? fun t => t.minScore ≤ score).getD
    (policy.decisionThresholds.getLast policy.decisionThresholds_ne_nil)

theorem decide_eq (score : Int) (policy : ScoringPolicy) :
    decide score policy = (reached score policy).decision := rfl

/-- The greatest threshold the score is not below, or the last one when it is below them all. -/
inductive Reaches (policy : ScoringPolicy) (score : Int) : Threshold → Prop
  | greatest {t} (hmem : t ∈ policy.decisionThresholds) (hle : t.minScore ≤ score)
      (hmax : ∀ t' ∈ policy.decisionThresholds, t'.minScore ≤ score → t'.minScore ≤ t.minScore) :
      Reaches policy score t
  | last (hbelow : ∀ t ∈ policy.decisionThresholds, score < t.minScore) :
      Reaches policy score (policy.decisionThresholds.getLast policy.decisionThresholds_ne_nil)

theorem reaches_reached (h : Descending policy) (score : Int) :
    Reaches policy score (reached score policy) := by
  cases hfind : policy.decisionThresholds.find? fun t => t.minScore ≤ score with
  | none =>
      rw [reached, hfind, Option.getD_none]
      exact .last fun t ht => by simpa using List.find?_eq_none.mp hfind t ht
  | some t =>
      obtain ⟨hle, front, back, hsplit, hfront⟩ := List.find?_eq_some_iff_append.mp hfind
      rw [reached, hfind, Option.getD_some]
      refine .greatest (List.mem_of_find?_eq_some hfind) (by simpa using hle) fun t' ht' hle' => ?_
      rw [Descending, hsplit, List.pairwise_append, List.pairwise_cons] at h
      rw [hsplit, List.mem_append, List.mem_cons] at ht'
      rcases ht' with ht' | rfl | ht'
      · exact absurd hle' (by simpa using hfront t' ht')
      · exact le_rfl
      · exact (h.2.1.1 t' ht').le

/-- The last threshold is the least. -/
theorem Descending.getLast_le (h : Descending policy) :
    ∀ t ∈ policy.decisionThresholds,
      (policy.decisionThresholds.getLast policy.decisionThresholds_ne_nil).minScore ≤ t.minScore := by
  intro t ht
  have hsplit := List.dropLast_append_getLast policy.decisionThresholds_ne_nil
  rw [Descending, ← hsplit, List.pairwise_append] at h
  rw [← hsplit, List.mem_append, List.mem_singleton] at ht
  rcases ht with ht | rfl
  · exact (h.2.2 t ht _ (List.mem_singleton_self _)).le
  · exact le_rfl

theorem Reaches.mem {t : Threshold} (h : Reaches policy score t) :
    t ∈ policy.decisionThresholds := by
  cases h with
  | greatest hmem => exact hmem
  | last => exact List.getLast_mem _

/-- A greater score reaches no smaller threshold. -/
theorem Reaches.mono (hdescending : Descending policy) {score' : Int} {t t' : Threshold}
    (h : Reaches policy score t) (h' : Reaches policy score' t') (hle : score ≤ score') :
    t.minScore ≤ t'.minScore := by
  cases h with
  | last => exact hdescending.getLast_le t' h'.mem
  | greatest hmem hreached _ =>
      cases h' with
      | greatest _ _ hmax => exact hmax t hmem (hreached.trans hle)
      | last hbelow => exact absurd (hreached.trans hle) (not_le.mpr (hbelow t hmem))

/-! ### The score -/

/-- No score and no bonus of the policy is negative. -/
structure NonNegative (policy : ScoringPolicy) : Prop where
  labelScores : ∀ entry ∈ policy.labelScores, ∀ score ∈ entry.2, 0 ≤ score
  sourceBonus : ∀ entry ∈ policy.sourceBonus, 0 ≤ entry.2
  consentBonus : 0 ≤ policy.consentBonus
  campaignBonus : 0 ≤ policy.campaignBonus

def labelScore (policy : ScoringPolicy) (label : String) : Option Int :=
  (policy.labelScores.lookup label).join

theorem labelScore_nonneg (h : ∀ entry ∈ policy.labelScores, ∀ score ∈ entry.2, 0 ≤ score)
    {label : String} {labelBase : Int} (hlabel : labelScore policy label = some labelBase) :
    0 ≤ labelBase := by
  obtain ⟨entry, hlookup, rfl⟩ : ∃ entry, policy.labelScores.lookup label = some entry ∧
      entry = some labelBase := by
    simpa [labelScore, Option.join_eq_some_iff] using hlabel
  obtain ⟨front, back, hsplit, -⟩ := List.lookup_eq_some_iff.mp hlookup
  exact h (label, some labelBase) (by simp [hsplit]) labelBase rfl

/-- A campaign id that is not empty. -/
def named (campaignId : Option String) : Bool := (campaignId.bind Python.orNone).isSome

theorem named_iff {campaignId : Option String} :
    named campaignId = true ↔ ∃ name, campaignId = some name ∧ name ≠ "" := by
  cases campaignId with
  | none => simp [named]
  | some name => by_cases h : name = "" <;> simp [named, Python.orNone, h]

/-- The clamped sum. -/
def total (policy : ScoringPolicy) (base : Int) (source : String) (consent : Bool)
    (campaignId : Option String) : Int :=
  max 0 (min 100 (base + (policy.sourceBonus.lookup source).getD 0 +
    (if consent then policy.consentBonus else 0) +
    if named campaignId then policy.campaignBonus else 0))

theorem total_bounds (policy : ScoringPolicy) (base : Int) (source : String) (consent : Bool)
    (campaignId : Option String) :
    0 ≤ total policy base source consent campaignId ∧
      total policy base source consent campaignId ≤ 100 := by
  unfold total
  omega

theorem total_mono (h : NonNegative policy) {base base' : Int} (hbase : base ≤ base')
    (source : String) {consent consent' : Bool} (hconsent : consent ≤ consent')
    {campaignId campaignId' : Option String}
    (hcampaign : named campaignId ≤ named campaignId') :
    total policy base source consent campaignId ≤
      total policy base' source consent' campaignId' := by
  have hbonus : ∀ {b b' : Bool} {bonus : Int}, b ≤ b' → 0 ≤ bonus →
      (if b then bonus else 0) ≤ if b' then bonus else 0 := by
    intro b b' bonus hle hnonneg
    cases b with
    | false => cases b' <;> simp [hnonneg]
    | true => rw [Bool.eq_true_of_true_le hle]
  have hconsentBonus := hbonus hconsent h.consentBonus
  have hcampaignBonus := hbonus hcampaign h.campaignBonus
  unfold total
  omega

/-- `compute_score` without its features, for any reading of `round(label_base * confidence)`. -/
def outcome (multiply : Int → ℚ → Int) (policy : ScoringPolicy) (label : String) (confidence : ℚ)
    (source : String) (consent : Bool) (campaignId : Option String) : Option Int × String :=
  match labelScore policy label with
  | none => (none, "needs_review")
  | some labelBase =>
      let base := if policy.confidenceMultiplierEnabled then multiply labelBase confidence
        else labelBase
      let score := total policy base source consent campaignId
      (some score, decide score policy)

/-- What a score and a threshold are to an event whose label has a score. -/
structure Scored (policy : ScoringPolicy) (result : Option Int × String) (score : Int)
    (t : Threshold) : Prop where
  result : result = (some score, t.decision)
  nonneg : 0 ≤ score
  le : score ≤ 100
  reaches : Reaches policy score t

theorem outcome_of_labelScore {multiply : Int → ℚ → Int} {label source : String} {labelBase : Int}
    (hlabel : labelScore policy label = some labelBase) (confidence : ℚ) (consent : Bool)
    (campaignId : Option String) :
    outcome multiply policy label confidence source consent campaignId =
      (some (total policy (if policy.confidenceMultiplierEnabled then multiply labelBase confidence
        else labelBase) source consent campaignId),
      decide (total policy (if policy.confidenceMultiplierEnabled then multiply labelBase confidence
        else labelBase) source consent campaignId) policy) := by
  rw [outcome, hlabel]

theorem scored_total (hdescending : Descending policy) (base : Int) (source : String)
    (consent : Bool) (campaignId : Option String) :
    Scored policy (some (total policy base source consent campaignId),
        decide (total policy base source consent campaignId) policy)
      (total policy base source consent campaignId)
      (reached (total policy base source consent campaignId) policy) :=
  ⟨rfl, (total_bounds policy base source consent campaignId).1,
    (total_bounds policy base source consent campaignId).2, reaches_reached hdescending _⟩

/-- `round(label_base * float(confidence))` in doubles. -/
def multiply (labelBase : Int) (confidence : ℚ) : Int :=
  Python.roundHalfEven
    (Python.toDouble (Python.toDouble labelBase * Python.toDouble confidence))

theorem multiply_mono {labelBase : Int} (hbase : 0 ≤ labelBase) :
    MonotoneOn (multiply labelBase) (Set.Ici 0) := by
  intro confidence hconfidence confidence' _ hle
  have hdouble : 0 ≤ Python.toDouble labelBase :=
    Python.toDouble_nonneg (by exact_mod_cast hbase)
  have hproduct : Python.toDouble labelBase * Python.toDouble confidence ≤
      Python.toDouble labelBase * Python.toDouble confidence' :=
    mul_le_mul_of_nonneg_left (Python.toDouble_mono hconfidence hle) hdouble
  exact Python.roundHalfEven_mono
    (Python.toDouble_mono (mul_nonneg hdouble (Python.toDouble_nonneg hconfidence)) hproduct)

/-- A monotone rounding of the product itself is one of the readings. -/
theorem monotoneOn_rounding {round : ℚ → Int} (hround : Monotone round) {labelBase : Int}
    (hbase : 0 ≤ labelBase) :
    MonotoneOn (fun confidence => round (labelBase * confidence)) (Set.Ici 0) := by
  intro confidence _ confidence' _ hle
  have hcast : (0 : ℚ) ≤ labelBase := by exact_mod_cast hbase
  exact hround (mul_le_mul_of_nonneg_left hle hcast)

/-- What is computed in doubles is another of the readings. -/
theorem computeScore_eq (policy : ScoringPolicy) (label : String) (n : Int) (source : String)
    (consent : Bool) (campaignId : Option String) :
    (computeScore policy label (.hundredths n) source consent campaignId).map
      (fun result => (result.1, result.2.1)) =
      some (outcome multiply policy label (n / 100) source consent campaignId) := by
  unfold computeScore outcome labelScore
  cases (policy.labelScores.lookup label).join with
  | none => rfl
  | some labelBase =>
      cases policy.confidenceMultiplierEnabled <;> rfl

end Scoring

end DemandSignal
