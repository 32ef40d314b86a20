import DemandSignal.Python.Rounding
import DemandSignal.Spec.Scoring

/-!
# Confidences

A confidence is the number its text denotes, rounded to hundredths. The product with a label's score
stays between zero and that score when the confidence stays between zero and one, except for scores
that doubles round up.
-/

namespace DemandSignal

open Python

/-! ### The number a text denotes -/

namespace Decimal

/-- What `Decimal(...)` of an unsigned literal denotes: `none` when it raises or is infinite,
`some none` when it is not a number. -/
def magnitude (cs : List Char) : Option (Option ℚ) :=
  if cs.take 3 = "nan".toList ∧ (cs.drop 3).all Char.isDigit then some none
  else
    let whole := cs.takeWhile Char.isDigit
    let afterWhole := cs.dropWhile Char.isDigit
    let hasPoint := afterWhole.head? == some '.'
    let fraction := if hasPoint then (afterWhole.drop 1).takeWhile Char.isDigit else []
    let tail := if hasPoint then (afterWhole.drop 1).dropWhile Char.isDigit else afterWhole
    if whole = [] ∧ fraction = [] then none
    else (exponentValue tail).map fun exp : Int =>
      some ((digitsValue (whole ++ fraction) : ℚ) * 10 ^ (exp - fraction.length))

/-- What `Decimal(text)` denotes. -/
def denotes (digit : Char → Option Nat) (text : String) : Option (Option ℚ) :=
  let ascii := (stripChars text.toList).filterMap fun c =>
    if c = '_' then none
    else match digit c with
      | some d => some (Char.ofNat (48 + d))
      | none => some (lowerAscii c)
  match ascii with
  | '-' :: cs => (magnitude cs).map (Option.map Neg.neg)
  | '+' :: cs => magnitude cs
  | cs => magnitude cs

theorem pow_le_of_length_toDigits {k n : Nat} (h : k < (Nat.toDigits 10 n).length) (hk : 0 < k) :
    10 ^ k ≤ n :=
  not_lt.mp fun hlt => absurd ((Nat.length_toDigits_le_iff (by decide) hk).mpr hlt) (by omega)

theorem lt_pow_length_toDigits (n : Nat) : n < 10 ^ (Nat.toDigits 10 n).length :=
  (Nat.length_toDigits_le_iff (by decide) Nat.length_toDigits_pos).mp le_rfl

/-- Too many digits before the point are at least a thousand. -/
theorem thousand_le_of_digits {coeff k : Nat} (hcoeff : coeff ≠ 0)
    (h : 28 < (Nat.toDigits 10 coeff).length + k) : 1000 ≤ coeff * 10 ^ k := by
  obtain hk | hk := le_or_gt 3 k
  · calc 1000 = 1 * 10 ^ 3 := rfl
      _ ≤ coeff * 10 ^ k :=
        Nat.mul_le_mul (Nat.pos_of_ne_zero hcoeff) (Nat.pow_le_pow_right (by decide) hk)
  · calc 1000 = 10 ^ 3 * 1 := rfl
      _ ≤ coeff * 10 ^ k :=
        Nat.mul_le_mul (pow_le_of_length_toDigits (by omega) (by decide)) (Nat.one_le_pow _ _ (by decide))

/-- A decimal is a count of hundredths, its number of them rounded, unless there are too many. -/
theorem quantizeParts_spec (coeff : Nat) (exp : Int) :
    (∃ n, quantizeParts coeff exp = some n ∧ (n : Int) = roundHalfEven (coeff * 10 ^ (exp + 2))) ∨
      quantizeParts coeff exp = none ∧ (1000 : ℚ) ≤ coeff * 10 ^ (exp + 2) := by
  unfold quantizeParts
  dsimp only
  by_cases hcoeff : coeff = 0
  · rw [if_pos hcoeff, hcoeff]
    refine .inl ⟨0, rfl, ?_⟩
    rw [Nat.cast_zero, Nat.cast_zero, zero_mul]
    exact (roundHalfEven_intCast 0).symm
  · rw [if_neg hcoeff]
    by_cases hexp : 0 ≤ exp + 2
    · have hpow : (10 : ℚ) ^ (exp + 2) = ((10 ^ (exp + 2).toNat : ℕ) : ℚ) := by
        rw [Nat.cast_pow, ← zpow_natCast, Int.toNat_of_nonneg hexp]
        rfl
      rw [if_pos hexp, hpow, ← Nat.cast_mul]
      split
      · next hdigits => exact .inr ⟨rfl, by exact_mod_cast thousand_le_of_digits hcoeff hdigits⟩
      · refine .inl ⟨_, rfl, ?_⟩
        exact (roundHalfEven_intCast ((coeff * 10 ^ (exp + 2).toNat : ℕ) : Int)).symm
    · have hpow : (coeff : ℚ) * 10 ^ (exp + 2) = coeff / 10 ^ (-(exp + 2)).toNat := by
        rw [div_eq_mul_inv, ← zpow_natCast, ← zpow_neg, Int.toNat_of_nonneg (by omega), neg_neg]
      have hpos : (0 : ℚ) < 10 ^ (-(exp + 2)).toNat := by positivity
      rw [if_neg hexp, hpow]
      split
      · next hdrop =>
          -- less than a twentieth of a hundredth
          refine .inl ⟨0, rfl, (le_antisymm ((roundHalfEven_le_iff rfl).mpr ?_)
            (le_roundHalfEven (by push_cast; positivity))).symm⟩
          have hlt : (coeff : ℚ) < 10 ^ (Nat.toDigits 10 coeff).length := by
            exact_mod_cast lt_pow_length_toDigits coeff
          have hle : (10 : ℚ) ^ ((Nat.toDigits 10 coeff).length + 1) ≤ 10 ^ (-(exp + 2)).toNat :=
            pow_le_pow_right₀ (by norm_num) (by omega)
          rw [div_le_iff₀ hpos]
          rw [pow_succ] at hle
          push_cast
          linarith
      · split
        · next hdigits =>
            have hn : (10 ^ 4 : ℕ) ≤ (roundHalfEven (coeff / 10 ^ (-(exp + 2)).toNat)).toNat :=
              (Nat.pow_le_pow_right (by decide) (by decide)).trans
                (pow_le_of_length_toDigits hdigits (by decide))
            have hround : (10 ^ 4 : Int) ≤ roundHalfEven (coeff / 10 ^ (-(exp + 2)).toNat) := by
              omega
            rw [le_roundHalfEven_iff (by decide)] at hround
            refine .inr ⟨rfl, ?_⟩
            push_cast at hround
            linarith
        · refine .inl ⟨_, rfl, Int.toNat_of_nonneg (le_roundHalfEven ?_)⟩
          push_cast
          positivity

/-- What becomes of a denoted number in hundredths. -/
inductive Quantizes (v : Option (Option ℚ)) : Option Decimal → Prop
  | unread (h : v = none) : Quantizes v none
  | nan (h : v = some none) : Quantizes v (some .nan)
  | hundredths {q : ℚ} (h : v = some (some q)) :
      Quantizes v (some (.hundredths (roundHalfEven (q * 100))))
  | tooMany {q : ℚ} (h : v = some (some q)) (hlarge : 1000 ≤ |q * 100|) : Quantizes v none

theorem quantizes_parts (negative : Bool) (coeff : Nat) (exp : Int) :
    Quantizes (some (some (if negative then -((coeff : ℚ) * 10 ^ exp) else (coeff : ℚ) * 10 ^ exp)))
      (do
        let n ← quantizeParts coeff exp
        some (.hundredths (if negative then -n else n))) := by
  have hscale : (coeff : ℚ) * 10 ^ (exp + 2) = coeff * 10 ^ exp * 100 := by
    rw [zpow_add₀ (by norm_num), mul_assoc]
    norm_num
  obtain ⟨n, hsome, hn⟩ | ⟨hnone, hlarge⟩ := quantizeParts_spec coeff exp
  · rw [hsome, Option.bind_eq_bind, Option.bind_some, hn, hscale]
    cases negative with
    | false => exact .hundredths rfl
    | true =>
        have hneg := roundHalfEven_neg ((coeff : ℚ) * 10 ^ exp * 100)
        rw [← neg_mul] at hneg
        simp only [if_true, ← hneg]
        exact .hundredths rfl
  · rw [hnone, Option.bind_eq_bind, Option.bind_none]
    rw [hscale] at hlarge
    refine .tooMany rfl (hlarge.trans ?_)
    cases negative with
    | false => exact le_abs_self _
    | true =>
        simp only [if_true, neg_mul]
        rw [abs_neg]
        exact le_abs_self _

theorem quantizes_magnitude (negative : Bool) (cs : List Char) :
    Quantizes ((magnitude cs).map (Option.map fun q => if negative then -q else q))
      (quantizeMagnitude negative cs) := by
  unfold magnitude quantizeMagnitude
  by_cases hnan : cs.take 3 = "nan".toList ∧ (cs.drop 3).all Char.isDigit
  · rw [if_pos hnan, if_pos hnan]
    exact .nan rfl
  · rw [if_neg hnan, if_neg hnan]
    extract_lets whole afterWhole hasPoint fraction tail
    by_cases hempty : whole = [] ∧ fraction = []
    · rw [if_pos hempty, if_pos hempty]
      exact .unread rfl
    · rw [if_neg hempty, if_neg hempty]
      cases exponentValue tail with
      | none => exact .unread rfl
      | some exp => exact quantizes_parts negative (digitsValue (whole ++ fraction)) _

theorem quantizes_denotes (digit : Char → Option Nat) (text : String) :
    Quantizes (denotes digit text) (quantize digit text) := by
  unfold denotes quantize
  dsimp only
  generalize List.filterMap _ _ = ascii
  have hplain : ∀ cs, Quantizes (magnitude cs) (quantizeMagnitude false cs) := by
    intro cs
    have h := quantizes_magnitude false cs
    simpa using h
  obtain _ | ⟨c, cs⟩ := ascii
  · exact hplain []
  · by_cases hminus : c = '-'
    · rw [hminus]
      exact quantizes_magnitude true cs
    · by_cases hplus : c = '+'
      · rw [hplus]
        exact hplain cs
      · simpa [hminus, hplus] using hplain (c :: cs)

/-- A number of hundredths between zero and one. -/
def InUnit : Decimal → Prop
  | nan => False
  | hundredths n => 0 ≤ n ∧ n ≤ 100

end Decimal

/-! ### The product -/

namespace Scoring

theorem multiply_nonneg {labelBase : Int} (hbase : 0 ≤ labelBase) {confidence : ℚ}
    (hconfidence : 0 ≤ confidence) : 0 ≤ multiply labelBase confidence := by
  have hlabel : (0 : ℚ) ≤ labelBase := by exact_mod_cast hbase
  refine le_roundHalfEven ?_
  rw [Int.cast_zero]
  exact toDouble_nonneg (mul_nonneg (toDouble_nonneg hlabel) (toDouble_nonneg hconfidence))

theorem multiply_one {labelBase : Int} (hbase : 0 ≤ labelBase) :
    multiply labelBase 1 = roundHalfEven (toDouble labelBase) := by
  have hone : toDouble 1 = 1 := by
    have h := toDouble_natCast (n := 1) (by norm_num)
    rwa [Nat.cast_one] at h
  rw [multiply, hone, mul_one, toDouble_toDouble (by exact_mod_cast hbase)]

/-- Below one, the errors of the doubles are less than what the product takes off. -/
theorem multiply_le {labelBase : Int} (hbase : 0 ≤ labelBase) {confidence : ℚ}
    (hconfidence : 0 ≤ confidence) (hle : confidence ≤ 99 / 100) :
    multiply labelBase confidence ≤ labelBase := by
  have hlabel : (0 : ℚ) ≤ labelBase := by exact_mod_cast hbase
  refine roundHalfEven_le ?_
  calc toDouble (toDouble labelBase * toDouble confidence)
      ≤ toDouble labelBase * toDouble confidence * (1 + 1 / 2 ^ 53) :=
        toDouble_le (mul_nonneg (toDouble_nonneg hlabel) (toDouble_nonneg hconfidence))
    _ ≤ labelBase * (1 + 1 / 2 ^ 53) * (99 / 100 * (1 + 1 / 2 ^ 53)) * (1 + 1 / 2 ^ 53) := by
        gcongr
        · exact toDouble_nonneg hconfidence
        · exact toDouble_le hlabel
        · exact (toDouble_le hconfidence).trans (by gcongr)
    _ = labelBase * ((1 + 1 / 2 ^ 53) * (99 / 100 * (1 + 1 / 2 ^ 53)) * (1 + 1 / 2 ^ 53)) := by ring
    _ ≤ labelBase := mul_le_of_le_one_right hlabel (by norm_num)

/-- A confidence between zero and one keeps the product between zero and the label's score, unless it
is one and doubles round that score up. -/
theorem multiply_bounds_iff {labelBase n : Int} (hbase : 0 ≤ labelBase) (hn : 0 ≤ n ∧ n ≤ 100) :
    (0 ≤ multiply labelBase (n / 100) ∧ multiply labelBase (n / 100) ≤ labelBase) ↔
      (100 ≤ n → roundHalfEven (toDouble labelBase) ≤ labelBase) := by
  have hconfidence : (0 : ℚ) ≤ (n : ℚ) / 100 := by
    have : (0 : ℚ) ≤ n := by exact_mod_cast hn.1
    positivity
  obtain rfl | hlt : n = 100 ∨ n < 100 := by omega
  · have hone : ((100 : Int) : ℚ) / 100 = 1 := by norm_num
    rw [hone, ← multiply_one hbase]
    exact ⟨fun h _ => h.2, fun h => ⟨multiply_nonneg hbase zero_le_one, h le_rfl⟩⟩
  · have hle : (n : ℚ) / 100 ≤ 99 / 100 := by
      have : (n : ℚ) ≤ 99 := by exact_mod_cast Int.le_sub_one_of_lt hlt
      linarith
    exact ⟨fun _ h => absurd h (by omega),
      fun _ => ⟨multiply_nonneg hbase hconfidence, multiply_le hbase hconfidence hle⟩⟩

end Scoring

/-- The label's score before and after the multiplier. -/
def Features.multiplied : Features → Option (Int × Int)
  | insufficientData _ => none
  | scored _ _ _ _ _ labelBase base _ _ _ _ _ => some (labelBase, base)

namespace Scoring

variable {policy : ScoringPolicy} {label : String}

/-- Whatever the score of the label with this confidence, the multiplier takes it to one between zero
and itself. -/
def Lowers (policy : ScoringPolicy) (label : String) (confidence : Decimal) : Prop :=
  ∀ source consent campaignId score decision features,
    computeScore policy label confidence source consent campaignId =
      some (score, decision, features) →
    ∀ labelBase base, features.multiplied = some (labelBase, base) → 0 ≤ base ∧ base ≤ labelBase

theorem lowers_iff (hnonneg : ∀ entry ∈ policy.labelScores, ∀ score ∈ entry.2, 0 ≤ score) {n : Int}
    (hn : 0 ≤ n ∧ n ≤ 100) :
    Lowers policy label (.hundredths n) ↔
      (100 ≤ n → policy.confidenceMultiplierEnabled = true → ∀ labelBase,
        labelScore policy label = some labelBase →
        roundHalfEven (toDouble labelBase) ≤ labelBase) := by
  unfold Lowers computeScore
  rw [← labelScore]
  cases hlabel : labelScore policy label with
  | none =>
      refine ⟨fun _ _ _ labelBase hnone => (by cases hnone), ?_⟩
      rintro - source consent campaignId score decision features ⟨⟩ labelBase base ⟨⟩
  | some labelBase =>
      have hbase := labelScore_nonneg hnonneg hlabel
      cases hmultiplier : policy.confidenceMultiplierEnabled with
      | false =>
          refine ⟨fun _ _ h => absurd h (by decide), ?_⟩
          rintro - source consent campaignId score decision features ⟨⟩ labelBase' base ⟨⟩
          exact ⟨hbase, le_rfl⟩
      | true =>
          have hiff := multiply_bounds_iff hbase hn
          constructor
          · intro h hle _ labelBase' hlabel'
            cases hlabel'
            exact hiff.mp (h "" false none _ _ _ rfl _ _ rfl) hle
          · rintro h source consent campaignId score decision features ⟨⟩ labelBase' base ⟨⟩
            exact hiff.mpr fun hle => h hle rfl labelBase rfl

/-- The confidences that do no harm: those that are read as zero, those the column does not hold, and
those that come to hundredths between zero and one, where one must not meet a score that doubles
round up. -/
def Harmless (policy : ScoringPolicy) (label : String) : Option (Option ℚ) → Prop
  | none => True
  | some none => False
  | some (some q) =>
      1999 / 200 ≤ |q| ∨ -1 / 200 ≤ q ∧ q ≤ 201 / 200 ∧
        (199 / 200 ≤ q → policy.confidenceMultiplierEnabled = true → ∀ labelBase,
          labelScore policy label = some labelBase →
          roundHalfEven (toDouble labelBase) ≤ labelBase)

theorem fits_hundredths {q : ℚ} :
    (Decimal.hundredths (roundHalfEven (q * 100))).fits = true ↔ ¬ 1999 / 200 ≤ |q| := by
  have habove : (1000 : Int) ≤ roundHalfEven (q * 100) ↔ 1999 / 200 ≤ q := by
    rw [le_roundHalfEven_iff rfl]
    push_cast
    constructor <;> intro h <;> linarith
  have hbelow : roundHalfEven (q * 100) ≤ (-1000 : Int) ↔ 1999 / 200 ≤ -q := by
    rw [roundHalfEven_le_iff rfl]
    push_cast
    constructor <;> intro h <;> linarith
  rw [Decimal.fits, decide_eq_true_iff, le_abs, ← habove, ← hbelow]
  omega

theorem inUnit_hundredths {q : ℚ} :
    (Decimal.hundredths (roundHalfEven (q * 100))).InUnit ↔ -1 / 200 ≤ q ∧ q ≤ 201 / 200 := by
  rw [Decimal.InUnit, le_roundHalfEven_iff rfl, roundHalfEven_le_iff rfl]
  push_cast
  constructor <;> rintro ⟨h, h'⟩ <;> constructor <;> linarith

/-- What is stored of a denoted number only lowers a score just when the number is harmless. -/
theorem harmless_iff (hnonneg : ∀ entry ∈ policy.labelScores, ∀ score ∈ entry.2, 0 ≤ score)
    {v : Option (Option ℚ)} {quantized : Option Decimal} (h : Decimal.Quantizes v quantized) :
    ((quantized.getD (.hundredths 0)).fits = true → (quantized.getD (.hundredths 0)).InUnit ∧
        Lowers policy label (quantized.getD (.hundredths 0))) ↔ Harmless policy label v := by
  have hzero : (Decimal.hundredths 0).InUnit ∧ Lowers policy label (.hundredths 0) :=
    ⟨⟨le_rfl, by decide⟩, (lowers_iff hnonneg ⟨le_rfl, by decide⟩).mpr fun h => absurd h (by decide)⟩
  cases h with
  | unread h =>
      rw [h]
      exact ⟨fun _ => trivial, fun _ _ => hzero⟩
  | nan h =>
      rw [h]
      exact ⟨fun hall => (hall rfl).1, False.elim⟩
  | @tooMany q h hlarge =>
      rw [h]
      refine ⟨fun _ => .inl ?_, fun _ _ => hzero⟩
      rw [abs_mul, abs_of_pos (by norm_num : (0 : ℚ) < 100)] at hlarge
      linarith
  | @hundredths q h =>
      have hone : (100 : Int) ≤ roundHalfEven (q * 100) ↔ 199 / 200 ≤ q := by
        rw [le_roundHalfEven_iff rfl]
        push_cast
        constructor <;> intro h <;> linarith
      rw [h, Option.getD_some, fits_hundredths, Harmless, or_iff_not_imp_left, ← and_assoc]
      refine imp_congr_right fun _ => ?_
      rw [← inUnit_hundredths, ← hone]
      exact and_congr_right fun hunit => lowers_iff hnonneg hunit

end Scoring

end DemandSignal
