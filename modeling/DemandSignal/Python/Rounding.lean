import DemandSignal.Python.Number
import Mathlib.Algebra.Order.Floor.Ring
import Mathlib.Algebra.Order.Field.Power
import Mathlib.Data.Int.ConditionallyCompleteOrder
import Mathlib.Tactic.Linarith
import Mathlib.Tactic.NormNum
import Mathlib.Tactic.Positivity
import Mathlib.Tactic.Ring

/-!
# Rounding

`round` and the doubles are monotone, exact where no rounding is needed, and off by half a unit at
most. The error of a double is relative to the number.
-/

namespace DemandSignal.Python

/-! ### The nearest integer -/

theorem roundHalfEven_intCast (n : Int) : roundHalfEven n = n := by
  simp [roundHalfEven]

/-- The nearest integer is the floor or the one above, and no other is nearer. -/
theorem roundHalfEven_cases (q : ℚ) :
    roundHalfEven q = ⌊q⌋ ∧ q - ⌊q⌋ ≤ 1 / 2 ∨ roundHalfEven q = ⌊q⌋ + 1 ∧ 1 / 2 ≤ q - ⌊q⌋ := by
  unfold roundHalfEven
  dsimp only
  split
  · next h => exact .inl ⟨rfl, h.le⟩
  · next h =>
      have h : 1 / 2 ≤ q - ⌊q⌋ := not_lt.mp h
      split
      · exact .inr ⟨rfl, h⟩
      · next h' =>
          split
          · exact .inl ⟨rfl, not_lt.mp h'⟩
          · exact .inr ⟨rfl, h⟩

theorem abs_roundHalfEven_sub (q : ℚ) : |(roundHalfEven q : ℚ) - q| ≤ 1 / 2 := by
  rw [abs_le]
  obtain ⟨heq, hle⟩ | ⟨heq, hle⟩ := roundHalfEven_cases q
  · have := Int.floor_le q
    rw [heq]
    constructor <;> linarith
  · have := Int.lt_floor_add_one q
    rw [heq]
    push_cast
    constructor <;> linarith

theorem roundHalfEven_mono : Monotone roundHalfEven := by
  intro x y hxy
  have hfloor : ⌊x⌋ ≤ ⌊y⌋ := Int.floor_mono hxy
  obtain ⟨hx, -⟩ | ⟨hx, hxhalf⟩ := roundHalfEven_cases x <;>
    obtain ⟨hy, hyhalf⟩ | ⟨hy, -⟩ := roundHalfEven_cases y
  · omega
  · omega
  · -- the floors differ, or both numbers are the same tie
    obtain hlt | heq := hfloor.lt_or_eq
    · omega
    · have hsame : x = y := by
        rw [heq] at hxhalf
        linarith
      rw [hsame]
  · omega

/-- A number between two integers rounds to one between them. -/
theorem roundHalfEven_le {q : ℚ} {n : Int} (h : q ≤ n) : roundHalfEven q ≤ n := by
  have hmono := roundHalfEven_mono h
  rwa [roundHalfEven_intCast] at hmono

theorem le_roundHalfEven {q : ℚ} {n : Int} (h : (n : ℚ) ≤ q) : n ≤ roundHalfEven q := by
  have hmono := roundHalfEven_mono h
  rwa [roundHalfEven_intCast] at hmono

theorem roundHalfEven_add_half {k : Int} (hk : k % 2 = 0) : roundHalfEven (k + 1 / 2) = k := by
  have hfloor : ⌊(k : ℚ) + 1 / 2⌋ = k := by
    rw [Int.floor_eq_iff]
    constructor <;> linarith
  rw [roundHalfEven, hfloor]
  norm_num [hk]

theorem roundHalfEven_sub_half {k : Int} (hk : k % 2 = 0) : roundHalfEven (k - 1 / 2) = k := by
  have hfloor : ⌊(k : ℚ) - 1 / 2⌋ = k - 1 := by
    rw [Int.floor_eq_iff]
    push_cast
    constructor <;> linarith
  have hodd : ¬ (k - 1) % 2 = 0 := by omega
  have hhalf : (k : ℚ) - 1 / 2 - ((k - 1 : Int) : ℚ) = 1 / 2 := by
    push_cast
    ring
  rw [roundHalfEven, hfloor, hhalf, if_neg (lt_irrefl _), if_neg (lt_irrefl _), if_neg hodd, sub_add_cancel]

/-- Ties go to an even bound. -/
theorem roundHalfEven_le_iff {k : Int} (hk : k % 2 = 0) {q : ℚ} :
    roundHalfEven q ≤ k ↔ q ≤ k + 1 / 2 := by
  constructor
  · intro h
    have herror := (abs_le.mp (abs_roundHalfEven_sub q)).1
    have hcast : (roundHalfEven q : ℚ) ≤ k := by exact_mod_cast h
    linarith
  · intro h
    have hmono := roundHalfEven_mono h
    rwa [roundHalfEven_add_half hk] at hmono

theorem le_roundHalfEven_iff {k : Int} (hk : k % 2 = 0) {q : ℚ} :
    k ≤ roundHalfEven q ↔ k - 1 / 2 ≤ q := by
  constructor
  · intro h
    have herror := (abs_le.mp (abs_roundHalfEven_sub q)).2
    have hcast : (k : ℚ) ≤ roundHalfEven q := by exact_mod_cast h
    linarith
  · intro h
    have hmono := roundHalfEven_mono h
    rwa [roundHalfEven_sub_half hk] at hmono

theorem roundHalfEven_neg (q : ℚ) : roundHalfEven (-q) = -roundHalfEven q := by
  have hbounds := abs_le.mp (abs_roundHalfEven_sub q)
  obtain heven | hodd : roundHalfEven q % 2 = 0 ∨ roundHalfEven q % 2 = 1 := by omega
  · refine le_antisymm ((roundHalfEven_le_iff (by omega)).mpr ?_)
      ((le_roundHalfEven_iff (by omega)).mpr ?_) <;> push_cast <;> linarith [hbounds.1, hbounds.2]
  · -- an odd number is no tie, so its even neighbours are out of reach
    have hlow : ¬ roundHalfEven q ≤ roundHalfEven q - 1 := by omega
    have hhigh : ¬ roundHalfEven q + 1 ≤ roundHalfEven q := by omega
    rw [roundHalfEven_le_iff (by omega)] at hlow
    rw [le_roundHalfEven_iff (by omega)] at hhigh
    push_cast at hlow hhigh
    have hlow' : ¬ roundHalfEven (-q) ≤ -roundHalfEven q - 1 := by
      rw [roundHalfEven_le_iff (by omega)]
      push_cast
      linarith
    have hhigh' : ¬ -roundHalfEven q + 1 ≤ roundHalfEven (-q) := by
      rw [le_roundHalfEven_iff (by omega)]
      push_cast
      linarith
    omega

/-! ### Doubles -/

theorem scale_eq_mul (q : ℚ) (e : Int) : scale q e = q * 2 ^ e := by
  unfold scale
  split
  · next h => rw [← zpow_natCast, Int.toNat_of_nonneg h]
  · next h =>
      have hneg : ((-e).toNat : Int) = -e := Int.toNat_of_nonneg (by omega)
      rw [← zpow_natCast, hneg, zpow_neg, div_inv_eq_mul]

/-- The exponent of a positive number. -/
def binade (q : ℚ) : Int :=
  if |q| < scale 1 (Nat.log2 q.num.natAbs - Nat.log2 q.den : Int) then
    (Nat.log2 q.num.natAbs - Nat.log2 q.den : Int) - 1
  else (Nat.log2 q.num.natAbs - Nat.log2 q.den : Int)

theorem toDouble_eq {q : ℚ} (hq : q ≠ 0) :
    toDouble q = roundHalfEven (q * 2 ^ (52 - binade q)) * 2 ^ (binade q - 52) := by
  rw [toDouble, if_neg hq, ← scale_eq_mul, ← scale_eq_mul]
  rfl

theorem binade_spec {q : ℚ} (hq : 0 < q) : (2 : ℚ) ^ binade q ≤ q ∧ q < 2 ^ (binade q + 1) := by
  have hnum : 0 < q.num := Rat.num_pos.mpr hq
  have hnatAbs : q.num.natAbs ≠ 0 := by omega
  have hden : (0 : ℚ) < q.den := by exact_mod_cast q.den_pos
  have hcast : ((q.num.natAbs : ℕ) : ℚ) = q.num := by
    rw [← Int.cast_natCast, Int.natAbs_of_nonneg hnum.le]
  have hvalue : q * q.den = q.num.natAbs := by rw [hcast, Rat.mul_den_eq_num]
  have hlow : (2 : ℚ) ^ q.num.natAbs.log2 ≤ q.num.natAbs := by
    exact_mod_cast Nat.log2_self_le hnatAbs
  have hhigh : (q.num.natAbs : ℚ) < 2 ^ (q.num.natAbs.log2 + 1) := by
    exact_mod_cast Nat.lt_log2_self (n := q.num.natAbs)
  have hlow' : (2 : ℚ) ^ q.den.log2 ≤ q.den := by exact_mod_cast Nat.log2_self_le q.den_nz
  have hhigh' : (q.den : ℚ) < 2 ^ (q.den.log2 + 1) := by
    exact_mod_cast Nat.lt_log2_self (n := q.den)
  have htwo : (2 : ℚ) ≠ 0 := by norm_num
  have hguess : (2 : ℚ) ^ ((q.num.natAbs.log2 : Int) - q.den.log2 - 1) < q := by
    refine lt_of_mul_lt_mul_right ?_ hden.le
    rw [hvalue]
    calc (2 : ℚ) ^ ((q.num.natAbs.log2 : Int) - q.den.log2 - 1) * q.den
        < 2 ^ ((q.num.natAbs.log2 : Int) - q.den.log2 - 1) * 2 ^ (q.den.log2 + 1) := by gcongr
      _ = 2 ^ q.num.natAbs.log2 := by
          rw [← zpow_natCast, ← zpow_natCast, ← zpow_add₀ htwo]
          congr 1
          push_cast
          ring
      _ ≤ q.num.natAbs := hlow
  have hguess' : q < (2 : ℚ) ^ ((q.num.natAbs.log2 : Int) - q.den.log2 + 1) := by
    refine lt_of_mul_lt_mul_right ?_ hden.le
    rw [hvalue]
    calc (q.num.natAbs : ℚ) < 2 ^ (q.num.natAbs.log2 + 1) := hhigh
      _ = 2 ^ ((q.num.natAbs.log2 : Int) - q.den.log2 + 1) * 2 ^ q.den.log2 := by
          rw [← zpow_natCast, ← zpow_natCast, ← zpow_add₀ htwo]
          congr 1
          push_cast
          ring
      _ ≤ 2 ^ ((q.num.natAbs.log2 : Int) - q.den.log2 + 1) * q.den := by gcongr
  rw [binade, abs_of_pos hq, scale_eq_mul, one_mul]
  split
  · next h => exact ⟨hguess.le, by rwa [sub_add_cancel]⟩
  · next h => exact ⟨not_lt.mp h, hguess'⟩

theorem binade_mono {x y : ℚ} (hx : 0 < x) (hxy : x ≤ y) : binade x ≤ binade y := by
  have hlt : (2 : ℚ) ^ binade x < 2 ^ (binade y + 1) :=
    (binade_spec hx).1.trans_lt (hxy.trans_lt (binade_spec (hx.trans_le hxy)).2)
  have hexp : binade x < binade y + 1 := (zpow_lt_zpow_iff_right₀ (by norm_num)).mp hlt
  omega

theorem toDouble_zero : toDouble 0 = 0 := rfl

/-- A double lies in the binade of its number, whose upper end included. -/
theorem toDouble_bounds {q : ℚ} (hq : 0 < q) :
    (2 : ℚ) ^ binade q ≤ toDouble q ∧ toDouble q ≤ 2 ^ (binade q + 1) := by
  obtain ⟨hlow, hhigh⟩ := binade_spec hq
  have htwo : (2 : ℚ) ≠ 0 := by norm_num
  have hpos : (0 : ℚ) < 2 ^ (52 - binade q) := by positivity
  have hpos' : (0 : ℚ) < 2 ^ (binade q - 52) := by positivity
  have hfrom : ((2 ^ 52 : Int) : ℚ) ≤ q * 2 ^ (52 - binade q) := by
    calc ((2 ^ 52 : Int) : ℚ) = 2 ^ binade q * 2 ^ (52 - binade q) := by
          rw [← zpow_add₀ htwo, add_sub_cancel]
          norm_num
      _ ≤ q * 2 ^ (52 - binade q) := by gcongr
  have hto : q * 2 ^ (52 - binade q) ≤ ((2 ^ 53 : Int) : ℚ) := by
    calc q * 2 ^ (52 - binade q) ≤ 2 ^ (binade q + 1) * 2 ^ (52 - binade q) := by gcongr
      _ = ((2 ^ 53 : Int) : ℚ) := by
          rw [← zpow_add₀ htwo, show binade q + 1 + (52 - binade q) = 53 by ring]
          norm_num
  have hfrom' : ((2 ^ 52 : Int) : ℚ) ≤ roundHalfEven (q * 2 ^ (52 - binade q)) := by
    exact_mod_cast le_roundHalfEven hfrom
  have hto' : (roundHalfEven (q * 2 ^ (52 - binade q)) : ℚ) ≤ ((2 ^ 53 : Int) : ℚ) := by
    exact_mod_cast roundHalfEven_le hto
  rw [toDouble_eq hq.ne']
  constructor
  · calc (2 : ℚ) ^ binade q = ((2 ^ 52 : Int) : ℚ) * 2 ^ (binade q - 52) := by
          rw [show ((2 ^ 52 : Int) : ℚ) = 2 ^ (52 : Int) by norm_num, ← zpow_add₀ htwo,
            add_sub_cancel]
      _ ≤ roundHalfEven (q * 2 ^ (52 - binade q)) * 2 ^ (binade q - 52) := by gcongr
  · calc roundHalfEven (q * 2 ^ (52 - binade q)) * 2 ^ (binade q - 52)
        ≤ ((2 ^ 53 : Int) : ℚ) * 2 ^ (binade q - 52) := by gcongr
      _ = (2 : ℚ) ^ (binade q + 1) := by
          rw [show ((2 ^ 53 : Int) : ℚ) = 2 ^ (53 : Int) by norm_num, ← zpow_add₀ htwo]
          congr 1
          ring

theorem toDouble_pos {q : ℚ} (hq : 0 < q) : 0 < toDouble q :=
  (show (0 : ℚ) < 2 ^ binade q by positivity).trans_le (toDouble_bounds hq).1

theorem toDouble_nonneg {q : ℚ} (hq : 0 ≤ q) : 0 ≤ toDouble q := by
  obtain rfl | hq := hq.eq_or_lt
  · exact toDouble_zero.ge
  · exact (toDouble_pos hq).le

/-- **Doubles keep the order.** -/
theorem toDouble_mono {x y : ℚ} (hx : 0 ≤ x) (hxy : x ≤ y) : toDouble x ≤ toDouble y := by
  obtain rfl | hx := hx.eq_or_lt
  · rw [toDouble_zero]
    exact toDouble_nonneg hxy
  · obtain hlt | heq := (binade_mono hx hxy).lt_or_eq
    · calc toDouble x ≤ 2 ^ (binade x + 1) := (toDouble_bounds hx).2
        _ ≤ 2 ^ binade y := zpow_le_zpow_right₀ (by norm_num) (by omega)
        _ ≤ toDouble y := (toDouble_bounds (hx.trans_le hxy)).1
    · rw [toDouble_eq hx.ne', toDouble_eq (hx.trans_le hxy).ne', heq]
      have hscaled : x * 2 ^ (52 - binade y) ≤ y * 2 ^ (52 - binade y) := by gcongr
      have hround : (roundHalfEven (x * 2 ^ (52 - binade y)) : ℚ) ≤
          roundHalfEven (y * 2 ^ (52 - binade y)) := by exact_mod_cast roundHalfEven_mono hscaled
      gcongr

/-- The error of a double is at most a `2 ^ 53`rd of the number. -/
theorem toDouble_le {q : ℚ} (hq : 0 ≤ q) : toDouble q ≤ q * (1 + 1 / 2 ^ 53) := by
  obtain rfl | hq := hq.eq_or_lt
  · simp [toDouble_zero]
  · have htwo : (2 : ℚ) ≠ 0 := by norm_num
    have hround := (abs_le.mp (abs_roundHalfEven_sub (q * 2 ^ (52 - binade q)))).2
    have hpos : (0 : ℚ) < 2 ^ (binade q - 52) := by positivity
    have hcancel : (2 : ℚ) ^ (52 - binade q) * 2 ^ (binade q - 52) = 1 := by
      rw [← zpow_add₀ htwo, show 52 - binade q + (binade q - 52) = 0 by ring, zpow_zero]
    have hhalf : (1 / 2 : ℚ) * 2 ^ (binade q - 52) = 2 ^ binade q * (1 / 2 ^ 53) := by
      rw [zpow_sub₀ htwo]
      norm_num
      ring
    calc toDouble q = roundHalfEven (q * 2 ^ (52 - binade q)) * 2 ^ (binade q - 52) :=
          toDouble_eq hq.ne'
      _ ≤ (q * 2 ^ (52 - binade q) + 1 / 2) * 2 ^ (binade q - 52) := by gcongr; linarith
      _ = q + 2 ^ binade q * (1 / 2 ^ 53) := by rw [add_mul, mul_assoc, hcancel, mul_one, hhalf]
      _ ≤ q + q * (1 / 2 ^ 53) := by gcongr; exact (binade_spec hq).1
      _ = q * (1 + 1 / 2 ^ 53) := by ring

/-- A whole number of at most 53 bits, scaled by a power of two, is a double. -/
theorem toDouble_mul_zpow {n : ℕ} (h : n ≤ 2 ^ 53) (k : Int) :
    toDouble (n * 2 ^ k) = n * 2 ^ k := by
  obtain rfl | hpos := n.eq_zero_or_pos
  · rw [Nat.cast_zero, zero_mul, toDouble_zero]
  · have htwo : (2 : ℚ) ≠ 0 := by norm_num
    have hscaled : (0 : ℚ) < 2 ^ k := by positivity
    have hq : (0 : ℚ) < n * 2 ^ k := mul_pos (by exact_mod_cast hpos) hscaled
    have hlow := (binade_spec hq).1
    have hn : (n : ℚ) ≤ 2 ^ (53 : Int) := by exact_mod_cast h
    have hhigh : (n : ℚ) * 2 ^ k ≤ 2 ^ (53 + k) := by
      rw [zpow_add₀ htwo]
      gcongr
    have hexp : binade (n * 2 ^ k) ≤ 53 + k :=
      (zpow_le_zpow_iff_right₀ (by norm_num)).mp (hlow.trans hhigh)
    obtain ⟨m, hm⟩ : ∃ m : Int, (n : ℚ) * 2 ^ k * 2 ^ (52 - binade (n * 2 ^ k)) = m := by
      obtain hle | hlt := le_or_gt (binade (n * 2 ^ k)) (52 + k)
      · refine ⟨n * 2 ^ (k + (52 - binade (n * 2 ^ k))).toNat, ?_⟩
        push_cast
        rw [mul_assoc, ← zpow_add₀ htwo, ← zpow_natCast, Int.toNat_of_nonneg (by omega)]
      · -- the number is the upper end of the binade
        have heq : binade (n * 2 ^ k) = 53 + k := by omega
        have hsame : (n : ℚ) * 2 ^ k = 2 ^ (53 + k) := by
          rw [heq] at hlow
          exact le_antisymm hhigh hlow
        refine ⟨2 ^ 52, ?_⟩
        rw [heq, hsame, ← zpow_add₀ htwo, show 53 + k + (52 - (53 + k)) = 52 by ring]
        norm_num
    rw [toDouble_eq hq.ne', hm, roundHalfEven_intCast, ← hm, mul_assoc, ← zpow_add₀ htwo,
      show 52 - binade (n * 2 ^ k) + (binade (n * 2 ^ k) - 52) = 0 by ring, zpow_zero, mul_one]

theorem toDouble_natCast {n : ℕ} (h : n ≤ 2 ^ 53) : toDouble n = n := by
  have hscaled := toDouble_mul_zpow h 0
  rwa [zpow_zero, mul_one] at hscaled

/-- A double is its own nearest double. -/
theorem toDouble_toDouble {q : ℚ} (hq : 0 ≤ q) : toDouble (toDouble q) = toDouble q := by
  obtain rfl | hq := hq.eq_or_lt
  · rw [toDouble_zero, toDouble_zero]
  · have hfactor := toDouble_eq hq.ne'
    have hpos : (0 : ℚ) < 2 ^ (binade q - 52) := by positivity
    have hpos' : (0 : ℚ) < 2 ^ (52 - binade q) := by positivity
    have hnonneg : 0 ≤ roundHalfEven (q * 2 ^ (52 - binade q)) :=
      le_roundHalfEven (by push_cast; positivity)
    have hto : roundHalfEven (q * 2 ^ (52 - binade q)) ≤ 2 ^ 53 := by
      refine roundHalfEven_le ?_
      calc q * 2 ^ (52 - binade q) ≤ 2 ^ (binade q + 1) * 2 ^ (52 - binade q) := by
            gcongr
            exact (binade_spec hq).2.le
        _ = ((2 ^ 53 : Int) : ℚ) := by
            rw [← zpow_add₀ (by norm_num), show binade q + 1 + (52 - binade q) = 53 by ring]
            norm_num
    obtain ⟨n, hn⟩ := Int.eq_ofNat_of_zero_le hnonneg
    rw [hn] at hfactor hto
    rw [hfactor]
    exact toDouble_mul_zpow (by exact_mod_cast hto) _

end DemandSignal.Python
