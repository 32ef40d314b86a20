import DemandSignal.Python.Text
import Mathlib.Data.Rat.Floor

/-!
# Python numbers

`Decimal(text).quantize(Decimal("0.01"))` under the default context, the column `NUMERIC(3, 2)` it is
stored in, and the doubles of the scoring and similarity formulas. A double is the rational it stands
for; each operation rounds once, to the nearest double and to even.
-/

namespace DemandSignal

/-- A quantized `Decimal`: not a number, or a count of hundredths. -/
inductive Decimal where
  | nan
  | hundredths (n : Int)
deriving DecidableEq

namespace Python

/-- The nearest integer, and the even one of two. -/
def roundHalfEven (q : ℚ) : Int :=
  let floor := ⌊q⌋
  if q - floor < 1 / 2 then floor
  else if 1 / 2 < q - floor then floor + 1
  else if floor % 2 = 0 then floor else floor + 1

/-- A rational scaled by a power of two. -/
def scale (q : ℚ) (e : Int) : ℚ := if 0 ≤ e then q * 2 ^ e.toNat else q / 2 ^ (-e).toNat

/-- The double nearest to a rational, for the magnitudes of these formulas. -/
def toDouble (q : ℚ) : ℚ :=
  if q = 0 then 0
  else
    let guess : Int := Nat.log2 q.num.natAbs - Nat.log2 q.den
    let exponent : Int := if |q| < scale 1 guess then guess - 1 else guess
    scale (roundHalfEven (scale q (52 - exponent))) (exponent - 52)

end Python

namespace Decimal

open Python

/-- `quantize(Decimal("0.01"))` of `coeff * 10 ^ exp`; `none` past the 28 digits of the context. -/
def quantizeParts (coeff : Nat) (exp : Int) : Option Nat :=
  let digits := (Nat.toDigits 10 coeff).length
  if coeff = 0 then some 0
  else if 0 ≤ exp + 2 then
    if 28 < digits + (exp + 2).toNat then none else some (coeff * 10 ^ (exp + 2).toNat)
  else
    let drop := (-(exp + 2)).toNat
    if digits + 1 < drop then some 0
    else
      let n := (roundHalfEven (coeff / 10 ^ drop : ℚ)).toNat
      if 28 < (Nat.toDigits 10 n).length then none else some n

def lowerAscii (c : Char) : Char := if 'A' ≤ c ∧ c ≤ 'Z' then Char.ofNat (c.toNat + 32) else c

def digitsValue (cs : List Char) : Nat := cs.foldl (fun n c => 10 * n + (c.toNat - 48)) 0

def exponentValue : List Char → Option Int
  | [] => some 0
  | 'e' :: '-' :: ds => if isDigitRun ds then some (-(digitsValue ds : Int)) else none
  | 'e' :: '+' :: ds => if isDigitRun ds then some (digitsValue ds) else none
  | 'e' :: ds => if isDigitRun ds then some (digitsValue ds) else none
  | _ => none

/-- `Decimal(...).quantize(...)` of an unsigned literal. -/
def quantizeMagnitude (negative : Bool) (cs : List Char) : Option Decimal :=
  if cs.take 3 = "nan".toList ∧ (cs.drop 3).all Char.isDigit then some .nan
  else
    let whole := cs.takeWhile Char.isDigit
    let afterWhole := cs.dropWhile Char.isDigit
    let hasPoint := afterWhole.head? == some '.'
    let fraction := if hasPoint then (afterWhole.drop 1).takeWhile Char.isDigit else []
    let tail := if hasPoint then (afterWhole.drop 1).dropWhile Char.isDigit else afterWhole
    if whole = [] ∧ fraction = [] then none
    else do
      let exp ← exponentValue tail
      let n ← quantizeParts (digitsValue (whole ++ fraction)) (exp - fraction.length)
      some (.hundredths (if negative then -n else n))

/-- `Decimal(text).quantize(Decimal("0.01"))`; `none` when either step raises. `digit` is the value
of a decimal digit of any script. -/
def quantize (digit : Char → Option Nat) (text : String) : Option Decimal :=
  let ascii := (stripChars text.toList).filterMap fun c =>
    if c = '_' then none
    else match digit c with
      | some d => some (Char.ofNat (48 + d))
      | none => some (lowerAscii c)
  match ascii with
  | '-' :: cs => quantizeMagnitude true cs
  | '+' :: cs => quantizeMagnitude false cs
  | cs => quantizeMagnitude false cs

/-- `NUMERIC(3, 2)` holds the value. -/
def fits : Decimal → Bool
  | nan => true
  | hundredths n => decide (n.natAbs < 1000)

/-- `Decimal(x).quantize(Decimal("0.01"))` of a double. -/
def ofDouble (x : ℚ) : Decimal := .hundredths (roundHalfEven (x * 100))

/-- `str` of a quantized decimal. -/
def str : Decimal → String
  | nan => "NaN"
  | hundredths n =>
      let m := n.natAbs
      String.ofList ((if n < 0 then ['-'] else []) ++ Nat.toDigits 10 (m / 100) ++
        '.' :: (Nat.toDigits 10 (m / 10 % 10) ++ Nat.toDigits 10 (m % 10)))

end Decimal

end DemandSignal
