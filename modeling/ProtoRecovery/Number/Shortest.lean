import ProtoRecovery.Number.Binary
/-!
The shortest decimal of a binary number.

Among the decimals that read back as the number, `shortest` takes one with the fewest digits, of
those the nearest, and of two equally near the larger. A decimal grid is tried for one digit, two
digits, and so on: if any point of a grid reads back, so does a neighbour of the number itself.
-/

namespace ProtoRecovery.Number

/-- A positive decimal `0.d₁d₂… * 10 ^ point`, its digits most significant first. -/
structure Decimal where
  digits : List Nat
  point : Int
deriving DecidableEq, Repr

/-- An interval of ratios with one denominator, and the number inside it. -/
structure Interval where
  low : Nat
  value : Nat
  high : Nat
  den : Nat
  closed : Bool
deriving Repr

namespace Interval

/-- The ratios that round to `significand * 2 ^ exponent`. The lower neighbour of a power of two is
half as far as the upper one. -/
def ofReading (f : Format) (significand : Nat) (exponent : Int) : Interval :=
  let below := if significand = Nat.pow 2 f.fractionBits ∧ exponent > f.minExponent then 1 else 2
  let scale := exponent - 2
  let factor := if scale ≥ 0 then Nat.pow 2 scale.toNat else 1
  { low := (4 * significand - below) * factor
    value := 4 * significand * factor
    high := (4 * significand + 2) * factor
    den := if scale ≥ 0 then 1 else Nat.pow 2 (-scale).toNat
    closed := significand % 2 = 0 }

/-- Whether `num / den` lies in the interval. -/
def contains (i : Interval) (num den : Nat) : Bool :=
  if i.closed then i.low * den ≤ num * i.den ∧ num * i.den ≤ i.high * den
  else i.low * den < num * i.den ∧ num * i.den < i.high * den

/-- The number in steps of `10 ^ exponent`, as a ratio. -/
def inSteps (i : Interval) (exponent : Int) : Nat × Nat :=
  if exponent ≥ 0 then (i.value, i.den * Nat.pow 10 exponent.toNat)
  else (i.value * Nat.pow 10 (-exponent).toNat, i.den)

/-- Whether `count * 10 ^ exponent` lies in the interval. -/
def containsStep (i : Interval) (count : Nat) (exponent : Int) : Bool :=
  if exponent ≥ 0 then i.contains (count * Nat.pow 10 exponent.toNat) 1
  else i.contains count (Nat.pow 10 (-exponent).toNat)

/-- The multiple of `10 ^ exponent` that reads back as the number, if its grid has one. -/
def onGrid (i : Interval) (exponent : Int) : Option Nat :=
  let (num, den) := i.inSteps exponent
  let floor := num / den
  match i.containsStep floor exponent, i.containsStep (floor + 1) exponent with
  | true, true => if 2 * (num % den) < den then some floor else some (floor + 1)
  | true, false => some floor
  | false, true => some (floor + 1)
  | false, false => none

/-- The first grid with a hit, from `first` digits on. -/
def firstGrid (i : Interval) (point : Int) : (tries first : Nat) → Option (Nat × Int)
  | 0, _ => none
  | tries + 1, first =>
    let exponent := point - first
    match i.onGrid exponent with
    | some count => some (count, exponent)
    | none => i.firstGrid point tries (first + 1)

end Interval

/-- The decimal digits of a natural, most significant first. -/
def digitsOf (n : Nat) : List Nat := (Nat.toDigits 10 n).map fun c => c.toNat - '0'.toNat

/-- The point of a ratio: the least `k` with `num / den < 10 ^ k`, searched from an upper bound. -/
def decimalPoint (num den : Nat) : (tries : Nat) → Int → Int
  | 0, k => k
  | tries + 1, k =>
    let below :=
      if k - 1 ≥ 0 then num < den * Nat.pow 10 (k - 1).toNat
      else num * Nat.pow 10 (1 - k).toNat < den
    if below then decimalPoint num den tries (k - 1) else k

/-- An upper bound of the decimal point of a ratio, from its binary size. -/
def pointBound (num den : Nat) : Int :=
  let size : Int := (num.log2 : Int) - den.log2 + 1
  if size ≥ 0 then size * 30103 / 100000 + 2 else -((-size) * 30102 / 100000) + 2

/-- Digits with the zeros at the end dropped. -/
def dropZeros (digits : List Nat) : List Nat := (digits.reverse.dropWhile (· == 0)).reverse

/-- The shortest decimal that reads back as a positive number of the format. -/
def shortest (f : Format) (significand : Nat) (exponent : Int) : Decimal :=
  let i := Interval.ofReading f significand exponent
  let point := decimalPoint i.value i.den 8 (pointBound i.value i.den)
  match i.firstGrid point 20 1 with
  | some (count, step) =>
    let digits := digitsOf count
    ⟨dropZeros digits, step + digits.length⟩
  | none => ⟨[], 0⟩

end ProtoRecovery.Number
