/-!
Binary floating-point words.

A word is its bit pattern. `Format.decode` says which number a pattern stands for, `Format.nearest`
is the pattern nearest to a ratio of naturals, a half going to the even neighbour. Everything is
exact arithmetic on naturals, so a statement about a word is a statement about its bits.
-/

namespace ProtoRecovery.Number

/-- How many bits of a word hold the fraction and how many the exponent. -/
structure Format where
  fractionBits : Nat
  exponentBits : Nat
deriving DecidableEq, Repr

namespace Format

/-- Four-byte words. -/
def single : Format := ⟨23, 8⟩

/-- Eight-byte words. -/
def double : Format := ⟨52, 11⟩

/-- The exponent field of infinities and of words that are no number. -/
def topExponent (f : Format) : Nat := Nat.pow 2 f.exponentBits - 1

/-- The exponent of the smallest step, shared by all subnormal words. -/
def minExponent (f : Format) : Int :=
  2 - Nat.pow 2 (f.exponentBits - 1) - f.fractionBits

/-- The bit that marks a negative word. -/
def signBit (f : Format) : Nat := Nat.pow 2 (f.fractionBits + f.exponentBits)

end Format

/-- What a word stands for; `finite` is `significand * 2 ^ exponent` with a sign. -/
inductive Reading where
  | nan
  | infinite (negative : Bool)
  | finite (negative : Bool) (significand : Nat) (exponent : Int)
deriving DecidableEq, Repr

namespace Format

/-- The number a bit pattern stands for. -/
def decode (f : Format) (bits : Nat) : Reading :=
  let negative := bits / f.signBit % 2 == 1
  let fraction := bits % Nat.pow 2 f.fractionBits
  let exponent := bits / Nat.pow 2 f.fractionBits % Nat.pow 2 f.exponentBits
  if exponent = f.topExponent then
    if fraction = 0 then .infinite negative else .nan
  else if exponent = 0 then
    .finite negative fraction f.minExponent
  else
    .finite negative (fraction + Nat.pow 2 f.fractionBits) (f.minExponent + exponent - 1)

/-- The quotient rounded to the nearest integer, a half to the even one. -/
def roundDiv (num den : Nat) : Nat :=
  let q := num / den
  let twice := 2 * (num % den)
  if twice > den ∨ (twice = den ∧ q % 2 = 1) then q + 1 else q

/-- The exponent at which the ratio has exactly the format's number of significand bits, or the
smallest exponent if that is larger. -/
def stepExponent (f : Format) (num den : Nat) : Int :=
  let estimate : Int := (num.log2 : Int) - den.log2
  let exceeds :=
    if estimate ≥ 0 then num < den * Nat.pow 2 estimate.toNat
    else num * Nat.pow 2 (-estimate).toNat < den
  let leading := if exceeds then estimate - 1 else estimate
  max (leading - f.fractionBits) f.minExponent

/-- The pattern nearest to `num / den`; a ratio beyond the largest number gives infinity. -/
def nearest (f : Format) (negative : Bool) (num den : Nat) : Nat :=
  let sign := if negative then f.signBit else 0
  if num = 0 then sign else
  let step := f.stepExponent num den
  let significand :=
    if step ≥ 0 then roundDiv num (den * Nat.pow 2 step.toNat)
    else roundDiv (num * Nat.pow 2 (-step).toNat) den
  let magnitude :=
    if significand < Nat.pow 2 f.fractionBits then significand
    else (step - f.minExponent).toNat * Nat.pow 2 f.fractionBits + significand
  sign + min magnitude (f.topExponent * Nat.pow 2 f.fractionBits)

/-- The pattern nearest to a signed `significand * 2 ^ exponent`. -/
def nearestScaled (f : Format) (negative : Bool) (significand : Nat) (exponent : Int) : Nat :=
  if exponent ≥ 0 then f.nearest negative (significand * Nat.pow 2 exponent.toNat) 1
  else f.nearest negative significand (Nat.pow 2 (-exponent).toNat)

/-- The pattern of infinity. -/
def infinity (f : Format) (negative : Bool) : Nat :=
  (if negative then f.signBit else 0) + f.topExponent * Nat.pow 2 f.fractionBits

/-- A pattern that is no number. -/
def notANumber (f : Format) : Nat :=
  f.topExponent * Nat.pow 2 f.fractionBits + Nat.pow 2 (f.fractionBits - 1)

/-- A reading as a word of this format, rounded if it has to be. -/
def encode (f : Format) : Reading → Nat
  | .nan => f.notANumber
  | .infinite negative => f.infinity negative
  | .finite negative significand exponent => f.nearestScaled negative significand exponent

end Format

/-- A four-byte floating-point word. -/
structure Binary32 where
  bits : UInt32
deriving DecidableEq, Repr, Inhabited

/-- An eight-byte floating-point word. -/
structure Binary64 where
  bits : UInt64
deriving DecidableEq, Repr, Inhabited

namespace Binary64

/-- The number a word stands for. -/
def reading (x : Binary64) : Reading := Format.double.decode x.bits.toNat

/-- The word nearest to a reading. -/
def ofReading (r : Reading) : Binary64 := ⟨UInt64.ofNat (Format.double.encode r)⟩

/-- The word nearest to `num / den`. -/
def ofRatio (negative : Bool) (num den : Nat) : Binary64 :=
  ⟨UInt64.ofNat (Format.double.nearest negative num den)⟩

end Binary64

namespace Binary32

/-- The number a word stands for. -/
def reading (x : Binary32) : Reading := Format.single.decode x.bits.toNat

/-- The word nearest to a reading. -/
def ofReading (r : Reading) : Binary32 := ⟨UInt32.ofNat (Format.single.encode r)⟩

/-- The word nearest to `num / den`. -/
def ofRatio (negative : Bool) (num den : Nat) : Binary32 :=
  ⟨UInt32.ofNat (Format.single.nearest negative num den)⟩

/-- The word nearest to an integer. -/
def ofInt (n : Int) : Binary32 := ofRatio (n < 0) n.natAbs 1

/-- An integer with the order of the words; the two zeros have one key, and a word that is no
number has none. -/
def orderKey (x : Binary32) : Option Int :=
  let n := x.bits.toNat
  match x.reading with
  | .nan => none
  | _ => some (if n < Nat.pow 2 31 then (n : Int) else -((n : Int) - Nat.pow 2 31))

/-- Comparison of numbers; a word that is no number compares with nothing. -/
def le (x y : Binary32) : Bool :=
  match x.orderKey, y.orderKey with
  | some a, some b => a ≤ b
  | _, _ => false

end Binary32

end ProtoRecovery.Number
