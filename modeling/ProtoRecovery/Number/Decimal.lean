import ProtoRecovery.Number.Shortest
/-!
Decimal text of binary numbers, both ways.

`Reading.plain` never uses an exponent and writes no fraction that is zero. `Reading.tagged` shows
that a number is a floating-point one: it keeps a zero fraction, and turns to an exponent outside
`10 ^ -4` to `10 ^ 16`. `Binary32.parse?` reads text, rounding once.
-/

namespace ProtoRecovery.Number

/-- A digit as a character. -/
def digitChar (d : Nat) : Char := Char.ofNat ('0'.toNat + d)

/-- Digits as text. -/
def digitText (digits : List Nat) : String := String.ofList (digits.map digitChar)

namespace Decimal

/-- The digits before and after the point, without an exponent. -/
def parts (d : Decimal) : List Nat × List Nat :=
  let n := d.digits.length
  if d.point ≤ 0 then ([0], List.replicate (-d.point).toNat 0 ++ d.digits)
  else
    let p := d.point.toNat
    if p ≥ n then (d.digits ++ List.replicate (p - n) 0, [])
    else (d.digits.take p, d.digits.drop p)

/-- Text without an exponent; `least` is the least number of digits after the point. -/
def positional (d : Decimal) (least : Nat) : String :=
  let (whole, fraction) := d.parts
  let padded := fraction ++ List.replicate (least - fraction.length) 0
  digitText whole ++ (if padded.isEmpty then "" else "." ++ digitText padded)

/-- Text with one digit before the point and an exponent. -/
def scientific (d : Decimal) : String :=
  let rest := d.digits.drop 1
  digitText (d.digits.take 1) ++ (if rest.isEmpty then "" else "." ++ digitText rest)
    ++ "e" ++ toString (d.point - 1)

end Decimal

namespace Reading

/-- The sign as text. -/
def signText (negative : Bool) : String := if negative then "-" else ""

/-- Text without an exponent and without a zero fraction. -/
def plain (f : Format) : Reading → String
  | .nan => "NaN"
  | .infinite negative => signText negative ++ "inf"
  | .finite negative 0 _ => signText negative ++ "0"
  | .finite negative significand exponent =>
    signText negative ++ (shortest f significand exponent).positional 0

/-- Text that shows a fraction or an exponent. -/
def tagged (f : Format) : Reading → String
  | .nan => "NaN"
  | .infinite negative => signText negative ++ "inf"
  | .finite negative 0 _ => signText negative ++ "0.0"
  | .finite negative significand exponent =>
    let d := shortest f significand exponent
    signText negative ++ (if d.point > 16 ∨ d.point < -3 then d.scientific else d.positional 1)

end Reading

/-- Plain text of a word. -/
def Binary32.text (x : Binary32) : String := x.reading.plain .single

/-- Plain text of a word. -/
def Binary64.text (x : Binary64) : String := x.reading.plain .double

/-- Text of a word that shows a fraction or an exponent. -/
def Binary32.taggedText (x : Binary32) : String := x.reading.tagged .single

/-! ## Reading -/

/-- The value of a run of digits. -/
def digitsValue (cs : List Char) : Nat :=
  cs.foldl (fun n c => n * 10 + (c.toNat - '0'.toNat)) 0

/-- The digits a text starts with, and the rest. -/
def spanDigits (cs : List Char) : List Char × List Char :=
  (cs.takeWhile Char.isDigit, cs.dropWhile Char.isDigit)

/-- An optional sign, and the rest. -/
def spanSign : List Char → Bool × List Char
  | '-' :: cs => (true, cs)
  | '+' :: cs => (false, cs)
  | cs => (false, cs)

/-- The exponent part of a number, which has to be all that is left. -/
def parseExponent? : List Char → Option Int
  | [] => some 0
  | c :: cs =>
    if c = 'e' ∨ c = 'E' then
      let (negative, rest) := spanSign cs
      match spanDigits rest with
      | ([], _) => none
      | (ds, []) => some (if negative then -(digitsValue ds : Int) else digitsValue ds)
      | (_, _ :: _) => none
    else none

/-- A decimal beyond this power of ten is infinite or zero in every format here. -/
def farPoint : Int := 400

/-- The word nearest to `value * 10 ^ exponent`, where `value` has `size` digits. -/
def Format.nearestDecimal (f : Format) (negative : Bool) (value size : Nat) (exponent : Int) :
    Nat :=
  if value = 0 then f.nearest negative 0 1
  else if exponent + size > farPoint then f.infinity negative
  else if exponent + size < -farPoint then f.nearest negative 0 1
  else if exponent ≥ 0 then f.nearest negative (value * Nat.pow 10 exponent.toNat) 1
  else f.nearest negative value (Nat.pow 10 (-exponent).toNat)

/-- The pattern that an unsigned number text stands for. -/
def Format.parseUnsigned? (f : Format) (negative : Bool) (cs : List Char) : Option Nat :=
  let lower := cs.map Char.toLower
  if lower = "inf".toList ∨ lower = "infinity".toList then some (f.infinity negative)
  else if lower = "nan".toList then some f.notANumber
  else
    let (whole, rest) := spanDigits cs
    let (fraction, rest) :=
      match rest with
      | '.' :: rest => spanDigits rest
      | rest => ([], rest)
    if whole.isEmpty ∧ fraction.isEmpty then none
    else
      (parseExponent? rest).map fun exponent =>
        let digits := (whole ++ fraction).dropWhile (· == '0')
        f.nearestDecimal negative (digitsValue digits) digits.length (exponent - fraction.length)

/-- The word nearest to a number text: digits with an optional sign, point and exponent, or the
name of an infinity or of what is no number. -/
def Binary32.parse? (s : String) : Option Binary32 :=
  let (negative, cs) := spanSign s.toList
  (Format.single.parseUnsigned? negative cs).map fun n => ⟨UInt32.ofNat n⟩

end ProtoRecovery.Number
