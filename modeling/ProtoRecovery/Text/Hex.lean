/-!
Hexadecimal text of numbers and bytes, in lower case.
-/

namespace ProtoRecovery.Text

/-- A hexadecimal digit. -/
def hexDigit (d : Nat) : Char := Nat.digitChar d

/-- The digits of a number, with zeros in front up to a width. -/
def hex (width n : Nat) : String :=
  let digits := Nat.toDigits 16 n
  String.ofList (List.replicate (width - digits.length) '0' ++ digits)

/-- Two digits for each byte. -/
def hexBytes (bytes : List UInt8) : String :=
  String.ofList (bytes.flatMap fun b => [hexDigit (b.toNat / 16), hexDigit (b.toNat % 16)])

/-- The value of a hexadecimal digit of either case. -/
def hexValue? (c : Char) : Option Nat :=
  if '0' ≤ c ∧ c ≤ '9' then some (c.toNat - '0'.toNat)
  else if 'a' ≤ c ∧ c ≤ 'f' then some (c.toNat - 'a'.toNat + 10)
  else if 'A' ≤ c ∧ c ≤ 'F' then some (c.toNat - 'A'.toNat + 10)
  else none

/-- The bytes that pairs of digits stand for. -/
def bytesOfHex? : List Char → Option (List UInt8)
  | [] => some []
  | [_] => none
  | a :: b :: rest => do
    let high ← hexValue? a
    let low ← hexValue? b
    let bytes ← bytesOfHex? rest
    return UInt8.ofNat (high * 16 + low) :: bytes

end ProtoRecovery.Text
