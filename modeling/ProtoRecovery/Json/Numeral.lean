import ProtoRecovery.Json.Value
import ProtoRecovery.Number.Decimal
/-!
Number text.

A number is an optional minus, digits without a leading zero, an optional fraction and an optional
exponent. Digits that no longer fit 64 bits only move the point. A number that is not whole is its
digits rounded to a word, then multiplied or divided by a rounded power of ten: two roundings, and
no more than a number beyond the largest word is refused.
-/

namespace ProtoRecovery.Json.Numeral

open Number (Binary64 Reading spanDigits)

/-- Digits collected so far, and the power of ten that those left out and those of the fraction
make. -/
structure Scan where
  significand : Nat
  exponent : Int
deriving DecidableEq, Repr

/-- The largest significand. -/
def significandLimit : Nat := Nat.pow 2 64

/-- Takes in digits of the whole part until one does not fit; from there on each is a power of
ten. -/
def scanWhole : List Char → Nat → Scan
  | [], n => ⟨n, 0⟩
  | d :: ds, n =>
    let next := n * 10 + (d.toNat - '0'.toNat)
    if next < significandLimit then scanWhole ds next else ⟨n, ds.length + 1⟩

/-- Takes in digits of the fraction until one does not fit; from there on they are dropped. -/
def scanFraction : List Char → Scan → Scan
  | [], s => s
  | d :: ds, s =>
    let next := s.significand * 10 + (d.toNat - '0'.toNat)
    if next < significandLimit then scanFraction ds ⟨next, s.exponent - 1⟩ else s

/-- The word of a power of ten. -/
def powerOfTen (k : Nat) : Binary64 := .ofRatio false (Nat.pow 10 k) 1

/-- The largest power of ten that has a word. -/
def topPower : Nat := 308

/-- The product of two words, or none if it is infinite. -/
def times? (x y : Binary64) : Option Binary64 :=
  match x.reading, y.reading with
  | .finite a m e, .finite b n f =>
    let product := Binary64.ofReading (.finite (a != b) (m * n) (e + f))
    match product.reading with
    | .finite .. => some product
    | _ => none
  | _, _ => none

/-- The quotient of two words, the divisor not zero. -/
def quotient (x y : Binary64) : Binary64 :=
  match x.reading, y.reading with
  | .finite a m e, .finite b n f =>
    let shift := e - f
    if shift ≥ 0 then .ofRatio (a != b) (m * Nat.pow 2 shift.toNat) n
    else .ofRatio (a != b) m (n * Nat.pow 2 (-shift).toNat)
  | _, _ => x

/-- Whether a word is a zero. -/
def isZero (x : Binary64) : Bool :=
  match x.reading with
  | .finite _ 0 _ => true
  | _ => false

/-- A word divided by ten to the power `k`, by the largest power first. Dividing twice by the
largest power leaves nothing of a 64-bit number, so three rounds are enough. -/
def scaleDown : (rounds : Nat) → Binary64 → (k : Nat) → Binary64
  | 0, x, _ => x
  | rounds + 1, x, k =>
    if k ≤ topPower then quotient x (powerOfTen k)
    else if isZero x then x
    else scaleDown rounds (quotient x (powerOfTen topPower)) (k - topPower)

/-- The word of `significand * 10 ^ exponent`, or none if it is beyond the largest one. -/
def scale? (s : Scan) : Option Binary64 :=
  let x := Binary64.ofRatio false s.significand 1
  if s.exponent < 0 then some (scaleDown 3 x s.exponent.natAbs)
  else if s.exponent.toNat ≤ topPower then times? x (powerOfTen s.exponent.toNat)
  else if s.significand = 0 then some x
  else none

/-- The word with the sign put to it. -/
def signed (negative : Bool) (x : Binary64) : Binary64 :=
  if negative then ⟨x.bits + 0x8000000000000000⟩ else x

/-- Exponents are cut off here, far beyond where every number is zero or too large. -/
def exponentLimit : Nat := Nat.pow 2 31

/-- The exponent after its mark, and the rest. -/
def exponent? (cs : List Char) : Option (Int × List Char) :=
  let (minus, cs) := Number.spanSign cs
  match spanDigits cs with
  | ([], _) => none
  | (ds, rest) =>
    let n := min (Number.digitsValue ds) exponentLimit
    some (if minus then -n else n, rest)

/-- A number that has only whole digits. -/
def whole? (negative : Bool) (s : Scan) : Option Numeral :=
  if s.exponent ≠ 0 then (scale? s).map (.floating ∘ signed negative)
  else if !negative then some (.natural (.ofNat s.significand))
  else if s.significand = 0 ∨ s.significand > Nat.pow 2 63 then
    some (.floating (signed true (.ofRatio false s.significand 1)))
  else some (.negative (.ofInt (-s.significand)))

/-- What follows the whole digits of a number, and the rest of the text. -/
def tail? (negative : Bool) (s : Scan) : List Char → Option (Numeral × List Char)
  | '.' :: cs =>
    match spanDigits cs with
    | ([], _) => none
    | (ds, rest) =>
      let s := scanFraction ds s
      match rest with
      | 'e' :: cs | 'E' :: cs => scaled? s cs
      | rest => (scale? s).map fun x => (.floating (signed negative x), rest)
  | 'e' :: cs | 'E' :: cs => scaled? s cs
  | rest => (whole? negative s).map (·, rest)
where
  /-- A number with an exponent. -/
  scaled? (s : Scan) (cs : List Char) : Option (Numeral × List Char) := do
    let (e, rest) ← exponent? cs
    let x ← scale? ⟨s.significand, s.exponent + e⟩
    return (.floating (signed negative x), rest)

/-- The number at the start of a text, and the rest. -/
def read? (cs : List Char) : Option (Numeral × List Char) :=
  let (minus, cs) := match cs with
    | '-' :: cs => (true, cs)
    | cs => (false, cs)
  match spanDigits cs with
  | ([], _) => none
  | ('0' :: _ :: _, _) => none
  | (ds, rest) => tail? minus (scanWhole ds 0) rest

end ProtoRecovery.Json.Numeral
