import ProtoRecovery.Number.Binary
/-!
JSON values as their text has them: members in order, repeated names kept, and numbers with a
fraction or an exponent apart from whole ones.
-/

namespace ProtoRecovery

open Number (Binary32 Binary64)

/-- A number. Whole numbers that fit are integers; all others, and minus zero, are floating. -/
inductive Json.Numeral where
  | natural (n : UInt64)
  | negative (n : Int64)
  | floating (x : Binary64)
deriving DecidableEq, Repr

/-- A JSON value. -/
inductive Json where
  | null
  | bool (b : Bool)
  | number (n : Json.Numeral)
  | string (s : String)
  | array (items : List Json)
  | object (members : List (String × Json))
deriving Repr, Inhabited

namespace Json

mutual

/-- How deep arrays and objects nest in a value, where members that are not known count for
nothing. -/
def depthOf (known : String → Bool) : Json → Nat
  | .array items => deepestItem known 0 items + 1
  | .object members => deepestMember known 0 members + 1
  | _ => 0

/-- The greatest of a depth and the depths of some values. -/
def deepestItem (known : String → Bool) (seen : Nat) : List Json → Nat
  | [] => seen
  | item :: rest => deepestItem known (max seen (item.depthOf known)) rest

/-- The greatest of a depth and the depths of the values of some members. -/
def deepestMember (known : String → Bool) (seen : Nat) : List (String × Json) → Nat
  | [] => seen
  | (name, value) :: rest =>
    if known name then deepestMember known (max seen (value.depthOf known)) rest
    else deepestMember known seen rest

end

/-- How deep arrays and objects nest in a value. -/
def depth : Json → Nat := depthOf fun _ => true

/-- How deep arrays and objects may nest in the text of a file, and in a value on its own. -/
def depthLimit : Nat := 127

end Json

namespace Json.Numeral

/-- The value of a whole number. -/
def toInt? : Numeral → Option Int
  | .natural n => some n.toNat
  | .negative n => some n.toInt
  | .floating _ => none

/-- The four-byte word nearest to the number; one that is too large becomes infinite. -/
def toBinary32 : Numeral → Binary32
  | .natural n => .ofInt n.toNat
  | .negative n => .ofInt n.toInt
  | .floating x => .ofReading x.reading

/-- The eight-byte word nearest to the number. -/
def toBinary64 : Numeral → Binary64
  | .natural n => .ofRatio false n.toNat 1
  | .negative n => .ofRatio true n.toInt.natAbs 1
  | .floating x => x

end Json.Numeral

end ProtoRecovery
