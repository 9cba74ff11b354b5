import ProtoRecovery.Json.Value
/-!
Typed values out of JSON.

A record is an object. Members it does not know are ignored; one that it knows may stand there once.
Only an optional value may be null, and a number is an integer only if it was written as one.
-/

namespace ProtoRecovery.Json

open Number (Binary32 Binary64)

/-- A decoder; failure has no reason of its own. -/
abbrev Decoder (α : Type) := Json → Option α

def string? : Decoder String
  | .string s => some s
  | _ => none

def bool? : Decoder Bool
  | .bool b => some b
  | _ => none

/-- An integer in a range. -/
def int? (low high : Int) : Decoder Int
  | .number n => n.toInt?.filter fun i => low ≤ i ∧ i ≤ high
  | _ => none

/-- An unsigned integer of so many bits. -/
def unsigned? (bits : Nat) (j : Json) : Option Nat :=
  (j.int? 0 (Nat.pow 2 bits - 1)).map Int.toNat

/-- A signed integer of so many bits. -/
def signed? (bits : Nat) : Decoder Int := int? (-Nat.pow 2 (bits - 1)) (Nat.pow 2 (bits - 1) - 1)

/-- An index, or the size of a table. -/
def index? : Decoder Nat := unsigned? 64

def binary32? : Decoder Binary32
  | .number n => some n.toBinary32
  | _ => none

def binary64? : Decoder Binary64
  | .number n => some n.toBinary64
  | _ => none

/-- The items of an array. -/
def list? {α : Type} (item : Decoder α) : Decoder (List α)
  | .array items => items.mapM item
  | _ => none

/-- A value that may be null. -/
def nullable? {α : Type} (inner : Decoder α) : Decoder (Option α)
  | .null => some none
  | j => (inner j).map some

/-- The name of a case that carries nothing: a string, or an object with one member of that name,
which is null. -/
def case? : Decoder String
  | .string name | .object [(name, .null)] => some name
  | _ => none

/-- The name of a case that carries nothing, where the one member may also be an empty object. -/
def looseCase? : Decoder String
  | .object [(name, .object [])] => some name
  | j => j.case?

/-! ## Records -/

/-- The members of an object. -/
abbrev Record := List (String × Json)

def record? : Decoder Record
  | .object members => some members
  | _ => none

namespace Record

/-- The values that stand under a name. -/
def values (r : Record) (name : String) : List Json := (r.filter (·.1 == name)).map (·.2)

/-- A member that has to be there. -/
def required {α : Type} (r : Record) (name : String) (inner : Decoder α) : Option α :=
  match r.values name with
  | [j] => inner j
  | _ => none

/-- A member with a value for its absence. -/
def withDefault {α : Type} (r : Record) (name : String) (default : α) (inner : Decoder α) :
    Option α :=
  match r.values name with
  | [] => some default
  | [j] => inner j
  | _ => none

/-- A member that may be absent or null. -/
def optional {α : Type} (r : Record) (name : String) (inner : Decoder α) : Option (Option α) :=
  r.withDefault name none (nullable? inner)

/-- A list that is empty if it is absent. -/
def list {α : Type} (r : Record) (name : String) (item : Decoder α) : Option (List α) :=
  r.withDefault name [] (list? item)

/-- A flag that is false if it is absent. -/
def flag (r : Record) (name : String) : Option Bool := r.withDefault name false bool?

end Record

end ProtoRecovery.Json
