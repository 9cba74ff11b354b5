import ProtoRecovery.Json.Decode
import ProtoRecovery.Literal
/-!
Constants and attribute values: an object with the kind of value under `kind` and the value itself
under `value`. A dump is looser than a value on its own about how the kind is named, so the decoders
take a decoder of kinds.
-/

namespace ProtoRecovery.Dump

open Json (Decoder Record)

/-- The kind of a value, and the value if it is there. -/
def tagged? (kindName : Decoder String) (j : Json) : Option (String × Option Json) := do
  let r ← j.record?
  let kind ← r.required "kind" kindName
  match r.values "value" with
  | [] => return (kind, none)
  | [value] => return (kind, some value)
  | _ => none

/-- A constant; `kindName` reads the name of its kind. -/
def constantBy? (kindName : Decoder String) (j : Json) : Option Constant := do
  let (kind, value) ← tagged? kindName j
  match kind, value with
  | "Bool", some j => .bool <$> j.bool?
  | "Char", some j => (.char ∘ .ofNat) <$> j.unsigned? 16
  | "I1", some j => (.i1 ∘ .ofInt) <$> j.signed? 8
  | "U1", some j => (.u1 ∘ .ofNat) <$> j.unsigned? 8
  | "I2", some j => (.i2 ∘ .ofInt) <$> j.signed? 16
  | "U2", some j => (.u2 ∘ .ofNat) <$> j.unsigned? 16
  | "I4", some j => (.i4 ∘ .ofInt) <$> j.signed? 32
  | "U4", some j => (.u4 ∘ .ofNat) <$> j.unsigned? 32
  | "I8", some j => (.i8 ∘ .ofInt) <$> j.signed? 64
  | "U8", some j => (.u8 ∘ .ofNat) <$> j.unsigned? 64
  | "R4", some j => .r4 <$> j.binary32?
  | "R8", some j => .r8 <$> j.binary64?
  | "String", some j => .string <$> j.string?
  | "Null", none => some .null
  | "Null", some .null => some .null
  | _, _ => none

/-- A constant in a dump. -/
def constant? : Decoder Constant := constantBy? Json.looseCase?

/-- An attribute value that nests other values at most so deep. -/
def attributeValueWithin? (kindName : Decoder String) : (depth : Nat) → Decoder AttributeValue
  | 0, _ => none
  | depth + 1, j => do
    let (kind, value) ← tagged? kindName j
    match kind, value with
    | "Bool", some j => .bool <$> j.bool?
    | "Char", some j => (.char ∘ .ofNat) <$> j.unsigned? 16
    | "I1", some j => (.i1 ∘ .ofInt) <$> j.signed? 8
    | "U1", some j => (.u1 ∘ .ofNat) <$> j.unsigned? 8
    | "I2", some j => (.i2 ∘ .ofInt) <$> j.signed? 16
    | "U2", some j => (.u2 ∘ .ofNat) <$> j.unsigned? 16
    | "I4", some j => (.i4 ∘ .ofInt) <$> j.signed? 32
    | "U4", some j => (.u4 ∘ .ofNat) <$> j.unsigned? 32
    | "I8", some j => (.i8 ∘ .ofInt) <$> j.signed? 64
    | "U8", some j => (.u8 ∘ .ofNat) <$> j.unsigned? 64
    | "R4", some j => .r4 <$> j.binary32?
    | "R8", some j => .r8 <$> j.binary64?
    | "String", some j => .string <$> j.nullable? Json.string?
    | "String", none => some (.string none)
    | "Array", some j => .array <$> j.nullable? (Json.list? (attributeValueWithin? kindName depth))
    | "Array", none => some (.array none)
    | "Type", some j => .type <$> j.string?
    | "TypeIndex", some j => (.typeIndex ∘ .ofInt) <$> j.signed? 32
    | "Null", none => some .null
    | "Null", some .null => some .null
    | _, _ => none

/-- An attribute value; `kindName` reads the names of kinds. Each value inside another one takes two
containers, so the depth of the whole bounds the nesting. -/
def attributeValueBy? (kindName : Decoder String) (j : Json) : Option AttributeValue :=
  attributeValueWithin? kindName j.depth j

/-- An attribute value in a dump. -/
def attributeValue? : Decoder AttributeValue := attributeValueBy? Json.looseCase?

end ProtoRecovery.Dump

namespace ProtoRecovery

/-- A constant on its own. -/
def Constant.ofJson? : Json.Decoder Constant := Dump.constantBy? Json.case?

/-- An attribute value on its own; how deep its other members nest does not matter. -/
def AttributeValue.ofJson? (j : Json) : Option AttributeValue := do
  guard (j.depthOf (fun name => name == "kind" || name == "value") ≤ Json.depthLimit)
  Dump.attributeValueBy? Json.case? j

end ProtoRecovery
