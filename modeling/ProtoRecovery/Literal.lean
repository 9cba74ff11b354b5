import ProtoRecovery.Number.Decimal
import ProtoRecovery.Text.Quoted
/-!
Values that metadata records: constants of fields, and arguments of attributes.
-/

namespace ProtoRecovery

open Number (Binary32 Binary64)

/-- The constant of a literal field. Characters are code units. -/
inductive Constant where
  | bool (b : Bool)
  | char (unit : UInt16)
  | i1 (n : Int8)
  | u1 (n : UInt8)
  | i2 (n : Int16)
  | u2 (n : UInt16)
  | i4 (n : Int32)
  | u4 (n : UInt32)
  | i8 (n : Int64)
  | u8 (n : UInt64)
  | r4 (x : Binary32)
  | r8 (x : Binary64)
  | string (s : String)
  | null
deriving DecidableEq, Repr

/-- The value of a signed 32-bit constant; no other constant counts as a number. -/
def Constant.int32? : Constant → Option Int
  | .i4 n => some n.toInt
  | _ => none

/-- An argument of an attribute. Strings and arrays may be absent. -/
inductive AttributeValue where
  | bool (b : Bool)
  | char (unit : UInt16)
  | i1 (n : Int8)
  | u1 (n : UInt8)
  | i2 (n : Int16)
  | u2 (n : UInt16)
  | i4 (n : Int32)
  | u4 (n : UInt32)
  | i8 (n : Int64)
  | u8 (n : UInt64)
  | r4 (x : Binary32)
  | r8 (x : Binary64)
  | string (s : Option String)
  | array (items : Option (List AttributeValue))
  | type (name : String)
  | typeIndex (index : Int32)
  | null
deriving Repr, Inhabited

namespace AttributeValue

/-- The text of a string that is there. -/
def string? : AttributeValue → Option String
  | .string s => s
  | _ => none

/-- Texts with commas between them. -/
def commaSeparated (texts : List String) : String := ", ".intercalate texts

mutual

/-- A value as it would be written in code. -/
def text : AttributeValue → String
  | .bool b => if b then "true" else "false"
  | .char unit => "'\\u\x7b" ++ Text.hex 4 unit.toNat ++ "\x7d'"
  | .i1 n => toString n.toInt
  | .u1 n => toString n.toNat
  | .i2 n => toString n.toInt
  | .u2 n => toString n.toNat
  | .i4 n => toString n.toInt
  | .u4 n => toString n.toNat
  | .i8 n => toString n.toInt
  | .u8 n => toString n.toNat
  | .r4 x => x.text
  | .r8 x => x.text
  | .string (some s) => Text.quote s
  | .string none => "null"
  | .array (some items) => "[" ++ commaSeparated (texts items) ++ "]"
  | .array none => "null"
  | .type name => "typeof(" ++ name ++ ")"
  | .typeIndex index => "typeof(#" ++ toString index.toInt ++ ")"
  | .null => "null"

/-- The texts of values in order. -/
def texts : List AttributeValue → List String
  | [] => []
  | v :: vs => v.text :: texts vs

end

end AttributeValue

end ProtoRecovery
