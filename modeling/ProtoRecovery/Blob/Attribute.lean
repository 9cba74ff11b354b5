import ProtoRecovery.Blob.Cursor
import ProtoRecovery.Blob.Tag
import ProtoRecovery.Literal
/-!
Attributes packed into a blob.

A blob starts with the number of attributes and their constructors. Then each attribute has three
counts, its constructor arguments, and its named arguments, whose values are read over. A value
carries its tag, except inside an array, where one tag serves all items. The tag of an enum value
names its enum, and a resolver says how that is stored.
-/

namespace ProtoRecovery.Blob

/-- One attribute: the constructor that was called, and with what. -/
structure Attribute where
  constructor : UInt32
  arguments : List AttributeValue
deriving Repr

/-- The tag byte under which values of an enum are stored. -/
abbrev EnumResolver := (typeIndex : Int) → Except Error UInt8

/-- The resolver of a table of enums. -/
def EnumResolver.ofTable (table : List (Int × UInt8)) : EnumResolver := fun index =>
  match table.lookup index with
  | some tag => .ok tag
  | none => .error (.invalidMetadata (.unknownEnum index))

/-- The result of `count` reads in a row. -/
def times {α : Type} (read : Read α) : (count : Nat) → Read (List α)
  | 0 => return []
  | count + 1 => do
    let x ← read
    let xs ← times read count
    return x :: xs

/-- A string with its length in front; the length minus one is no string. -/
def stringValue : Read (Option String) := do
  let start ← offset
  let length ← compressedI32
  if length = -1 then return none
  if length < 0 then malformed start (.negativeStringLength length)
  let bytes ← byteRun length.toNat
  match Text.decodeUtf8 bytes with
  | .ok s => return some s
  | .error fault => malformed start (.notText fault)

/-- The tag byte for the values of the enum that comes next. -/
def enumTag (resolver : EnumResolver) : Read UInt8 := do
  let index ← compressedI32
  match resolver index with
  | .ok tag => return tag
  | .error e => throw e

/-- An array, given how to read a value whose tag is known and one that carries its tag; the length
minus one is no array. -/
def arrayValue (resolver : EnumResolver) (value : UInt8 → Nat → Read AttributeValue)
    (tagged : Read AttributeValue) : Read (Option (List AttributeValue)) := do
  let start ← offset
  let length ← compressedI32
  if length = -1 then return none
  if length < 0 then malformed start (.negativeArrayLength length)
  if length > (← remaining) then malformed start (.arrayLengthExceedsBlob length)
  let elementOffset ← offset
  let declared ← u8
  let element ← if declared = Tag.enum.byte then enumTag resolver else pure declared
  let carryTags ← bool
  if carryTags && element != Tag.object.byte then malformed elementOffset .prefixedElements
  some <$> times (if carryTags then tagged else value element elementOffset) length.toNat

/-- A value after its tag, given how to read a value inside it whose tag is known and one that carries
its tag. -/
def valueWith (resolver : EnumResolver) (inner : UInt8 → Nat → Read AttributeValue)
    (tagged : Read AttributeValue) (tag : UInt8) (offset : Nat) : Read AttributeValue :=
  match Tag.ofByte? tag with
  | none => throw (.unsupportedTag tag offset)
  | some .enum => do inner (← enumTag resolver) offset
  | some .array => .array <$> arrayValue resolver inner tagged
  | some .typeIndex => do return .typeIndex (.ofInt (← compressedI32))
  | some .boolean => .bool <$> bool
  | some .char => .char <$> u16
  | some .i1 => .i1 <$> i8
  | some .u1 => .u1 <$> u8
  | some .i2 => .i2 <$> i16
  | some .u2 => .u2 <$> u16
  | some .i4 => do return .i4 (.ofInt (← compressedI32))
  | some .u4 => .u4 <$> compressedU32
  | some .i8 => .i8 <$> i64
  | some .u8 => .u8 <$> u64
  | some .r4 => .r4 <$> f32
  | some .r8 => .r8 <$> f64
  | some .string => .string <$> stringValue
  | some .classType | some .object | some .genericInst => return .null

/-- A value that carries its tag, given how to read one whose tag is known. -/
def taggedWith (value : UInt8 → Nat → Read AttributeValue) : Read AttributeValue := do
  let offset ← Blob.offset
  value (← u8) offset

/-- A value after its tag. An enum or array value takes a byte before it reads a value inside, so
its depth is less than the number of bytes; `depth` counts down from there. -/
def value (resolver : EnumResolver) : (depth : Nat) → (tag : UInt8) → (offset : Nat) →
    Read AttributeValue
  | 0, tag, offset => throw (.unsupportedTag tag offset)
  | depth + 1, tag, offset =>
    valueWith resolver (value resolver depth) (taggedWith (value resolver depth)) tag offset

/-- A value that carries its tag. -/
def taggedValue (resolver : EnumResolver) : Read AttributeValue := do
  let c ← get
  value resolver (c.rest.length + 1) (← u8) c.offset

/-- Reads over the member that a named argument sets: its index, and its type if the index is
negative. -/
def memberReference : Read Unit := do
  if (← compressedI32) < 0 then
    let _ ← compressedU32

/-- The arguments of one attribute. -/
def arguments (resolver : EnumResolver) : Read (List AttributeValue) := do
  let count ← compressedU32
  let fields ← compressedU32
  let properties ← compressedU32
  let values ← times (taggedValue resolver) count.toNat
  let _ ← times (do let _ ← taggedValue resolver; memberReference) (fields.toNat + properties.toNat)
  return values

/-- The attributes of constructors in order. -/
def attributes (resolver : EnumResolver) : List UInt32 → Read (List Attribute)
  | [] => return []
  | c :: cs => do
    let values ← arguments resolver
    let rest ← attributes resolver cs
    return ⟨c, values⟩ :: rest

/-- All attributes of a blob. A count that the blob has no room for is refused at once. -/
def blob (resolver : EnumResolver) : Read (List Attribute) := do
  let size ← remaining
  let count ← compressedU32
  if count.toNat > (← remaining) / 4 then malformed 0 (.countExceedsBlob count.toNat size)
  attributes resolver (← times u32 count.toNat)

/-- The attributes that a run of bytes starts with. -/
def decode (resolver : EnumResolver) (bytes : List UInt8) : Except Error (List Attribute) :=
  (blob resolver).runOn bytes

end ProtoRecovery.Blob
