/-!
Tags of values in attribute blobs: one byte that names the type of what follows.
-/

namespace ProtoRecovery.Blob

/-- The type of a value. -/
inductive Tag where
  | boolean
  | char
  | i1
  | u1
  | i2
  | u2
  | i4
  | u4
  | i8
  | u8
  | r4
  | r8
  | string
  | classType
  | genericInst
  | object
  | array
  | enum
  | typeIndex
deriving DecidableEq, Repr

namespace Tag

/-- Every tag. -/
def all : List Tag :=
  [.boolean, .char, .i1, .u1, .i2, .u2, .i4, .u4, .i8, .u8, .r4, .r8, .string, .classType,
    .genericInst, .object, .array, .enum, .typeIndex]

/-- The byte of a tag. -/
def byte : Tag → UInt8
  | .boolean => 0x02
  | .char => 0x03
  | .i1 => 0x04
  | .u1 => 0x05
  | .i2 => 0x06
  | .u2 => 0x07
  | .i4 => 0x08
  | .u4 => 0x09
  | .i8 => 0x0A
  | .u8 => 0x0B
  | .r4 => 0x0C
  | .r8 => 0x0D
  | .string => 0x0E
  | .classType => 0x12
  | .genericInst => 0x15
  | .object => 0x1C
  | .array => 0x1D
  | .enum => 0x55
  | .typeIndex => 0xFF

/-- The tag of a byte. -/
def ofByte? (b : UInt8) : Option Tag := all.find? (·.byte == b)

/-- A tag has one byte, and no other tag has it. -/
theorem ofByte?_byte (t : Tag) : ofByte? t.byte = some t := by
  cases t <;> decide

end Tag

end ProtoRecovery.Blob
