import ProtoRecovery.Error
/-!
Reading bytes in order.

A cursor is how many bytes were read and those that are left. A read that does not find its bytes
fails at the offset where they should start, and takes none of them; what earlier reads took stays
taken. Words are little-endian. 32-bit integers also have a compressed form of one to five bytes.
-/

namespace ProtoRecovery.Blob

open Number (Binary32 Binary64)

/-- A place in a run of bytes. -/
structure Cursor where
  offset : Nat
  rest : List UInt8
deriving DecidableEq, Repr

/-- The start of a run of bytes. -/
def Cursor.ofBytes (bytes : List UInt8) : Cursor := ⟨0, bytes⟩

/-- A reader moves a cursor, and may fail where it stands. -/
abbrev Read (α : Type) := ExceptT Error (StateM Cursor) α

/-- Reads from the start of a run of bytes. -/
def Read.runOn {α : Type} (r : Read α) (bytes : List UInt8) : Except Error α :=
  (r.run (Cursor.ofBytes bytes)).1

/-- The offset of the cursor. -/
def offset : Read Nat := do return (← get).offset

/-- How many bytes are left. -/
def remaining : Read Nat := do return (← get).rest.length

/-- Fails with a flaw at an offset. -/
def malformed {α : Type} (offset : Nat) (flaw : BlobFlaw) : Read α :=
  throw (.malformedBlob offset flaw)

/-- The next bytes; `what` says in messages what they are for. -/
def take (count : Nat) (what : String) : Read (List UInt8) := do
  let c ← get
  if c.rest.length < count then
    malformed c.offset (.underrun count what c.rest.length)
  else
    set (Cursor.mk (c.offset + count) (c.rest.drop count))
    return c.rest.take count

/-- The value of little-endian bytes. -/
def littleEndian (bytes : List UInt8) : Nat :=
  bytes.foldr (fun b n => b.toNat + 256 * n) 0

/-- The value of big-endian bytes. -/
def bigEndian (bytes : List UInt8) : Nat :=
  bytes.foldl (fun n b => n * 256 + b.toNat) 0

/-- The next bytes as a number. -/
def word (count : Nat) (what : String) : Read Nat := do
  return littleEndian (← take count what)

/-! ## Words -/

def u8 : Read UInt8 := do return .ofNat (← word 1 "u8")

def i8 : Read Int8 := do return (UInt8.ofNat (← word 1 "i8")).toInt8

/-- A byte that is not zero. -/
def bool : Read Bool := do return (← u8) != 0

def u16 : Read UInt16 := do return .ofNat (← word 2 "u16")

def i16 : Read Int16 := do return (UInt16.ofNat (← word 2 "i16")).toInt16

def u32 : Read UInt32 := do return .ofNat (← word 4 "u32")

def u64 : Read UInt64 := do return .ofNat (← word 8 "u64")

def i64 : Read Int64 := do return (UInt64.ofNat (← word 8 "i64")).toInt64

def f32 : Read Binary32 := do return ⟨.ofNat (← word 4 "f32")⟩

def f64 : Read Binary64 := do return ⟨.ofNat (← word 8 "f64")⟩

/-- A run of bytes as it stands. -/
def byteRun (count : Nat) : Read (List UInt8) := take count "byte run"

/-! ## Compressed integers -/

/-- An unsigned integer whose first byte says how many follow. -/
def compressedU32 : Read UInt32 := do
  let lead ← u8
  if lead < 0x80 then return lead.toUInt32
  else if lead < 0xC0 then
    let low ← u8
    return .ofNat (lead.toNat % 0x40 * 0x100 + low.toNat)
  else if lead = 0xF0 then u32
  else if lead = 0xFE then return 0xFFFFFFFE
  else if lead = 0xFF then return 0xFFFFFFFF
  else
    let rest ← byteRun 3
    return .ofNat (lead.toNat % 0x40 * 0x1000000 + bigEndian rest)

/-- The signed integer of an unsigned one: the low bit is the sign, and the largest value stands for
the least integer. -/
def unfoldSign (raw : UInt32) : Int :=
  if raw = 0xFFFFFFFF then -0x80000000
  else if raw.toNat % 2 = 1 then -((raw.toNat / 2 : Nat) + 1)
  else (raw.toNat / 2 : Nat)

/-- A signed integer in compressed form. -/
def compressedI32 : Read Int := do return unfoldSign (← compressedU32)

end ProtoRecovery.Blob
