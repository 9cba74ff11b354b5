/-!
UTF-8 text out of bytes.

`decodeUtf8` reads the longest valid start of the bytes and says what stands after it: nothing, a
sequence that the end cuts off, or bytes that no continuation makes valid. The length of a bad
sequence is that of its longest start that some valid text could have.
-/

namespace ProtoRecovery.Text

/-- Why bytes are no text. The position counts bytes from the start. -/
inductive Utf8Fault where
  | invalid (length position : Nat)
  | incomplete (position : Nat)
deriving DecidableEq, Repr

/-- A description of the fault. -/
def Utf8Fault.message : Utf8Fault → String
  | .invalid length position =>
    s!"invalid utf-8 sequence of {length} bytes from index {position}"
  | .incomplete position => s!"incomplete utf-8 byte sequence from index {position}"

/-- The bytes that may follow a lead byte: the range of the second byte, and how many plain
continuation bytes come after it. -/
structure Utf8Lead where
  second : Nat × Nat
  others : Nat
deriving DecidableEq, Repr

/-- What a lead byte of a longer sequence asks for. -/
def utf8Lead? (b : Nat) : Option Utf8Lead :=
  if 0xC2 ≤ b ∧ b ≤ 0xDF then some ⟨(0x80, 0xBF), 0⟩
  else if b = 0xE0 then some ⟨(0xA0, 0xBF), 1⟩
  else if 0xE1 ≤ b ∧ b ≤ 0xEC then some ⟨(0x80, 0xBF), 1⟩
  else if b = 0xED then some ⟨(0x80, 0x9F), 1⟩
  else if b = 0xEE ∨ b = 0xEF then some ⟨(0x80, 0xBF), 1⟩
  else if b = 0xF0 then some ⟨(0x90, 0xBF), 2⟩
  else if 0xF1 ≤ b ∧ b ≤ 0xF3 then some ⟨(0x80, 0xBF), 2⟩
  else if b = 0xF4 then some ⟨(0x80, 0x8F), 2⟩
  else none

/-- The bits of the character that a lead byte carries. -/
def utf8LeadBits (b : Nat) : Nat :=
  if b < 0xE0 then b % 0x20 else if b < 0xF0 then b % 0x10 else b % 0x08

/-- Where reading stands: between characters, or inside one that began at `start`, with the range
of the next byte, the number of bytes after it, and the bits so far. -/
inductive Utf8State where
  | between
  | inside (start : Nat) (low high others value : Nat)
deriving DecidableEq, Repr

/-- Reads bytes from a position on; `acc` holds the characters read, last first. -/
def decodeUtf8From : List UInt8 → (position : Nat) → Utf8State → (acc : List Char) →
    Except Utf8Fault (List Char)
  | [], _, .between, acc => .ok acc.reverse
  | [], _, .inside start _ _ _ _, _ => .error (.incomplete start)
  | b :: rest, position, .between, acc =>
    if b < 0x80 then decodeUtf8From rest (position + 1) .between (Char.ofNat b.toNat :: acc)
    else
      match utf8Lead? b.toNat with
      | none => .error (.invalid 1 position)
      | some lead =>
        decodeUtf8From rest (position + 1)
          (.inside position lead.second.1 lead.second.2 lead.others (utf8LeadBits b.toNat)) acc
  | b :: rest, position, .inside start low high others value, acc =>
    if low ≤ b.toNat ∧ b.toNat ≤ high then
      let value := value * 0x40 + b.toNat % 0x40
      match others with
      | 0 => decodeUtf8From rest (position + 1) .between (Char.ofNat value :: acc)
      | others + 1 =>
        decodeUtf8From rest (position + 1) (.inside start 0x80 0xBF others value) acc
    else .error (.invalid (position - start) start)

/-- The text that bytes stand for. -/
def decodeUtf8 (bytes : List UInt8) : Except Utf8Fault String :=
  (decodeUtf8From bytes 0 .between []).map String.ofList

/-- The bytes of a text. -/
def encodeUtf8 (s : String) : List UInt8 := s.toUTF8.toList

end ProtoRecovery.Text
