import Mathlib
import ProtoRecovery.Text.Utf8
/-!
# Text read back from its bytes

Every character is written as one to four bytes, and reading these gives the character back: the lead byte
asks for just the range that the second byte is in.
-/

namespace ProtoRecovery.Text

/-! ## Bytes of a text -/

/-- Listing the bytes of an array from a place on gives those that stand behind it. -/
theorem loop_behind (front back acc : List UInt8) :
    ByteArray.toList.loop (front ++ back).toByteArray front.length acc = acc.reverse ++ back := by
  induction back generalizing front acc with
  | nil =>
    rw [ByteArray.toList.loop, if_neg (by simp [List.size_toByteArray]), List.append_nil]
  | cons b rest ih =>
    have hget : (front ++ b :: rest).toByteArray.get! front.length = b := by
      simp [ByteArray.get!, List.data_toByteArray]
    have hnext := ih (front ++ [b]) (b :: acc)
    rw [ByteArray.toList.loop, if_pos (by simp [List.size_toByteArray]), hget]
    simpa using hnext

/-- The bytes of a text are those of its characters in order. -/
theorem encodeUtf8_eq (s : String) : encodeUtf8 s = s.toList.flatMap String.utf8EncodeChar := by
  show ByteArray.toList.loop s.toByteArray 0 [] = _
  rw [← String.utf8Encode_toList]
  exact loop_behind [] _ []

/-! ## One character -/

section Steps
variable {b : UInt8} {rest : List UInt8} {position start low high others value : Nat} {acc : List Char}

theorem decodeUtf8From_lead (hb : 0x80 ≤ b.toNat) (hlead : utf8Lead? b.toNat = some ⟨(low, high), others⟩) :
    decodeUtf8From (b :: rest) position .between acc =
      decodeUtf8From rest (position + 1) (.inside position low high others (utf8LeadBits b.toNat)) acc := by
  have hb : ¬b < 0x80 := by
    rw [UInt8.lt_iff_toNat_lt]
    exact Nat.not_lt.2 hb
  rw [decodeUtf8From, if_neg hb, hlead]

theorem decodeUtf8From_last (hlow : low ≤ b.toNat) (hhigh : b.toNat ≤ high) :
    decodeUtf8From (b :: rest) position (.inside start low high 0 value) acc =
      decodeUtf8From rest (position + 1) .between (Char.ofNat (value * 0x40 + b.toNat % 0x40) :: acc) := by
  rw [decodeUtf8From, if_pos ⟨hlow, hhigh⟩]

theorem decodeUtf8From_more (hlow : low ≤ b.toNat) (hhigh : b.toNat ≤ high) :
    decodeUtf8From (b :: rest) position (.inside start low high (others + 1) value) acc =
      decodeUtf8From rest (position + 1) (.inside start 0x80 0xBF others (value * 0x40 + b.toNat % 0x40)) acc := by
  rw [decodeUtf8From, if_pos ⟨hlow, hhigh⟩]

end Steps

/-- What the lead byte of two asks for. -/
theorem utf8Lead?_two {n : Nat} (h : 0x80 ≤ n) (h' : n ≤ 0x7FF) :
    utf8Lead? (n / 0x40 + 0xC0) = some ⟨(0x80, 0xBF), 0⟩ := by
  unfold utf8Lead?
  rw [if_pos (by omega)]

/-- What the lead byte of three asks for; no character is a surrogate. -/
theorem utf8Lead?_three {n : Nat} (h : 0x800 ≤ n) (h' : n ≤ 0xFFFF) (hsurrogate : n < 0xD800 ∨ 0xDFFF < n) :
    ∃ low high, utf8Lead? (n / 0x1000 + 0xE0) = some ⟨(low, high), 1⟩ ∧
      low ≤ n / 0x40 % 0x40 + 0x80 ∧ n / 0x40 % 0x40 + 0x80 ≤ high := by
  have hdigit : n / 0x1000 = 0 ∨ (1 ≤ n / 0x1000 ∧ n / 0x1000 ≤ 0xC) ∨ n / 0x1000 = 0xD ∨ 0xD < n / 0x1000 := by
    omega
  unfold utf8Lead?
  rw [if_neg (by omega)]
  rcases hdigit with hdigit | hdigit | hdigit | hdigit
  · -- The second byte starts later, since fewer bytes would do below it.
    exact ⟨0xA0, 0xBF, by rw [if_pos (by omega)], by omega, by omega⟩
  · exact ⟨0x80, 0xBF, by rw [if_neg (by omega), if_pos (by omega)], by omega, by omega⟩
  · -- The second byte ends earlier, since surrogates are above it.
    exact ⟨0x80, 0x9F, by rw [if_neg (by omega), if_neg (by omega), if_pos (by omega)], by omega, by omega⟩
  · refine ⟨0x80, 0xBF, ?_, by omega, by omega⟩
    rw [if_neg (by omega), if_neg (by omega), if_neg (by omega), if_pos (by omega)]

/-- What the lead byte of four asks for. -/
theorem utf8Lead?_four {n : Nat} (h : 0x10000 ≤ n) (h' : n < 0x110000) :
    ∃ low high, utf8Lead? (n / 0x40000 + 0xF0) = some ⟨(low, high), 2⟩ ∧
      low ≤ n / 0x1000 % 0x40 + 0x80 ∧ n / 0x1000 % 0x40 + 0x80 ≤ high := by
  have hdigit : n / 0x40000 = 0 ∨ (1 ≤ n / 0x40000 ∧ n / 0x40000 ≤ 3) ∨ n / 0x40000 = 4 := by omega
  unfold utf8Lead?
  rw [if_neg (by omega), if_neg (by omega), if_neg (by omega), if_neg (by omega), if_neg (by omega)]
  rcases hdigit with hdigit | hdigit | hdigit
  · exact ⟨0x90, 0xBF, by rw [if_pos (by omega)], by omega, by omega⟩
  · exact ⟨0x80, 0xBF, by rw [if_neg (by omega), if_pos (by omega)], by omega, by omega⟩
  · exact ⟨0x80, 0x8F, by rw [if_neg (by omega), if_neg (by omega), if_pos (by omega)], by omega, by omega⟩

section Characters
variable {n : Nat} (rest : List UInt8) (position : Nat) (acc : List Char)

theorem toNat_ofNat_byte {k : Nat} (h : k < 0x100) : (UInt8.ofNat k).toNat = k := UInt8.toNat_ofNat_of_lt' h

theorem decodeUtf8From_one (h : n ≤ 0x7F) :
    decodeUtf8From (UInt8.ofNat n :: rest) position .between acc =
      decodeUtf8From rest (position + 1) .between (Char.ofNat n :: acc) := by
  have hb : (UInt8.ofNat n).toNat = n := toNat_ofNat_byte (by omega)
  have hlt : UInt8.ofNat n < 0x80 := by
    rw [UInt8.lt_iff_toNat_lt, hb]
    exact Nat.lt_succ_of_le h
  rw [decodeUtf8From, if_pos hlt, hb]

theorem decodeUtf8From_two (h : 0x80 ≤ n) (h' : n ≤ 0x7FF) :
    decodeUtf8From (UInt8.ofNat (n / 64 % 0x20 + 0xC0) :: UInt8.ofNat (n % 0x40 + 0x80) :: rest) position
      .between acc = decodeUtf8From rest (position + 2) .between (Char.ofNat n :: acc) := by
  have hlead : (UInt8.ofNat (n / 64 % 0x20 + 0xC0)).toNat = n / 0x40 + 0xC0 := by
    rw [toNat_ofNat_byte (by omega)]
    omega
  have hsecond : (UInt8.ofNat (n % 0x40 + 0x80)).toNat = n % 0x40 + 0x80 := toNat_ofNat_byte (by omega)
  have hvalue : utf8LeadBits (n / 0x40 + 0xC0) * 0x40 + (n % 0x40 + 0x80) % 0x40 = n := by
    unfold utf8LeadBits
    split_ifs <;> omega
  rw [decodeUtf8From_lead (by omega) (hlead ▸ utf8Lead?_two h h'), decodeUtf8From_last (by omega) (by omega),
    hlead, hsecond, hvalue]

theorem decodeUtf8From_three (h : 0x800 ≤ n) (h' : n ≤ 0xFFFF) (hsurrogate : n < 0xD800 ∨ 0xDFFF < n) :
    decodeUtf8From (UInt8.ofNat (n / 4096 % 0x10 + 0xE0) :: UInt8.ofNat (n / 64 % 0x40 + 0x80) ::
      UInt8.ofNat (n % 0x40 + 0x80) :: rest) position .between acc =
        decodeUtf8From rest (position + 3) .between (Char.ofNat n :: acc) := by
  have hlead : (UInt8.ofNat (n / 4096 % 0x10 + 0xE0)).toNat = n / 0x1000 + 0xE0 := by
    rw [toNat_ofNat_byte (by omega)]
    omega
  have hsecond : (UInt8.ofNat (n / 64 % 0x40 + 0x80)).toNat = n / 0x40 % 0x40 + 0x80 := toNat_ofNat_byte (by omega)
  have hthird : (UInt8.ofNat (n % 0x40 + 0x80)).toNat = n % 0x40 + 0x80 := toNat_ofNat_byte (by omega)
  have hvalue : (utf8LeadBits (n / 0x1000 + 0xE0) * 0x40 + (n / 0x40 % 0x40 + 0x80) % 0x40) * 0x40 +
      (n % 0x40 + 0x80) % 0x40 = n := by
    unfold utf8LeadBits
    split_ifs <;> omega
  obtain ⟨low, high, hask, hlow, hhigh⟩ := utf8Lead?_three h h' hsurrogate
  rw [decodeUtf8From_lead (by omega) (hlead ▸ hask), decodeUtf8From_more (by omega) (by omega),
    decodeUtf8From_last (by omega) (by omega), hlead, hsecond, hthird, hvalue]

theorem decodeUtf8From_four (h : 0x10000 ≤ n) (h' : n < 0x110000) :
    decodeUtf8From (UInt8.ofNat (n / 262144 % 0x08 + 0xF0) :: UInt8.ofNat (n / 4096 % 0x40 + 0x80) ::
      UInt8.ofNat (n / 64 % 0x40 + 0x80) :: UInt8.ofNat (n % 0x40 + 0x80) :: rest) position .between acc =
        decodeUtf8From rest (position + 4) .between (Char.ofNat n :: acc) := by
  have hlead : (UInt8.ofNat (n / 262144 % 0x08 + 0xF0)).toNat = n / 0x40000 + 0xF0 := by
    rw [toNat_ofNat_byte (by omega)]
    omega
  have hsecond : (UInt8.ofNat (n / 4096 % 0x40 + 0x80)).toNat = n / 0x1000 % 0x40 + 0x80 :=
    toNat_ofNat_byte (by omega)
  have hthird : (UInt8.ofNat (n / 64 % 0x40 + 0x80)).toNat = n / 0x40 % 0x40 + 0x80 := toNat_ofNat_byte (by omega)
  have hfourth : (UInt8.ofNat (n % 0x40 + 0x80)).toNat = n % 0x40 + 0x80 := toNat_ofNat_byte (by omega)
  have hvalue : ((utf8LeadBits (n / 0x40000 + 0xF0) * 0x40 + (n / 0x1000 % 0x40 + 0x80) % 0x40) * 0x40 +
      (n / 0x40 % 0x40 + 0x80) % 0x40) * 0x40 + (n % 0x40 + 0x80) % 0x40 = n := by
    unfold utf8LeadBits
    split_ifs <;> omega
  obtain ⟨low, high, hask, hlow, hhigh⟩ := utf8Lead?_four h h'
  rw [decodeUtf8From_lead (by omega) (hlead ▸ hask), decodeUtf8From_more (by omega) (by omega),
    decodeUtf8From_more (by omega) (by omega), decodeUtf8From_last (by omega) (by omega), hlead, hsecond, hthird,
    hfourth, hvalue]

end Characters

/-- Reading the bytes of a character gives the character. -/
theorem decodeUtf8From_encodeChar (c : Char) (rest : List UInt8) (position : Nat) (acc : List Char) :
    ∃ next, decodeUtf8From (String.utf8EncodeChar c ++ rest) position .between acc =
      decodeUtf8From rest next .between (c :: acc) := by
  have hof : Char.ofNat c.val.toNat = c := Char.ofNat_toNat c
  have hvalid : c.val.toNat < 0xD800 ∨ 0xDFFF < c.val.toNat ∧ c.val.toNat < 0x110000 := c.valid
  unfold String.utf8EncodeChar
  dsimp only
  generalize c.val.toNat = n at hof hvalid ⊢
  subst hof
  split
  · exact ⟨_, decodeUtf8From_one rest position acc (by omega)⟩
  · split
    · exact ⟨_, decodeUtf8From_two rest position acc (by omega) (by omega)⟩
    · split
      · exact ⟨_, decodeUtf8From_three rest position acc (by omega) (by omega) (by omega)⟩
      · exact ⟨_, decodeUtf8From_four rest position acc (by omega) (by omega)⟩

/-! ## Whole texts -/

theorem decodeUtf8From_flatMap (cs : List Char) (position : Nat) (acc : List Char) :
    decodeUtf8From (cs.flatMap String.utf8EncodeChar) position .between acc = .ok (acc.reverse ++ cs) := by
  induction cs generalizing position acc with
  | nil => simp [decodeUtf8From]
  | cons c cs ih =>
    obtain ⟨next, hnext⟩ := decodeUtf8From_encodeChar c (cs.flatMap String.utf8EncodeChar) position acc
    rw [List.flatMap_cons, hnext, ih]
    simp

/-- The bytes of a text are read as that text. -/
theorem decodeUtf8_encodeUtf8 (s : String) : decodeUtf8 (encodeUtf8 s) = .ok s := by
  rw [decodeUtf8, encodeUtf8_eq, decodeUtf8From_flatMap]
  exact congrArg Except.ok (String.ofList_toList)

end ProtoRecovery.Text
