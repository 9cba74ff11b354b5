import ProtoRecovery.Proofs.Blob.Reads
/-!
# Compressed integers

`forms` is the table of compressed forms, bit by bit. Each form of a number is read as that number and leaves just what
stands behind it. The reader takes nothing else but numbers of one more bit in four bytes. Signs unfold one to one onto
the signed words, and on the way no word wraps.
-/

namespace ProtoRecovery.Blob

/-! ## The table -/

/-- The four bytes of a number, the highest one marked with two bits. -/
def fourBytes (n : UInt32) : List UInt8 :=
  [(0xC0 : UInt8) ||| (n >>> 24).toUInt8, (n >>> 16).toUInt8, (n >>> 8).toUInt8, n.toUInt8]

/-- The forms that the table has for a number. -/
def forms (n : UInt32) : List (List UInt8) :=
  (if n < 0x80 then [[n.toUInt8]] else [])
    ++ (if n < 0x4000 then [[(0x80 : UInt8) ||| (n >>> 8).toUInt8, n.toUInt8]] else [])
    ++ (if n < 0x20000000 then [fourBytes n] else [])
    ++ [[0xF0, n.toUInt8, (n >>> 8).toUInt8, (n >>> 16).toUInt8, (n >>> 24).toUInt8]]
    ++ (if n = 0xFFFFFFFE then [[0xFE]] else [])
    ++ (if n = 0xFFFFFFFF then [[0xFF]] else [])

/-- A number of 30 bits that the reader takes in four bytes as well: none of the three lead bytes with a meaning of
their own comes of it. -/
def IsWide (n : UInt32) : Prop :=
  0x20000000 ≤ n.toNat ∧ n.toNat < 0x40000000 ∧ 0xC0 + n.toNat / 0x1000000 ∉ [0xF0, 0xFE, 0xFF]

theorem shifted_byte (n k : UInt32) (hk : k.toNat < 32) : (n >>> k).toUInt8 = UInt8.ofNat (n.toNat / 2 ^ k.toNat) := by
  apply UInt8.toNat_inj.1
  simp [Nat.shiftRight_eq_div_pow, Nat.mod_eq_of_lt hk]

/-- A byte below the two highest bits takes a mark in them as a sum. -/
theorem marked_byte (mark x : Nat) (hmark : mark < 4) (hx : x < 0x40) :
    UInt8.ofNat (0x40 * mark) ||| UInt8.ofNat x = UInt8.ofNat (0x40 * mark + x) := by
  apply UInt8.toNat_inj.1
  have hor := Nat.two_pow_add_eq_or_of_lt (i := 6) hx mark
  rw [UInt8.toNat_or, Text.toNat_ofNat_byte (by omega), Text.toNat_ofNat_byte (by omega),
    Text.toNat_ofNat_byte (by omega)]
  exact hor.symm

theorem twoBytes_eq {n : UInt32} (h : n.toNat < 0x4000) :
    [(0x80 : UInt8) ||| (n >>> 8).toUInt8, n.toUInt8] =
      [UInt8.ofNat (0x80 + n.toNat / 0x100), UInt8.ofNat (n.toNat % 0x100)] := by
  have hmark := marked_byte 2 (n.toNat / 0x100) (by omega) (by omega)
  rw [shifted_byte n 8 (by decide), ← UInt8.ofNat_uInt32ToNat n, UInt8.ofNat_mod_size]
  exact congrArg (· :: _) hmark

theorem fourBytes_eq {n : UInt32} (h : n.toNat < 0x40000000) :
    fourBytes n = [UInt8.ofNat (0xC0 + n.toNat / 0x1000000), UInt8.ofNat (n.toNat / 0x10000 % 0x100),
      UInt8.ofNat (n.toNat / 0x100 % 0x100), UInt8.ofNat (n.toNat % 0x100)] := by
  have hmark := marked_byte 3 (n.toNat / 0x1000000) (by omega) (by omega)
  rw [fourBytes, shifted_byte n 24 (by decide), shifted_byte n 16 (by decide), shifted_byte n 8 (by decide),
    ← UInt8.ofNat_uInt32ToNat n, UInt8.ofNat_mod_size, UInt8.ofNat_mod_size, UInt8.ofNat_mod_size]
  exact congrArg (· :: _) hmark

theorem lowBytes_four (n : UInt32) :
    lowBytes 4 n.toNat = [n.toUInt8, (n >>> 8).toUInt8, (n >>> 16).toUInt8, (n >>> 24).toUInt8] := by
  rw [shifted_byte n 8 (by decide), shifted_byte n 16 (by decide), shifted_byte n 24 (by decide),
    ← UInt8.ofNat_uInt32ToNat n]
  simp [lowBytes, Nat.div_div_eq_div_mul]

/-- The compressed forms are those of the table, and the four bytes of wide numbers. -/
theorem compressed_iff {n : UInt32} {bytes : List UInt8} :
    Compressed n bytes ↔ bytes ∈ forms n ∨ (IsWide n ∧ bytes = fourBytes n) := by
  have hone : n < 0x80 ↔ n.toNat < 0x80 := UInt32.lt_iff_toNat_lt
  have htwo : n < 0x4000 ↔ n.toNat < 0x4000 := UInt32.lt_iff_toNat_lt
  have hfour : n < 0x20000000 ↔ n.toNat < 0x20000000 := UInt32.lt_iff_toNat_lt
  constructor
  · intro h
    cases h with
    | one h => simp [forms, hone, h]
    | two h =>
      rw [← twoBytes_eq h]
      simp [forms, htwo, h]
    | four h hlead =>
      rw [← fourBytes_eq h]
      by_cases hwide : n.toNat < 0x20000000
      · simp [forms, hfour, hwide]
      · exact .inr ⟨⟨Nat.le_of_not_lt hwide, h, hlead⟩, rfl⟩
    | whole => simp [forms, lowBytes_four]
    | lastButOne => simp [forms]
    | last => simp [forms]
  · rintro (h | ⟨⟨-, hlt, hlead⟩, rfl⟩)
    · simp only [forms, List.mem_append, List.mem_ite_nil_right, List.mem_singleton] at h
      rcases h with ((((⟨hn, rfl⟩ | ⟨hn, rfl⟩) | ⟨hn, rfl⟩) | rfl) | ⟨rfl, rfl⟩) | ⟨rfl, rfl⟩
      · rw [← UInt8.ofNat_uInt32ToNat]
        exact .one (hone.1 hn)
      · rw [twoBytes_eq (htwo.1 hn)]
        exact .two (htwo.1 hn)
      · have hlt := hfour.1 hn
        rw [fourBytes_eq (by omega)]
        refine .four (by omega) ?_
        simp only [List.mem_cons, List.not_mem_nil, or_false, not_or]
        omega
      · rw [← lowBytes_four]
        exact .whole n
      · exact .lastButOne
      · exact .last
    · rw [fourBytes_eq hlt]
      exact .four hlt hlead

/-! ## What is read -/

theorem eq_of_run_take {count : Nat} {what : String} {c c' : Cursor} {bytes : List UInt8}
    (h : (take count what).run.run c = (.ok bytes, c')) : c.rest = bytes ++ c'.rest ∧ bytes.length = count := by
  by_cases hshort : c.rest.length < count
  · rw [run_take_short hshort] at h
    cases h
  · rw [run_take (Nat.le_of_not_lt hshort)] at h
    cases h
    refine ⟨(List.take_append_drop count c.rest).symm, ?_⟩
    simp only [List.length_take]
    omega

theorem eq_of_run_u8 {c c' : Cursor} {b : UInt8} (h : u8.run.run c = (.ok b, c')) : c.rest = b :: c'.rest := by
  obtain ⟨n, _, hword, hb⟩ := exists_of_run_bind h
  obtain ⟨bytes, _, htake, hn⟩ := exists_of_run_bind hword
  cases hn
  cases hb
  obtain ⟨hrest, hlength⟩ := eq_of_run_take htake
  obtain ⟨x, rfl⟩ := List.length_eq_one_iff.1 hlength
  rw [hrest]
  simp [littleEndian]

/-- Bytes in order of weight are the low bytes of their value. -/
theorem lowBytes_littleEndian (bytes : List UInt8) : lowBytes bytes.length (littleEndian bytes) = bytes := by
  induction bytes with
  | nil => rfl
  | cons b rest ih =>
    show UInt8.ofNat (b.toNat + 0x100 * littleEndian rest) ::
      lowBytes rest.length ((b.toNat + 0x100 * littleEndian rest) / 0x100) = b :: rest
    have hb := b.toNat_lt
    have hlow : UInt8.ofNat (b.toNat + 0x100 * littleEndian rest) = b := by
      apply UInt8.toNat_inj.1
      rw [UInt8.toNat_ofNat']
      omega
    have hhigh : (b.toNat + 0x100 * littleEndian rest) / 0x100 = littleEndian rest := by omega
    rw [hlow, hhigh, ih]

theorem littleEndian_lt (bytes : List UInt8) : littleEndian bytes < 0x100 ^ bytes.length := by
  induction bytes with
  | nil => decide
  | cons b rest ih =>
    show b.toNat + 0x100 * littleEndian rest < 0x100 ^ (rest.length + 1)
    have hb := b.toNat_lt
    rw [Nat.pow_succ]
    omega

theorem toNat_ofNat_word {k : Nat} (h : k < 0x100000000) : (UInt32.ofNat k).toNat = k := UInt32.toNat_ofNat_of_lt' h

theorem eq_of_run_u32 {c c' : Cursor} {n : UInt32} (h : u32.run.run c = (.ok n, c')) :
    c.rest = lowBytes 4 n.toNat ++ c'.rest := by
  obtain ⟨w, _, hword, hn⟩ := exists_of_run_bind h
  obtain ⟨bytes, _, htake, hw⟩ := exists_of_run_bind hword
  cases hw
  cases hn
  obtain ⟨hrest, hlength⟩ := eq_of_run_take htake
  have hlt := littleEndian_lt bytes
  rw [hlength] at hlt
  rw [hrest, toNat_ofNat_word hlt, ← hlength, lowBytes_littleEndian]

theorem compressed_one_byte {lead : UInt8} (h : lead.toNat < 0x80) : Compressed lead.toUInt32 [lead] := by
  have hform : Compressed lead.toUInt32 _ := .one (by simpa using h)
  simpa using hform

theorem compressed_two_bytes {lead low : UInt8} (h : 0x80 ≤ lead.toNat) (h' : lead.toNat < 0xC0) :
    Compressed (.ofNat (lead.toNat % 0x40 * 0x100 + low.toNat)) [lead, low] := by
  have hlow := low.toNat_lt
  generalize hvalue : lead.toNat % 0x40 * 0x100 + low.toNat = value
  have hnat : (UInt32.ofNat value).toNat = value := toNat_ofNat_word (by omega)
  have hform := Compressed.two (n := UInt32.ofNat value) (by omega)
  rwa [hnat, show 0x80 + value / 0x100 = lead.toNat by omega, show value % 0x100 = low.toNat by omega,
    UInt8.ofNat_toNat, UInt8.ofNat_toNat] at hform

theorem compressed_four_bytes {lead x y z : UInt8} (h : 0xC0 ≤ lead.toNat) (hlead : lead.toNat ∉ [0xF0, 0xFE, 0xFF]) :
    Compressed (.ofNat (lead.toNat % 0x40 * 0x1000000 + bigEndian [x, y, z])) [lead, x, y, z] := by
  have hlead' := lead.toNat_lt
  have hx := x.toNat_lt
  have hy := y.toNat_lt
  have hz := z.toNat_lt
  have hbig : bigEndian [x, y, z] = (x.toNat * 0x100 + y.toNat) * 0x100 + z.toNat := by
    simp [bigEndian]
  generalize hvalue : lead.toNat % 0x40 * 0x1000000 + bigEndian [x, y, z] = value
  rw [hbig] at hvalue
  have hnat : (UInt32.ofNat value).toNat = value := toNat_ofNat_word (by omega)
  have htop : 0xC0 + value / 0x1000000 = lead.toNat := by omega
  have hform := Compressed.four (n := UInt32.ofNat value) (by omega) (by rwa [hnat, htop])
  rwa [hnat, htop, show value / 0x10000 % 0x100 = x.toNat by omega, show value / 0x100 % 0x100 = y.toNat by omega,
    show value % 0x100 = z.toNat by omega, UInt8.ofNat_toNat, UInt8.ofNat_toNat, UInt8.ofNat_toNat,
    UInt8.ofNat_toNat] at hform

/-- Whatever a compressed integer is read from starts with one of its forms. -/
theorem exists_compressed_of_run {n : UInt32} {c c' : Cursor} (h : compressedU32.run.run c = (.ok n, c')) :
    ∃ bytes, Compressed n bytes ∧ c.rest = bytes ++ c'.rest := by
  obtain ⟨lead, c₁, hrun, h⟩ := exists_of_run_bind h
  have hrest := eq_of_run_u8 hrun
  simp only [UInt8.lt_iff_toNat_lt, UInt8.reduceToNat] at h
  split_ifs at h with hone htwo hwhole hnext hlast
  · cases h
    exact ⟨[lead], compressed_one_byte hone, hrest⟩
  · obtain ⟨low, c₂, hlow, h⟩ := exists_of_run_bind h
    cases h
    refine ⟨[lead, low], compressed_two_bytes (Nat.le_of_not_lt hone) htwo, ?_⟩
    rw [hrest, eq_of_run_u8 hlow]
    rfl
  · refine ⟨_, .whole n, ?_⟩
    rw [hrest, eq_of_run_u32 h, hwhole]
    rfl
  · cases h
    refine ⟨_, .lastButOne, ?_⟩
    rw [hrest, hnext]
    rfl
  · cases h
    refine ⟨_, .last, ?_⟩
    rw [hrest, hlast]
    rfl
  · obtain ⟨three, c₂, hthree, h⟩ := exists_of_run_bind h
    cases h
    obtain ⟨hbytes, hlength⟩ := eq_of_run_take hthree
    obtain ⟨x, y, z, rfl⟩ := List.length_eq_three.1 hlength
    refine ⟨[lead, x, y, z], compressed_four_bytes (Nat.le_of_not_lt htwo) ?_, ?_⟩
    · simp only [← UInt8.toNat_inj, UInt8.reduceToNat] at hwhole hnext hlast
      simp [hwhole, hnext, hlast]
    · rw [hrest, hbytes]
      rfl

/-! ## Signs -/

/-- Half of a raw value, as a signed word. -/
def magnitude (raw : UInt32) : Int32 := (raw >>> 1).toInt32

/-- The signed integer of a raw value, in words of 32 bits that wrap when they overflow. -/
def unfoldWord (raw : UInt32) : Int32 :=
  if raw = 0xFFFFFFFF then Int32.minValue
  else if raw &&& 1 = 1 then -(magnitude raw + 1)
  else magnitude raw

theorem unfoldSign_iff {n : UInt32} {i : Int} :
    unfoldSign n = i ↔ (n.toNat : Int) = if 0 ≤ i then 2 * i else -2 * i - 1 := by
  constructor
  · rintro rfl
    have hlast : n = 0xFFFFFFFF ↔ n.toNat = 0xFFFFFFFF := UInt32.toNat_inj.symm
    unfold unfoldSign
    simp only [hlast]
    split_ifs <;> omega
  · exact unfoldSign_eq

theorem toInt_magnitude (raw : UInt32) : (magnitude raw).toInt = (raw.toNat / 2 : Nat) := by
  have hlt := raw.toNat_lt
  have hhalf : (raw >>> 1).toNat = raw.toNat / 2 := by
    simp [Nat.shiftRight_eq_div_pow]
  show (raw >>> 1).toBitVec.toInt = _
  rw [BitVec.toInt_eq_toNat_bmod, UInt32.toNat_toBitVec, hhalf]
  exact Int.bmod_eq_of_le (by omega) (by omega)

theorem odd_iff (raw : UInt32) : raw &&& 1 = 1 ↔ raw.toNat % 2 = 1 := by
  rw [← UInt32.toNat_inj, UInt32.toNat_and]
  simp

/-- The sum does not overflow: only the largest raw value has a half that nothing can be added to. -/
theorem toInt_magnitude_add_one {raw : UInt32} (hlast : raw ≠ 0xFFFFFFFF) (hodd : raw &&& 1 = 1) :
    (magnitude raw + 1).toInt = (magnitude raw).toInt + 1 := by
  have hlt := raw.toNat_lt
  have hne : raw.toNat ≠ 0xFFFFFFFF := fun heq => hlast (UInt32.toNat_inj.1 heq)
  rw [odd_iff] at hodd
  rw [Int32.toInt_add, toInt_magnitude, show (1 : Int32).toInt = 1 from rfl]
  exact Int.bmod_eq_of_le (by omega) (by omega)

theorem toInt_neg_magnitude_add_one {raw : UInt32} (hlast : raw ≠ 0xFFFFFFFF) (hodd : raw &&& 1 = 1) :
    (-(magnitude raw + 1)).toInt = -(magnitude raw + 1).toInt := by
  have hlt := raw.toNat_lt
  rw [Int32.toInt_neg, toInt_magnitude_add_one hlast hodd, toInt_magnitude]
  exact Int.bmod_eq_of_le (by omega) (by omega)

/-- In words the sign unfolds as it does in integers. -/
theorem toInt_unfoldWord (raw : UInt32) : (unfoldWord raw).toInt = unfoldSign raw := by
  unfold unfoldWord unfoldSign
  by_cases hlast : raw = 0xFFFFFFFF
  · rw [if_pos hlast, if_pos hlast]
    rfl
  · rw [if_neg hlast, if_neg hlast]
    by_cases hodd : raw &&& 1 = 1
    · rw [if_pos hodd, if_pos ((odd_iff raw).1 hodd), toInt_neg_magnitude_add_one hlast hodd,
        toInt_magnitude_add_one hlast hodd, toInt_magnitude]
    · rw [if_neg hodd, if_neg (mt (odd_iff raw).2 hodd), toInt_magnitude]

theorem unfoldWord_bijective : Function.Bijective unfoldWord := by
  constructor
  · intro a b hab
    have hsame : unfoldSign a = unfoldSign b := by rw [← toInt_unfoldWord, hab, toInt_unfoldWord]
    have ha := unfoldSign_iff.1 hsame
    rw [← unfoldSign_iff.1 rfl] at ha
    exact UInt32.toNat_inj.1 (by exact_mod_cast ha)
  · intro i
    obtain ⟨_, n, hn, -⟩ := exists_signed_int32 i
    refine ⟨n, Int32.toInt_inj.1 ?_⟩
    rw [toInt_unfoldWord, unfoldSign_eq hn]

/-! ## Both together -/

/-- Each form that the table has for a number is read as that number, and leaves just the bytes behind it; nothing else
is read as it but its wide form. The signed integers of raw values are all signed words, each of them once; where one is
added to a half and the sum negated, neither overflows. -/
theorem compressed_integers_exact :
    (∀ (n : UInt32) (bytes rest : List UInt8) (offset : Nat), bytes ∈ forms n →
      compressedU32.run.run ⟨offset, bytes ++ rest⟩ = (.ok n, ⟨offset + bytes.length, rest⟩) ∧
      compressedI32.run.run ⟨offset, bytes ++ rest⟩ = (.ok (unfoldWord n).toInt, ⟨offset + bytes.length, rest⟩)) ∧
    (∀ (n : UInt32) (c c' : Cursor), compressedU32.run.run c = (.ok n, c') →
      ∃ bytes, (bytes ∈ forms n ∨ IsWide n ∧ bytes = fourBytes n) ∧ c.rest = bytes ++ c'.rest) ∧
    Function.Bijective unfoldWord ∧
    ∀ raw : UInt32, raw ≠ 0xFFFFFFFF → raw &&& 1 = 1 →
      (magnitude raw + 1).toInt = (magnitude raw).toInt + 1 ∧
      (-(magnitude raw + 1)).toInt = -(magnitude raw + 1).toInt := by
  refine ⟨fun n bytes rest offset h => ?_, fun n c c' h => ?_, unfoldWord_bijective, fun raw hlast hodd => ?_⟩
  · have hreads := reads_compressedU32 (compressed_iff.2 (.inl h))
    refine ⟨hreads offset rest, ?_⟩
    rw [toInt_unfoldWord]
    exact reads_map unfoldSign hreads offset rest
  · obtain ⟨bytes, hform, hrest⟩ := exists_compressed_of_run h
    exact ⟨bytes, compressed_iff.1 hform, hrest⟩
  · exact ⟨toInt_magnitude_add_one hlast hodd, toInt_neg_magnitude_add_one hlast hodd⟩

/-- The largest number that the table has four bytes for, and the largest raw value that is added to. -/
theorem compressed_integers_exact_largest :
    [0xDF, 0xFF, 0xFF, 0xFF] ∈ forms 0x1FFFFFFF ∧
      compressedU32.run.run ⟨7, [0xDF, 0xFF, 0xFF, 0xFF] ++ [0xF0, 0x01]⟩ = (.ok 0x1FFFFFFF, ⟨11, [0xF0, 0x01]⟩) ∧
      compressedI32.run.run ⟨7, [0xDF, 0xFF, 0xFF, 0xFF] ++ [0xF0, 0x01]⟩ =
        (.ok (-0x10000000), ⟨11, [0xF0, 0x01]⟩) ∧
      (∃ bytes, (bytes ∈ forms 0x1FFFFFFF ∨ IsWide 0x1FFFFFFF ∧ bytes = fourBytes 0x1FFFFFFF) ∧
        [0xDF, 0xFF, 0xFF, 0xFF, 0xF0, 0x01] = bytes ++ [0xF0, 0x01]) ∧
      (magnitude 0xFFFFFFFD + 1).toInt = (magnitude 0xFFFFFFFD).toInt + 1 ∧
      (-(magnitude 0xFFFFFFFD + 1)).toInt = -(magnitude 0xFFFFFFFD + 1).toInt := by
  have hform : [0xDF, 0xFF, 0xFF, 0xFF] ∈ forms 0x1FFFFFFF := by decide
  obtain ⟨hread, honly, -, hwords⟩ := compressed_integers_exact
  obtain ⟨hunsigned, hsigned⟩ := hread 0x1FFFFFFF _ [0xF0, 0x01] 7 hform
  exact ⟨hform, hunsigned, hsigned, honly _ _ _ hunsigned, hwords 0xFFFFFFFD (by decide) (by decide)⟩

end ProtoRecovery.Blob
