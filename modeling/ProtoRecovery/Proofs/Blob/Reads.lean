import ProtoRecovery.Proofs.Blob.Layout
import ProtoRecovery.Proofs.Text.Utf8
/-!
# Readers that take just what was written

`Reads r bytes a` says that the reader `r` takes these bytes, whatever follows them, and gives `a`. Readers put
together read bytes put together, so each written form has one lemma that is made of those of its parts.
-/

namespace ProtoRecovery.Blob

variable {α β : Type}

/-- A reader takes just these bytes, whatever follows them, and gives a value. -/
def Reads (r : Read α) (bytes : List UInt8) (a : α) : Prop :=
  ∀ (offset : Nat) (rest : List UInt8),
    r.run.run ⟨offset, bytes ++ rest⟩ = (.ok a, ⟨offset + bytes.length, rest⟩)

/-! ## Runs -/

theorem run_bind_ok {r : Read α} {c c' : Cursor} {a : α} (h : r.run.run c = (.ok a, c')) (f : α → Read β) :
    (r >>= f).run.run c = (f a).run.run c' := by
  show ((r.run >>= ExceptT.bindCont f) : StateM Cursor _).run c = _
  rw [StateT.run_bind, h]
  rfl

theorem run_bind_error {r : Read α} {c c' : Cursor} {e : Error} (h : r.run.run c = (.error e, c'))
    (f : α → Read β) : (r >>= f).run.run c = (.error e, c') := by
  show ((r.run >>= ExceptT.bindCont f) : StateM Cursor _).run c = _
  rw [StateT.run_bind, h]
  rfl

/-- What two readers in a row give, the second gives where the first one stops. -/
theorem exists_of_run_bind {r : Read α} {f : α → Read β} {c c'' : Cursor} {b : β}
    (h : (r >>= f).run.run c = (.ok b, c'')) :
    ∃ a c', r.run.run c = (.ok a, c') ∧ (f a).run.run c' = (.ok b, c'') := by
  obtain ⟨⟨e | a, c'⟩, hrun⟩ : ∃ x, r.run.run c = x := ⟨_, rfl⟩
  · rw [run_bind_error hrun] at h
    cases h
  · rw [run_bind_ok hrun] at h
    exact ⟨a, c', hrun, h⟩

/-- Two readers in a row do the same as two others, if what comes second does so where the first one stops. -/
theorem run_bind_congr {r r' : Read α} {f f' : α → Read β} {c : Cursor} (hr : r.run.run c = r'.run.run c)
    (hf : ∀ a c', r.run.run c = (.ok a, c') → (f a).run.run c' = (f' a).run.run c') :
    (r >>= f).run.run c = (r' >>= f').run.run c := by
  obtain ⟨⟨e | a, c'⟩, hrun⟩ : ∃ x, r.run.run c = x := ⟨_, rfl⟩
  · rw [run_bind_error hrun, run_bind_error (hr ▸ hrun)]
  · rw [run_bind_ok hrun, run_bind_ok (hr ▸ hrun)]
    exact hf a c' hrun

theorem run_get_bind (f : Cursor → Read α) (c : Cursor) : ((get : Read Cursor) >>= f).run.run c = (f c).run.run c := rfl

theorem run_offset_bind (f : Nat → Read α) (c : Cursor) : (offset >>= f).run.run c = (f c.offset).run.run c := rfl

theorem run_remaining_bind (f : Nat → Read α) (c : Cursor) :
    (remaining >>= f).run.run c = (f c.rest.length).run.run c := rfl

theorem run_take {count : Nat} {c : Cursor} (h : count ≤ c.rest.length) (what : String) :
    (take count what).run.run c = (.ok (c.rest.take count), ⟨c.offset + count, c.rest.drop count⟩) := by
  show ((if c.rest.length < count then _ else _ : Read (List UInt8))).run.run c = _
  rw [if_neg (Nat.not_lt.2 h)]
  rfl

theorem run_take_short {count : Nat} {c : Cursor} (h : c.rest.length < count) (what : String) :
    (take count what).run.run c = (.error (.malformedBlob c.offset (.underrun count what c.rest.length)), c) := by
  show ((if c.rest.length < count then _ else _ : Read (List UInt8))).run.run c = _
  rw [if_pos h]
  rfl

/-! ## Readers put together -/

theorem reads_pure (a : α) : Reads (pure a) [] a := fun _ _ => rfl

theorem reads_bind {r : Read α} {f : α → Read β} {first second : List UInt8} {a : α} {b : β}
    (hr : Reads r first a) (hf : Reads (f a) second b) : Reads (r >>= f) (first ++ second) b := by
  intro offset rest
  have hfirst := hr offset (second ++ rest)
  rw [List.append_assoc, run_bind_ok hfirst, hf, List.length_append, Nat.add_assoc]

/-- What is done with a value that was read may take no more bytes. -/
theorem reads_bind_nil {r : Read α} {f : α → Read β} {bytes : List UInt8} {a : α} {b : β} (hr : Reads r bytes a)
    (hf : Reads (f a) [] b) : Reads (r >>= f) bytes b := by
  have h := reads_bind hr hf
  rwa [List.append_nil] at h

theorem reads_map {r : Read α} {bytes : List UInt8} {a : α} (f : α → β) (hr : Reads r bytes a) :
    Reads (f <$> r) bytes (f a) := reads_bind_nil hr (reads_pure (f a))

/-- A reader that goes by where it stands reads the same from everywhere. -/
theorem reads_get {f : Cursor → Read α} {bytes : List UInt8} {a : α}
    (h : ∀ c : Cursor, bytes.length ≤ c.rest.length → Reads (f c) bytes a) : Reads (get >>= f) bytes a := by
  intro offset rest
  exact h ⟨offset, bytes ++ rest⟩ (by simp) offset rest

theorem reads_offset {f : Nat → Read α} {bytes : List UInt8} {a : α} (h : ∀ n, Reads (f n) bytes a) :
    Reads (offset >>= f) bytes a := fun offset rest => h offset offset rest

theorem reads_remaining {f : Nat → Read α} {bytes : List UInt8} {a : α}
    (h : ∀ n, bytes.length ≤ n → Reads (f n) bytes a) : Reads (remaining >>= f) bytes a :=
  fun offset rest => h (bytes ++ rest).length (by simp) offset rest

theorem reads_take (bytes : List UInt8) (what : String) : Reads (take bytes.length what) bytes bytes := by
  intro offset rest
  have henough : bytes.length ≤ (bytes ++ rest).length := by simp
  rw [run_take henough, List.take_left, List.drop_left]

/-- One reader again and again reads the bytes of its runs in a row. -/
theorem reads_times_succ {r : Read α} {first rest : List UInt8} {a : α} {count : Nat} {as : List α}
    (hr : Reads r first a) (hrest : Reads (times r count) rest as) :
    Reads (times r (count + 1)) (first ++ rest) (a :: as) := by
  refine reads_bind hr ?_
  exact reads_map (a :: ·) hrest

/-! ## Words -/

theorem littleEndian_lowBytes {count n : Nat} (h : n < 0x100 ^ count) : littleEndian (lowBytes count n) = n := by
  induction count generalizing n with
  | zero =>
    have hzero : n = 0 := by simpa using h
    rw [hzero]
    rfl
  | succ count ih =>
    have hrest : n / 0x100 < 0x100 ^ count := by
      rw [Nat.pow_succ] at h
      exact Nat.div_lt_of_lt_mul (by rwa [Nat.mul_comm] at h)
    show (UInt8.ofNat n).toNat + 0x100 * littleEndian (lowBytes count (n / 0x100)) = n
    rw [ih hrest, UInt8.toNat_ofNat']
    exact Nat.mod_add_div n 0x100

theorem reads_word (count : Nat) (what : String) {n : Nat} (h : n < 0x100 ^ count) :
    Reads (word count what) (lowBytes count n) n := by
  have htake := reads_take (lowBytes count n) what
  rw [length_lowBytes] at htake
  have hword := reads_map littleEndian htake
  rwa [littleEndian_lowBytes h] at hword

theorem lowBytes_one (b : UInt8) : lowBytes 1 b.toNat = [b] := by
  show [UInt8.ofNat b.toNat] = [b]
  rw [UInt8.ofNat_toNat]

theorem reads_u8 (b : UInt8) : Reads u8 [b] b := by
  have h := reads_map UInt8.ofNat (reads_word 1 "u8" b.toNat_lt)
  rwa [lowBytes_one, UInt8.ofNat_toNat] at h

theorem reads_i8 (n : Int8) : Reads i8 [n.toUInt8] n := by
  have h := reads_map (fun w => (UInt8.ofNat w).toInt8) (reads_word 1 "i8" n.toUInt8.toNat_lt)
  rwa [lowBytes_one, UInt8.ofNat_toNat, Int8.toInt8_toUInt8] at h

theorem reads_bool (b : Bool) : Reads bool [if b then 1 else 0] b := by
  have h := reads_map (· != 0) (reads_u8 (if b then 1 else 0))
  cases b <;> exact h

theorem reads_u16 (n : UInt16) : Reads u16 (lowBytes 2 n.toNat) n := by
  have h := reads_map UInt16.ofNat (reads_word 2 "u16" n.toNat_lt)
  rwa [UInt16.ofNat_toNat] at h

theorem reads_i16 (n : Int16) : Reads i16 (lowBytes 2 n.toUInt16.toNat) n := by
  have h := reads_map (fun w => (UInt16.ofNat w).toInt16) (reads_word 2 "i16" n.toUInt16.toNat_lt)
  rwa [UInt16.ofNat_toNat, Int16.toInt16_toUInt16] at h

theorem reads_u32 (n : UInt32) : Reads u32 (lowBytes 4 n.toNat) n := by
  have h := reads_map UInt32.ofNat (reads_word 4 "u32" n.toNat_lt)
  rwa [UInt32.ofNat_toNat] at h

theorem reads_u64 (n : UInt64) : Reads u64 (lowBytes 8 n.toNat) n := by
  have h := reads_map UInt64.ofNat (reads_word 8 "u64" n.toNat_lt)
  rwa [UInt64.ofNat_toNat] at h

theorem reads_i64 (n : Int64) : Reads i64 (lowBytes 8 n.toUInt64.toNat) n := by
  have h := reads_map (fun w => (UInt64.ofNat w).toInt64) (reads_word 8 "i64" n.toUInt64.toNat_lt)
  rwa [UInt64.ofNat_toNat, Int64.toInt64_toUInt64] at h

theorem reads_f32 (x : Number.Binary32) : Reads f32 (lowBytes 4 x.bits.toNat) x := by
  have h := reads_map (fun w => (⟨UInt32.ofNat w⟩ : Number.Binary32)) (reads_word 4 "f32" x.bits.toNat_lt)
  rwa [UInt32.ofNat_toNat] at h

theorem reads_f64 (x : Number.Binary64) : Reads f64 (lowBytes 8 x.bits.toNat) x := by
  have h := reads_map (fun w => (⟨UInt64.ofNat w⟩ : Number.Binary64)) (reads_word 8 "f64" x.bits.toNat_lt)
  rwa [UInt64.ofNat_toNat] at h

/-! ## Compressed integers -/

/-- What is read after a byte, when the byte is known. -/
theorem reads_u8_bind {f : UInt8 → Read α} {b : UInt8} {bytes : List UInt8} {a : α} (h : Reads (f b) bytes a) :
    Reads (u8 >>= f) (b :: bytes) a := reads_bind (reads_u8 b) h

theorem reads_compressedU32_one {n : UInt32} (h : n.toNat < 0x80) :
    Reads compressedU32 [UInt8.ofNat n.toNat] n := by
  have hbyte : (UInt8.ofNat n.toNat).toNat = n.toNat := Text.toNat_ofNat_byte (by omega)
  have hlead : UInt8.ofNat n.toNat < 0x80 := by rwa [UInt8.lt_iff_toNat_lt, hbyte]
  have hvalue : (UInt8.ofNat n.toNat).toUInt32 = n := by
    rw [← UInt32.toNat_inj, UInt8.toNat_toUInt32, hbyte]
  refine reads_u8_bind ?_
  rw [if_pos hlead, hvalue]
  exact reads_pure n

theorem reads_compressedU32_two {n : UInt32} (h : n.toNat < 0x4000) :
    Reads compressedU32 [UInt8.ofNat (0x80 + n.toNat / 0x100), UInt8.ofNat (n.toNat % 0x100)] n := by
  have hbyte : (UInt8.ofNat (0x80 + n.toNat / 0x100)).toNat = 0x80 + n.toNat / 0x100 := Text.toNat_ofNat_byte (by omega)
  have hlow : (UInt8.ofNat (n.toNat % 0x100)).toNat = n.toNat % 0x100 := Text.toNat_ofNat_byte (by omega)
  have hsum : (0x80 + n.toNat / 0x100) % 0x40 * 0x100 + n.toNat % 0x100 = n.toNat := by omega
  refine reads_u8_bind ?_
  simp only [UInt8.lt_iff_toNat_lt, hbyte, UInt8.reduceToNat]
  rw [if_neg (by omega), if_pos (by omega)]
  refine reads_u8_bind ?_
  rw [hlow, hsum, UInt32.ofNat_toNat]
  exact reads_pure n

theorem reads_compressedU32_four {n : UInt32} (h : n.toNat < 0x40000000)
    (hlead : 0xC0 + n.toNat / 0x1000000 ∉ [0xF0, 0xFE, 0xFF]) :
    Reads compressedU32 [UInt8.ofNat (0xC0 + n.toNat / 0x1000000), UInt8.ofNat (n.toNat / 0x10000 % 0x100),
      UInt8.ofNat (n.toNat / 0x100 % 0x100), UInt8.ofNat (n.toNat % 0x100)] n := by
  have hbyte : (UInt8.ofNat (0xC0 + n.toNat / 0x1000000)).toNat = 0xC0 + n.toNat / 0x1000000 :=
    Text.toNat_ofNat_byte (by omega)
  have hdigit : ∀ m, (UInt8.ofNat (m % 0x100)).toNat = m % 0x100 := fun m =>
    Text.toNat_ofNat_byte (Nat.mod_lt m (by decide))
  -- The low six bits of the first byte, and then three bytes, highest first.
  have hrun := reads_map (fun rest => UInt32.ofNat ((0xC0 + n.toNat / 0x1000000) % 0x40 * 0x1000000 + bigEndian rest))
    (reads_take [UInt8.ofNat (n.toNat / 0x10000 % 0x100), UInt8.ofNat (n.toNat / 0x100 % 0x100),
      UInt8.ofNat (n.toNat % 0x100)] "byte run")
  have hsum : (0xC0 + n.toNat / 0x1000000) % 0x40 * 0x1000000 +
      bigEndian [UInt8.ofNat (n.toNat / 0x10000 % 0x100), UInt8.ofNat (n.toNat / 0x100 % 0x100),
        UInt8.ofNat (n.toNat % 0x100)] = n.toNat := by
    simp only [bigEndian, List.foldl_cons, List.foldl_nil, hdigit]
    omega
  rw [hsum, UInt32.ofNat_toNat] at hrun
  simp only [List.mem_cons, List.not_mem_nil, or_false, not_or] at hlead
  refine reads_u8_bind ?_
  simp only [UInt8.lt_iff_toNat_lt, ← UInt8.toNat_inj, hbyte, UInt8.reduceToNat]
  rw [if_neg (by omega), if_neg (by omega), if_neg hlead.1, if_neg hlead.2.1, if_neg hlead.2.2]
  exact hrun

theorem reads_compressedU32 {n : UInt32} {bytes : List UInt8} (h : Compressed n bytes) :
    Reads compressedU32 bytes n := by
  cases h with
  | one h => exact reads_compressedU32_one h
  | two h => exact reads_compressedU32_two h
  | four h hlead => exact reads_compressedU32_four h hlead
  | whole => exact reads_u8_bind (reads_u32 n)
  | lastButOne => exact reads_u8_bind (reads_pure _)
  | last => exact reads_u8_bind (reads_pure _)

theorem unfoldSign_eq {n : UInt32} {i : Int} (h : (n.toNat : Int) = if 0 ≤ i then 2 * i else -2 * i - 1) :
    unfoldSign n = i := by
  have hlast : n = 0xFFFFFFFF ↔ n.toNat = 0xFFFFFFFF := UInt32.toNat_inj.symm
  unfold unfoldSign
  simp only [hlast]
  split at h <;> split_ifs <;> omega

theorem reads_compressedI32 {i : Int} {bytes : List UInt8} (h : Signed i bytes) : Reads compressedI32 bytes i := by
  obtain ⟨n, hn, hbytes⟩ := h
  have hraw := reads_map unfoldSign (reads_compressedU32 hbytes)
  rwa [unfoldSign_eq hn] at hraw

end ProtoRecovery.Blob
