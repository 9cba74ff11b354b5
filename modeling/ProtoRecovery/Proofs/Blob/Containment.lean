import ProtoRecovery.Proofs.Blob.Reads
/-!
# Reading stays in the blob

A reader only goes forward, whether or not it succeeds, and stops at the end of the bytes at the latest. Its errors are
those of the resolver, and others with an offset in the blob.
-/

namespace ProtoRecovery.Blob

variable {α β : Type} {resolver : EnumResolver}

/-! ## Where cursors go -/

/-- The second cursor is in the same bytes as the first, there or further on. -/
def Cursor.Precedes (c c' : Cursor) : Prop := ∃ k ≤ c.rest.length, c' = ⟨c.offset + k, c.rest.drop k⟩

theorem Cursor.Precedes.refl (c : Cursor) : c.Precedes c := ⟨0, Nat.zero_le _, rfl⟩

theorem Cursor.Precedes.trans {c c' c'' : Cursor} (h : c.Precedes c') (h' : c'.Precedes c'') : c.Precedes c'' := by
  obtain ⟨k, hk, rfl⟩ := h
  obtain ⟨l, hl, rfl⟩ := h'
  rw [List.length_drop] at hl
  refine ⟨k + l, by omega, ?_⟩
  rw [List.drop_drop, Nat.add_assoc]

/-- Both have the end of the bytes at one place. -/
theorem Cursor.Precedes.sum_eq {c c' : Cursor} (h : c.Precedes c') :
    c'.offset + c'.rest.length = c.offset + c.rest.length := by
  obtain ⟨k, hk, rfl⟩ := h
  simp only [List.length_drop]
  omega

theorem Cursor.Precedes.length_le {c c' : Cursor} (h : c.Precedes c') : c'.rest.length ≤ c.rest.length := by
  obtain ⟨k, -, rfl⟩ := h
  simp

/-- From everywhere in a number of bytes, a reader goes forward in them, and fails only with certain errors. -/
def Contained (size : Nat) (P : Error → Prop) (r : Read α) : Prop :=
  ∀ c : Cursor, c.offset + c.rest.length = size →
    c.Precedes (r.run.run c).2 ∧ ∀ e, (r.run.run c).1 = .error e → P e

section Contained
variable {size : Nat} {P : Error → Prop}

theorem contained_pure (a : α) : Contained size P (pure a) := fun c _ => ⟨.refl c, fun _ h => nomatch h⟩

theorem contained_throw {e : Error} (h : P e) : Contained size P (throw e : Read α) := by
  intro c _
  refine ⟨.refl c, fun e' he => ?_⟩
  cases he
  exact h

theorem contained_bind {r : Read α} {f : α → Read β} (hr : Contained size P r) (hf : ∀ a, Contained size P (f a)) :
    Contained size P (r >>= f) := by
  intro c hc
  obtain ⟨hforward, hfault⟩ := hr c hc
  obtain ⟨⟨e | a, c'⟩, hrun⟩ : ∃ x, r.run.run c = x := ⟨_, rfl⟩
  · rw [run_bind_error hrun]
    rw [hrun] at hforward hfault
    refine ⟨hforward, fun e' he => ?_⟩
    cases he
    exact hfault e rfl
  · rw [run_bind_ok hrun]
    rw [hrun] at hforward
    obtain ⟨hforward', hfault'⟩ := hf a c' (by rw [hforward.sum_eq, hc])
    exact ⟨hforward.trans hforward', hfault'⟩

theorem contained_map {r : Read α} (f : α → β) (hr : Contained size P r) : Contained size P (f <$> r) :=
  contained_bind hr fun a => contained_pure (f a)

theorem contained_ite {p : Prop} [Decidable p] {r r' : Read α} (hr : p → Contained size P r)
    (hr' : ¬p → Contained size P r') : Contained size P (if p then r else r') := by
  split
  · exact hr ‹_›
  · exact hr' ‹_›

/-- An offset that is read off is one in the bytes. -/
theorem contained_offset {f : Nat → Read α} (hf : ∀ n ≤ size, Contained size P (f n)) :
    Contained size P (offset >>= f) := fun c hc => hf c.offset (by omega) c hc

theorem contained_remaining {f : Nat → Read α} (hf : ∀ n, Contained size P (f n)) :
    Contained size P (remaining >>= f) := fun c hc => hf c.rest.length c hc

theorem contained_times {r : Read α} (hr : Contained size P r) (count : Nat) : Contained size P (times r count) := by
  induction count with
  | zero => exact contained_pure []
  | succ count ih => exact contained_bind hr fun a => contained_map (a :: ·) ih

end Contained

/-! ## Readers of words -/

section Words
variable {size : Nat} {P : Error → Prop} (hP : ∀ offset ≤ size, ∀ flaw, P (.malformedBlob offset flaw))
include hP

theorem contained_malformed {offset : Nat} (h : offset ≤ size) (flaw : BlobFlaw) :
    Contained size P (malformed offset flaw : Read α) := contained_throw (hP offset h flaw)

theorem contained_take (count : Nat) (what : String) : Contained size P (take count what) := by
  intro c hc
  by_cases h : c.rest.length < count
  · rw [run_take_short h]
    refine ⟨.refl c, fun e he => ?_⟩
    cases he
    exact hP c.offset (by omega) _
  · rw [run_take (Nat.le_of_not_lt h)]
    exact ⟨⟨count, Nat.le_of_not_lt h, rfl⟩, fun _ he => nomatch he⟩

theorem contained_word (count : Nat) (what : String) : Contained size P (word count what) :=
  contained_map littleEndian (contained_take hP count what)

theorem contained_u8 : Contained size P u8 := contained_map UInt8.ofNat (contained_word hP 1 "u8")

omit hP in
/-- A compressed integer is its first byte and what that asks for. -/
theorem exists_compressedU32_eq : ∃ f : UInt8 → Read UInt32, compressedU32 = u8 >>= f ∧
    ∀ {size : Nat} {P : Error → Prop}, (∀ offset ≤ size, ∀ flaw, P (.malformedBlob offset flaw)) →
      ∀ lead, Contained size P (f lead) := by
  refine ⟨_, rfl, fun hP lead => ?_⟩
  refine contained_ite (fun _ => contained_pure _) fun _ => contained_ite (fun _ => ?_) fun _ => ?_
  · exact contained_map _ (contained_u8 hP)
  refine contained_ite (fun _ => contained_map _ (contained_word hP 4 "u32")) fun _ => ?_
  refine contained_ite (fun _ => contained_pure _) fun _ => contained_ite (fun _ => contained_pure _) fun _ => ?_
  exact contained_map _ (contained_take hP 3 "byte run")

theorem contained_compressedU32 : Contained size P compressedU32 := by
  obtain ⟨f, heq, hf⟩ := exists_compressedU32_eq
  rw [heq]
  exact contained_bind (contained_u8 hP) (hf hP)

theorem contained_compressedI32 : Contained size P compressedI32 :=
  contained_map unfoldSign (contained_compressedU32 hP)

theorem contained_stringValue : Contained size P stringValue := by
  unfold stringValue
  refine contained_offset fun start hstart => contained_bind (contained_compressedI32 hP) fun length => ?_
  refine contained_ite (fun _ => contained_pure _) fun _ => ?_
  refine contained_ite (fun _ => contained_malformed hP hstart _) fun _ => ?_
  refine contained_bind (contained_take hP _ _) fun bytes => ?_
  cases Text.decodeUtf8 bytes with
  | ok s => exact contained_pure _
  | error fault => exact contained_malformed hP hstart _

theorem contained_taggedWith {inner : UInt8 → Nat → Read AttributeValue}
    (hinner : ∀ tag, ∀ offset ≤ size, Contained size P (inner tag offset)) : Contained size P (taggedWith inner) :=
  contained_offset fun offset hoffset => contained_bind (contained_u8 hP) fun tag => hinner tag offset hoffset

theorem contained_memberReference : Contained size P memberReference :=
  contained_bind (contained_compressedI32 hP) fun _ =>
    contained_ite (fun _ => contained_map _ (contained_compressedU32 hP)) fun _ => contained_pure ()

end Words

/-! ## Values -/

/-- The errors of reading a blob of a size: those of the resolver, and others with an offset in the blob. -/
inductive Fault (resolver : EnumResolver) (size : Nat) : Error → Prop
  | resolver {index : Int} {e : Error} (h : resolver index = .error e) : Fault resolver size e
  | malformed {offset : Nat} (h : offset ≤ size) (flaw : BlobFlaw) : Fault resolver size (.malformedBlob offset flaw)
  | unsupported {offset : Nat} (h : offset ≤ size) (tag : UInt8) : Fault resolver size (.unsupportedTag tag offset)

/-- Errors of reading a blob are among certain errors. -/
def Allows (resolver : EnumResolver) (size : Nat) (P : Error → Prop) : Prop := ∀ e, Fault resolver size e → P e

/-- The items of an array, once their tag is known. -/
def arrayItems (value : UInt8 → Nat → Read AttributeValue) (tagged : Read AttributeValue) (length : Int)
    (elementOffset : Nat) (element : UInt8) : Read (Option (List AttributeValue)) := do
  let carryTags ← bool
  if carryTags && element != Tag.object.byte then malformed elementOffset .prefixedElements
  else some <$> times (if carryTags then tagged else value element elementOffset) length.toNat

/-- Where an array is malformed, nothing more of it is read. -/
theorem arrayValue_eq (resolver : EnumResolver) (value : UInt8 → Nat → Read AttributeValue)
    (tagged : Read AttributeValue) :
    arrayValue resolver value tagged = (do
      let start ← offset
      let length ← compressedI32
      if length = -1 then return none
      else if length < 0 then malformed start (.negativeArrayLength length)
      else do
        let left ← remaining
        if length > left then malformed start (.arrayLengthExceedsBlob length)
        else do
          let elementOffset ← offset
          let declared ← u8
          if declared = Tag.enum.byte then enumTag resolver >>= arrayItems value tagged length elementOffset
          else pure declared >>= arrayItems value tagged length elementOffset) := rfl

section Values
variable {size : Nat} {P : Error → Prop} (hP : Allows resolver size P)
include hP

theorem Allows.malformed : ∀ offset ≤ size, ∀ flaw, P (.malformedBlob offset flaw) :=
  fun _ h flaw => hP _ (.malformed h flaw)

theorem contained_enumTag : Contained size P (enumTag resolver) := by
  refine contained_bind (contained_compressedI32 hP.malformed) fun index => ?_
  cases h : resolver index with
  | ok tag => exact contained_pure tag
  | error e => exact contained_throw (hP e (.resolver h))

theorem contained_arrayValue {inner : UInt8 → Nat → Read AttributeValue} {tagged : Read AttributeValue}
    (hinner : ∀ tag, ∀ offset ≤ size, Contained size P (inner tag offset)) (htagged : Contained size P tagged) :
    Contained size P (arrayValue resolver inner tagged) := by
  rw [arrayValue_eq]
  refine contained_offset fun start hstart => contained_bind (contained_compressedI32 hP.malformed) fun length => ?_
  refine contained_ite (fun _ => contained_pure _) fun _ => ?_
  refine contained_ite (fun _ => contained_malformed hP.malformed hstart _) fun _ => contained_remaining fun n => ?_
  refine contained_ite (fun _ => contained_malformed hP.malformed hstart _) fun _ => ?_
  refine contained_offset fun elementOffset hoffset => contained_bind (contained_u8 hP.malformed) fun declared => ?_
  have hitems : ∀ element, Contained size P (arrayItems inner tagged length elementOffset element) := by
    intro element
    refine contained_bind (contained_map _ (contained_u8 hP.malformed)) fun carry => ?_
    refine contained_ite (fun _ => contained_malformed hP.malformed hoffset _) fun _ => contained_map some ?_
    exact contained_times (contained_ite (fun _ => htagged) fun _ => hinner element elementOffset hoffset) _
  refine contained_ite (fun _ => contained_bind (contained_enumTag hP) hitems) fun _ => ?_
  exact contained_bind (contained_pure declared) hitems

/-- A value reads on under the offset where it starts, if it is one of an enum. -/
theorem contained_valueWith {inner : UInt8 → Nat → Read AttributeValue} {tagged : Read AttributeValue}
    (hinner : ∀ tag, ∀ offset ≤ size, Contained size P (inner tag offset)) (htagged : Contained size P tagged)
    {offset : Nat} (hsame : ∀ tag, Contained size P (inner tag offset)) (hoffset : ∀ tag, P (.unsupportedTag tag offset))
    (tag : UInt8) : Contained size P (valueWith resolver inner tagged tag offset) := by
  unfold valueWith
  cases Tag.ofByte? tag with
  | none => exact contained_throw (hoffset tag)
  | some t =>
    cases t with
    | enum => exact contained_bind (contained_enumTag hP) hsame
    | array => exact contained_map _ (contained_arrayValue hP hinner htagged)
    | string => exact contained_map _ (contained_stringValue hP.malformed)
    | i4 | typeIndex => exact contained_map _ (contained_compressedI32 hP.malformed)
    | u4 => exact contained_map _ (contained_compressedU32 hP.malformed)
    | boolean => exact contained_map _ (contained_map _ (contained_u8 hP.malformed))
    | char | i1 | u1 | i2 | u2 | i8 | u8 | r4 | r8 =>
      exact contained_map _ (contained_map _ (contained_word hP.malformed _ _))
    | classType | genericInst | object => exact contained_pure _

theorem contained_value (depth : Nat) {offset : Nat} (hoffset : ∀ tag, P (.unsupportedTag tag offset)) (tag : UInt8) :
    Contained size P (value resolver depth tag offset) := by
  induction depth generalizing tag offset with
  | zero => exact contained_throw (hoffset tag)
  | succ depth ih =>
    have hinner : ∀ tag, ∀ offset ≤ size, Contained size P (value resolver depth tag offset) :=
      fun tag offset h => ih (fun tag => hP _ (.unsupported h tag)) tag
    exact contained_valueWith hP hinner (contained_taggedWith hP.malformed hinner) (ih hoffset) hoffset tag

theorem contained_taggedValue : Contained size P (taggedValue resolver) := by
  intro c hc
  have hoffset : ∀ tag, P (.unsupportedTag tag c.offset) := fun tag => hP _ (.unsupported (by omega) tag)
  exact contained_bind (contained_u8 hP.malformed) (contained_value hP (c.rest.length + 1) hoffset) c hc

/-! ## Attributes -/

theorem contained_arguments : Contained size P (arguments resolver) := by
  refine contained_bind (contained_compressedU32 hP.malformed) fun count => ?_
  refine contained_bind (contained_compressedU32 hP.malformed) fun fields => ?_
  refine contained_bind (contained_compressedU32 hP.malformed) fun properties => ?_
  refine contained_bind (contained_times (contained_taggedValue hP) _) fun values => ?_
  have hnamed := contained_bind (contained_taggedValue hP) fun _ => contained_memberReference hP.malformed
  exact contained_bind (contained_times hnamed _) fun _ => contained_pure values

theorem contained_attributes (constructors : List UInt32) :
    Contained size P (attributes resolver constructors) := by
  induction constructors with
  | nil => exact contained_pure []
  | cons c cs ih => exact contained_bind (contained_arguments hP) fun _ => contained_map _ ih

theorem contained_blob : Contained size P (blob resolver) := by
  refine contained_remaining fun n => contained_bind (contained_compressedU32 hP.malformed) fun count => ?_
  refine contained_remaining fun left => ?_
  refine contained_ite (fun _ => contained_malformed hP.malformed (Nat.zero_le size) _) fun _ => ?_
  have hconstructors := contained_times (contained_map UInt32.ofNat (contained_word hP.malformed 4 "u32")) count.toNat
  exact contained_bind hconstructors (contained_attributes hP)

end Values

/-- Decoding a blob stops in the blob, whether or not it succeeds. -/
theorem precedes_blob (resolver : EnumResolver) (bytes : List UInt8) :
    (Cursor.ofBytes bytes).Precedes ((blob resolver).run.run (.ofBytes bytes)).2 :=
  (contained_blob (P := Fault resolver bytes.length) (fun _ h => h) (.ofBytes bytes) (Nat.zero_add _)).1

theorem fault_of_decode {bytes : List UInt8} {e : Error} (h : decode resolver bytes = .error e) :
    Fault resolver bytes.length e :=
  (contained_blob (fun _ h => h) (.ofBytes bytes) (Nat.zero_add _)).2 e h

end ProtoRecovery.Blob
