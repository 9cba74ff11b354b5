import ProtoRecovery.Proofs.Blob.Containment
import ProtoRecovery.Proofs.Blob.RoundTrip
/-!
# More bytes change nothing, fewer are refused

What a blob is decoded to stays the same when more bytes follow: no reader asks for the end of the bytes, and the
checks of sizes only get easier to pass. So a blob that was cut short of what decoding it takes cannot be decoded, as
the rest could be put back.
-/

namespace ProtoRecovery.Blob

variable {α β : Type} {resolver : EnumResolver}

/-- The same place, with more bytes behind those that are left. -/
def Cursor.extend (c : Cursor) (more : List UInt8) : Cursor := ⟨c.offset, c.rest ++ more⟩

/-- What the first reader gives, the second gives too when more bytes follow, and stops at the same place. -/
def Carries (r r' : Read α) : Prop :=
  ∀ (c : Cursor) (a : α) (c' : Cursor) (more : List UInt8), r.run.run c = (.ok a, c') →
    r'.run.run (c.extend more) = (.ok a, c'.extend more)

/-! ## Readers put together -/

theorem carries_pure (a : α) : Carries (pure a) (pure a) := by
  intro c b c' more h
  cases h
  rfl

/-- A reader that fails gives nothing. -/
theorem carries_throw (e : Error) (r : Read α) : Carries (throw e) r := fun _ _ _ _ h => nomatch h

theorem carries_malformed (offset : Nat) (flaw : BlobFlaw) (r : Read α) : Carries (malformed offset flaw) r :=
  carries_throw _ r

theorem carries_bind {r r' : Read α} {f f' : α → Read β} (hr : Carries r r') (hf : ∀ a, Carries (f a) (f' a)) :
    Carries (r >>= f) (r' >>= f') := by
  intro c b c'' more h
  obtain ⟨a, c', hrun, h⟩ := exists_of_run_bind h
  rw [run_bind_ok (hr c a c' more hrun)]
  exact hf a c' b c'' more h

theorem carries_map {r r' : Read α} (f : α → β) (hr : Carries r r') : Carries (f <$> r) (f <$> r') :=
  carries_bind hr fun a => carries_pure (f a)

theorem carries_ite {p : Prop} [Decidable p] {r r' s s' : Read α} (hr : Carries r r') (hs : Carries s s') :
    Carries (if p then r else s) (if p then r' else s') := by
  split
  · exact hr
  · exact hs

theorem carries_offset {f f' : Nat → Read α} (hf : ∀ n, Carries (f n) (f' n)) :
    Carries (offset >>= f) (offset >>= f') := by
  intro c a c' more h
  rw [run_offset_bind] at h ⊢
  exact hf c.offset c a c' more h

/-- The count of bytes that are left gets larger. -/
theorem carries_remaining {f f' : Nat → Read α} (hf : ∀ n n', n ≤ n' → Carries (f n) (f' n')) :
    Carries (remaining >>= f) (remaining >>= f') := by
  intro c a c' more h
  rw [run_remaining_bind] at h ⊢
  have hle : c.rest.length ≤ (c.extend more).rest.length := by simp [Cursor.extend]
  exact hf _ _ hle c a c' more h

theorem carries_times {r r' : Read α} (hr : Carries r r') (count : Nat) : Carries (times r count) (times r' count) := by
  induction count with
  | zero => exact carries_pure []
  | succ count ih => exact carries_bind hr fun a => carries_map (a :: ·) ih

/-! ## Words -/

theorem carries_take (count : Nat) (what : String) : Carries (take count what) (take count what) := by
  intro c bytes c' more h
  by_cases hshort : c.rest.length < count
  · rw [run_take_short hshort] at h
    cases h
  · have hle := Nat.le_of_not_lt hshort
    have henough : count ≤ (c.extend more).rest.length := by
      simp only [Cursor.extend, List.length_append]
      omega
    rw [run_take hle] at h
    cases h
    rw [run_take henough]
    simp only [Cursor.extend, List.take_append_of_le_length hle, List.drop_append_of_le_length hle]

theorem carries_word (count : Nat) (what : String) : Carries (word count what) (word count what) :=
  carries_map littleEndian (carries_take count what)

theorem carries_u8 : Carries u8 u8 := carries_map UInt8.ofNat (carries_word 1 "u8")

theorem carries_compressedU32 : Carries compressedU32 compressedU32 := by
  refine carries_bind carries_u8 fun lead => carries_ite (carries_pure _) ?_
  refine carries_ite (carries_bind carries_u8 fun low => carries_pure _) ?_
  refine carries_ite (carries_map _ (carries_word 4 "u32")) ?_
  refine carries_ite (carries_pure _) (carries_ite (carries_pure _) ?_)
  exact carries_map _ (carries_take 3 "byte run")

theorem carries_compressedI32 : Carries compressedI32 compressedI32 := carries_map unfoldSign carries_compressedU32

/-! ## Values -/

theorem carries_stringValue : Carries stringValue stringValue := by
  unfold stringValue
  refine carries_offset fun start => carries_bind carries_compressedI32 fun length => ?_
  refine carries_ite (carries_pure none) (carries_ite (carries_malformed _ _ _) ?_)
  refine carries_bind (carries_take length.toNat "byte run") fun bytes => ?_
  cases Text.decodeUtf8 bytes with
  | ok s => exact carries_pure (some s)
  | error fault => exact carries_malformed _ _ _

theorem carries_enumTag : Carries (enumTag resolver) (enumTag resolver) := by
  refine carries_bind carries_compressedI32 fun index => ?_
  cases resolver index with
  | ok tag => exact carries_pure tag
  | error e => exact carries_throw e _

section Inside
variable {inner inner' : UInt8 → Nat → Read AttributeValue} {tagged tagged' : Read AttributeValue}

/-- A length that the bytes allow is allowed when there are more of them. -/
theorem carries_arrayValue (hinner : ∀ tag offset, Carries (inner tag offset) (inner' tag offset))
    (htagged : Carries tagged tagged') : Carries (arrayValue resolver inner tagged) (arrayValue resolver inner' tagged') := by
  rw [arrayValue_eq, arrayValue_eq]
  refine carries_offset fun start => carries_bind carries_compressedI32 fun length => ?_
  refine carries_ite (carries_pure none) (carries_ite (carries_malformed _ _ _) ?_)
  refine carries_remaining fun n n' hle => ?_
  by_cases hlong : length > n
  · rw [if_pos hlong]
    exact carries_malformed _ _ _
  rw [if_neg hlong, if_neg (by omega)]
  refine carries_offset fun elementOffset => carries_bind carries_u8 fun declared => ?_
  have hitems : ∀ element, Carries (arrayItems inner tagged length elementOffset element)
      (arrayItems inner' tagged' length elementOffset element) := by
    intro element
    refine carries_bind (carries_map _ carries_u8) fun carry => ?_
    refine carries_ite (carries_malformed _ _ _) (carries_map some (carries_times ?_ _))
    exact carries_ite htagged (hinner element elementOffset)
  exact carries_ite (carries_bind carries_enumTag hitems) (carries_bind (carries_pure declared) hitems)

theorem carries_valueWith (hinner : ∀ tag offset, Carries (inner tag offset) (inner' tag offset))
    (htagged : Carries tagged tagged') (tag : UInt8) (offset : Nat) :
    Carries (valueWith resolver inner tagged tag offset) (valueWith resolver inner' tagged' tag offset) := by
  unfold valueWith
  cases Tag.ofByte? tag with
  | none => exact carries_throw _ _
  | some t =>
    cases t with
    | enum => exact carries_bind carries_enumTag fun tag => hinner tag offset
    | array => exact carries_map _ (carries_arrayValue hinner htagged)
    | string => exact carries_map _ carries_stringValue
    | i4 | typeIndex => exact carries_map _ carries_compressedI32
    | u4 => exact carries_map _ carries_compressedU32
    | boolean => exact carries_map _ (carries_map _ carries_u8)
    | char | i1 | u1 | i2 | u2 | i8 | u8 | r4 | r8 => exact carries_map _ (carries_map _ (carries_word _ _))
    | classType | genericInst | object => exact carries_pure _

theorem carries_taggedWith (hinner : ∀ tag offset, Carries (inner tag offset) (inner' tag offset)) :
    Carries (taggedWith inner) (taggedWith inner') :=
  carries_offset fun offset => carries_bind carries_u8 fun tag => hinner tag offset

end Inside

/-- What is read within a depth is read within a larger one. -/
theorem carries_value {depth depth' : Nat} (h : depth ≤ depth') (tag : UInt8) (offset : Nat) :
    Carries (value resolver depth tag offset) (value resolver depth' tag offset) := by
  induction depth generalizing depth' tag offset with
  | zero => exact carries_throw _ _
  | succ depth ih =>
    obtain ⟨more, rfl⟩ := Nat.exists_eq_add_of_lt h
    have hinner := ih (Nat.le_add_right depth more)
    exact carries_valueWith hinner (carries_taggedWith hinner) tag offset

theorem carries_taggedValue : Carries (taggedValue resolver) (taggedValue resolver) := by
  intro c a c' more h
  have hle : c.rest.length + 1 ≤ (c.extend more).rest.length + 1 := by simp [Cursor.extend]
  exact carries_bind carries_u8 (fun tag => carries_value hle tag c.offset) c a c' more h

/-! ## Attributes -/

theorem carries_memberReference : Carries memberReference memberReference :=
  carries_bind carries_compressedI32 fun _ => carries_ite (carries_map _ carries_compressedU32) (carries_pure ())

theorem carries_arguments : Carries (arguments resolver) (arguments resolver) := by
  refine carries_bind carries_compressedU32 fun count => carries_bind carries_compressedU32 fun fields => ?_
  refine carries_bind carries_compressedU32 fun properties => ?_
  refine carries_bind (carries_times carries_taggedValue _) fun values => ?_
  refine carries_bind (carries_times ?_ _) fun _ => carries_pure values
  exact carries_bind carries_taggedValue fun _ => carries_memberReference

theorem carries_attributes (constructors : List UInt32) :
    Carries (attributes resolver constructors) (attributes resolver constructors) := by
  induction constructors with
  | nil => exact carries_pure []
  | cons c cs ih => exact carries_bind carries_arguments fun _ => carries_map _ ih

theorem carries_blob : Carries (blob resolver) (blob resolver) := by
  refine carries_remaining fun size size' _ => carries_bind carries_compressedU32 fun count => ?_
  refine carries_remaining fun left left' hle => ?_
  dsimp only
  by_cases hmany : count.toNat > left / 4
  · rw [if_pos hmany]
    exact carries_malformed _ _ _
  rw [if_neg hmany, if_neg (by omega)]
  exact carries_bind (carries_times (carries_map UInt32.ofNat (carries_word 4 "u32")) _) carries_attributes

/-! ## Blobs -/

/-- How many bytes of a blob are read. -/
def consumed (resolver : EnumResolver) (bytes : List UInt8) : Nat :=
  ((blob resolver).run.run (.ofBytes bytes)).2.offset

theorem consumed_le (resolver : EnumResolver) (bytes : List UInt8) : consumed resolver bytes ≤ bytes.length := by
  obtain ⟨k, hk, hend⟩ := precedes_blob resolver bytes
  rw [consumed, hend]
  simpa [Cursor.ofBytes] using hk

theorem decode_consumed_append {bytes : List UInt8} {as : List Attribute} (h : decode resolver bytes = .ok as)
    (more : List UInt8) : decode resolver (bytes ++ more) = .ok as ∧
      consumed resolver (bytes ++ more) = consumed resolver bytes := by
  have hrun := carries_blob (.ofBytes bytes) as _ more (Prod.ext h rfl)
  exact ⟨congrArg Prod.fst hrun, congrArg (·.2.offset) hrun⟩

/-- What a blob is decoded to, it is decoded to with any bytes behind it, and as many bytes are read; cut off before the
last byte that is read, it is refused. -/
theorem decode_stable (resolver : EnumResolver) {bytes : List UInt8} {as : List Attribute}
    (h : decode resolver bytes = .ok as) :
    (∀ more, decode resolver (bytes ++ more) = .ok as ∧
        consumed resolver (bytes ++ more) = consumed resolver bytes) ∧
      ∀ short, short <+: bytes → short.length < consumed resolver bytes → ∃ e, decode resolver short = .error e := by
  refine ⟨decode_consumed_append h, ?_⟩
  rintro short ⟨rest, rfl⟩ hlt
  cases hshort : decode resolver short with
  | error e => exact ⟨e, rfl⟩
  | ok as' =>
    -- Put back, the rest would not change how many bytes are read.
    have hsame := (decode_consumed_append hshort rest).2
    have hle := consumed_le resolver short
    omega

/-- Three nulls that take no bytes, and a byte behind them without which their array would be refused. -/
def slackBytes : List UInt8 := [0x01, 0x00, 0x00, 0x00, 0x00, 0x01, 0x00, 0x00, 0x1D, 0x06, 0x1C, 0x00, 0x42]

theorem decode_stable_slack :
    decode sampleResolver slackBytes = .ok [⟨0, [.array (some [.null, .null, .null])]⟩] ∧
      consumed sampleResolver slackBytes = 12 ∧
      decode sampleResolver (slackBytes ++ [0x1D, 0xFF]) = .ok [⟨0, [.array (some [.null, .null, .null])]⟩] ∧
      ∃ e, decode sampleResolver (slackBytes.take 11) = .error e := by
  have hdecode : decode sampleResolver slackBytes = .ok [⟨0, [.array (some [.null, .null, .null])]⟩] := rfl
  have hconsumed : consumed sampleResolver slackBytes = 12 := rfl
  obtain ⟨hmore, hshort⟩ := decode_stable sampleResolver hdecode
  exact ⟨hdecode, hconsumed, (hmore _).1, hshort _ (List.take_prefix _ _) (by rw [hconsumed]; decide)⟩

end ProtoRecovery.Blob
