import ProtoRecovery.Proofs.Blob.Reads
/-!
# Reading undoes writing

Every written form of attributes is read back as those attributes, whatever follows it. A value takes more bytes
than it is nested deep, so the bound on depth is never reached; and since each item of an array and each
constructor takes its bytes, the two checks of sizes refuse nothing that was written.
-/

namespace ProtoRecovery.Blob

variable {α : Type} {resolver : EnumResolver}

theorem Tag.byte_injective : Function.Injective Tag.byte := by
  intro t t' h
  have htag := congrArg Tag.ofByte? h
  rwa [Tag.ofByte?_byte, Tag.ofByte?_byte, Option.some.injEq] at htag

/-! ## Strings and arrays -/

theorem reads_noString {bytes : List UInt8} (h : Signed (-1) bytes) : Reads stringValue bytes none := by
  unfold stringValue
  refine reads_offset fun start => reads_bind_nil (reads_compressedI32 h) ?_
  rw [if_pos rfl]
  exact reads_pure none

theorem reads_string {s : String} {size : List UInt8} (h : Signed (Text.encodeUtf8 s).length size) :
    Reads stringValue (size ++ Text.encodeUtf8 s) (some s) := by
  unfold stringValue
  refine reads_offset fun start => reads_bind (reads_compressedI32 h) ?_
  rw [if_neg (by omega)]
  dsimp only
  rw [if_neg (by omega), Int.toNat_natCast]
  refine reads_bind_nil (reads_take (Text.encodeUtf8 s) "byte run") ?_
  rw [Text.decodeUtf8_encodeUtf8]
  exact reads_pure (some s)

theorem reads_enumTag {index : Int} {t : Tag} {bytes : List UInt8} (hindex : Signed index bytes)
    (ht : resolver index = .ok t.byte) : Reads (enumTag resolver) bytes t.byte := by
  refine reads_bind_nil (reads_compressedI32 hindex) ?_
  rw [ht]
  exact reads_pure t.byte

/-- The tag of an array's items is read back from either form of its header. -/
theorem run_header {t : Tag} {header : List UInt8} (h : Header resolver t header) (f : UInt8 → Read α) (offset : Nat)
    (rest : List UInt8) :
    (u8 >>= fun declared =>
      if declared = Tag.enum.byte then enumTag resolver >>= f else pure declared >>= f).run.run ⟨offset, header ++ rest⟩ =
      (f t.byte).run.run ⟨offset + header.length, rest⟩ := by
  cases h with
  | tag ht =>
    rw [run_bind_ok (reads_u8 t.byte offset rest), if_neg fun heq => ht (Tag.byte_injective heq)]
    rfl
  | @enum index bytes hindex ht =>
    have htag : u8.run.run ⟨offset, Tag.enum.byte :: (bytes ++ rest)⟩ = (.ok Tag.enum.byte, ⟨offset + 1, bytes ++ rest⟩) :=
      reads_u8 Tag.enum.byte offset (bytes ++ rest)
    rw [List.cons_append, run_bind_ok htag, if_pos rfl, run_bind_ok (reads_enumTag hindex ht _ rest), List.length_cons,
      Nat.add_assoc, Nat.add_comm 1]

theorem reads_noArray {value : UInt8 → Nat → Read AttributeValue} {tagged : Read AttributeValue}
    {bytes : List UInt8} (h : Signed (-1) bytes) : Reads (arrayValue resolver value tagged) bytes none := by
  unfold arrayValue
  refine reads_offset fun start => reads_bind_nil (reads_compressedI32 h) ?_
  rw [if_pos rfl]
  exact reads_pure none

/-- In front of an array's items stand their number, their tag and whether they carry tags. There have to be as many
bytes behind the number as it says. -/
theorem run_arrayValue {value : UInt8 → Nat → Read AttributeValue} {tagged : Read AttributeValue} {t : Tag} {n : Nat}
    {size header : List UInt8} (carry : Bool) (hsize : Signed n size) (hheader : Header resolver t header)
    (hcarry : carry = true → t = .object) (offset : Nat) (rest : List UInt8) :
    (arrayValue resolver value tagged).run.run ⟨offset, size ++ (header ++ (if carry then 1 else 0) :: rest)⟩ =
      if n ≤ header.length + (rest.length + 1) then
        (some <$> times (if carry then tagged else value t.byte (offset + size.length)) n).run.run
          ⟨offset + (size.length + (header.length + 1)), rest⟩
      else (.error (.malformedBlob offset (.arrayLengthExceedsBlob n)),
        ⟨offset + size.length, header ++ (if carry then 1 else 0) :: rest⟩) := by
  unfold arrayValue
  rw [run_offset_bind, run_bind_ok (reads_compressedI32 hsize offset _), if_neg (by omega)]
  dsimp only
  rw [if_neg (by omega), run_remaining_bind]
  have hlength : (header ++ (if carry then 1 else 0) :: rest).length = header.length + (rest.length + 1) := by simp
  by_cases hn : n ≤ header.length + (rest.length + 1)
  · rw [if_pos hn, if_neg (by rw [hlength]; omega), run_offset_bind, run_header hheader]
    have hflag : bool.run.run ⟨offset + size.length + header.length, (if carry then 1 else 0) :: rest⟩ =
        (.ok carry, ⟨offset + size.length + header.length + 1, rest⟩) := reads_bool carry _ rest
    have hplain : ¬(carry && t.byte != Tag.object.byte) = true := by
      intro h
      rw [Bool.and_eq_true] at h
      rw [hcarry h.1] at h
      exact absurd h.2 (by decide)
    rw [run_bind_ok hflag, if_neg hplain, Int.toNat_natCast, Nat.add_assoc, Nat.add_assoc]
  · rw [if_neg hn, if_pos (by rw [hlength]; omega)]
    rfl

/-- An array is read back when its items are, if they take a byte each and only objects carry their tags. -/
theorem reads_arrayValue {value : UInt8 → Nat → Read AttributeValue} {tagged : Read AttributeValue} {t : Tag}
    {vs : List AttributeValue} {size header bytes : List UInt8} (carry : Bool) (hsize : Signed vs.length size)
    (hheader : Header resolver t header) (hcarry : carry = true → t = .object) (hroom : vs.length ≤ bytes.length)
    (hvs : ∀ offset, Reads (times (if carry then tagged else value t.byte offset) vs.length) bytes vs) :
    Reads (arrayValue resolver value tagged) (size ++ (header ++ (if carry then 1 else 0) :: bytes)) (some vs) := by
  intro offset rest
  simp only [List.append_assoc, List.cons_append]
  -- Each item takes a byte, so there are no fewer bytes left than items.
  rw [run_arrayValue carry hsize hheader hcarry, if_pos (by rw [List.length_append]; omega), reads_map some (hvs _)]
  have hend : offset + (size.length + (header.length + 1)) + bytes.length =
      offset + (size ++ (header ++ (if carry then 1 else 0) :: bytes)).length := by
    simp only [List.length_append, List.length_cons]
    omega
  rw [hend]

/-! ## Values -/

/-- The reader of a value whose tag is known, or of one that carries its tag. -/
def item (resolver : EnumResolver) (depth : Nat) (offset : Nat) : Option Tag → Read AttributeValue
  | some t => value resolver depth t.byte offset
  | none => do
    let offset ← Blob.offset
    value resolver depth (← u8) offset

/-- A piece is read back at every depth that its bytes do not reach. -/
def Piece.ReadBack (resolver : EnumResolver) (bytes : List UInt8) : Piece → Prop
  | .value tag v => ∀ depth offset, bytes.length < depth → Reads (item resolver depth offset tag) bytes v
  | .row tag vs => ∀ depth offset, bytes.length < depth →
    Reads (times (item resolver depth offset tag) vs.length) bytes vs

/-- A value with no others inside is read in one way at every depth. -/
theorem readBack_leaf {t : Tag} {v : AttributeValue} {bytes : List UInt8} {r : Read AttributeValue}
    (hr : Reads r bytes v) (hvalue : ∀ depth offset, value resolver (depth + 1) t.byte offset = r) :
    (Piece.value (some t) v).ReadBack resolver bytes := by
  intro depth offset hdepth
  obtain ⟨depth, rfl⟩ := Nat.exists_eq_add_of_lt hdepth
  show Reads (value resolver (bytes.length + depth + 1) t.byte offset) bytes v
  rw [hvalue]
  exact hr

theorem readBack_i4 {n : Int32} {bytes : List UInt8} (h : Signed n.toInt bytes) :
    (Piece.value (some .i4) (.i4 n)).ReadBack resolver bytes := by
  have hr := reads_map (fun i => AttributeValue.i4 (Int32.ofInt i)) (reads_compressedI32 h)
  rw [Int32.ofInt_toInt] at hr
  exact readBack_leaf hr fun _ _ => rfl

theorem readBack_typeIndex {i : Int32} {bytes : List UInt8} (h : Signed i.toInt bytes) :
    (Piece.value (some .typeIndex) (.typeIndex i)).ReadBack resolver bytes := by
  have hr := reads_map (fun i => AttributeValue.typeIndex (Int32.ofInt i)) (reads_compressedI32 h)
  rw [Int32.ofInt_toInt] at hr
  exact readBack_leaf hr fun _ _ => rfl

theorem readBack_null {t : Tag} (h : t.isReference = true) :
    (Piece.value (some t) .null).ReadBack resolver [] := by
  cases t with
  | classType | genericInst | object => exact readBack_leaf (reads_pure _) fun _ _ => rfl
  | _ => exact absurd h (by decide)

theorem readBack_enum {index : Int} {t : Tag} {v : AttributeValue} {number bytes : List UInt8}
    (hindex : Signed index number) (ht : resolver index = .ok t.byte)
    (hv : (Piece.value (some t) v).ReadBack resolver bytes) :
    (Piece.value (some .enum) v).ReadBack resolver (number ++ bytes) := by
  intro depth offset hdepth
  have hpos := hindex.length_pos
  rw [List.length_append] at hdepth
  obtain ⟨depth, rfl⟩ := Nat.exists_eq_add_of_lt hdepth
  exact reads_bind (reads_enumTag hindex ht) (hv _ offset (by omega))

theorem readBack_array {t : Tag} {vs : List AttributeValue} {size header bytes : List UInt8} (carry : Bool)
    (hsize : Signed vs.length size) (hheader : Header resolver t header) (hcarry : carry = true → t = .object)
    (hroom : vs.length ≤ bytes.length)
    (hvs : (Piece.row (if carry then none else some t) vs).ReadBack resolver bytes) :
    (Piece.value (some .array) (.array (some vs))).ReadBack resolver
      (size ++ (header ++ (if carry then 1 else 0) :: bytes)) := by
  intro depth offset hdepth
  have hpos := hsize.length_pos
  simp only [List.length_append, List.length_cons] at hdepth
  obtain ⟨depth, rfl⟩ := Nat.exists_eq_add_of_lt hdepth
  refine reads_map (AttributeValue.array) (reads_arrayValue carry hsize hheader hcarry hroom fun offset => ?_)
  have hitems := hvs (size.length + (header.length + (bytes.length + 1)) + depth) offset (by omega)
  cases carry <;> exact hitems

theorem Written.readBack {p : Piece} {bytes : List UInt8} (h : Written resolver p bytes) :
    p.ReadBack resolver bytes := by
  induction h with
  | bool b => exact readBack_leaf (reads_map _ (reads_bool b)) fun _ _ => rfl
  | char unit => exact readBack_leaf (reads_map _ (reads_u16 unit)) fun _ _ => rfl
  | i1 n => exact readBack_leaf (reads_map _ (reads_i8 n)) fun _ _ => rfl
  | u1 n => exact readBack_leaf (reads_map _ (reads_u8 n)) fun _ _ => rfl
  | i2 n => exact readBack_leaf (reads_map _ (reads_i16 n)) fun _ _ => rfl
  | u2 n => exact readBack_leaf (reads_map _ (reads_u16 n)) fun _ _ => rfl
  | i4 h => exact readBack_i4 h
  | u4 h => exact readBack_leaf (reads_map _ (reads_compressedU32 h)) fun _ _ => rfl
  | i8 n => exact readBack_leaf (reads_map _ (reads_i64 n)) fun _ _ => rfl
  | u8 n => exact readBack_leaf (reads_map _ (reads_u64 n)) fun _ _ => rfl
  | r4 x => exact readBack_leaf (reads_map _ (reads_f32 x)) fun _ _ => rfl
  | r8 x => exact readBack_leaf (reads_map _ (reads_f64 x)) fun _ _ => rfl
  | noString h => exact readBack_leaf (reads_map _ (reads_noString h)) fun _ _ => rfl
  | string h => exact readBack_leaf (reads_map _ (reads_string h)) fun _ _ => rfl
  | typeIndex h => exact readBack_typeIndex h
  | null h => exact readBack_null h
  | enum hindex ht _ ihv => exact readBack_enum hindex ht ihv
  | noArray h =>
    intro depth offset hdepth
    obtain ⟨depth, rfl⟩ := Nat.exists_eq_add_of_lt hdepth
    exact reads_map _ (reads_noArray h)
  | array hsize hheader ht hvs ihvs =>
    -- An item whose tag is no reference takes a byte; so does an item that carries its tag.
    have hroom := hvs.count_le_length (by simp [Piece.isSized, ht])
    exact readBack_array false hsize hheader (fun h => absurd h Bool.false_ne_true) hroom ihvs
  | objects hsize hheader hvs ihvs =>
    have hroom := hvs.count_le_length rfl
    exact readBack_array true hsize hheader (fun _ => rfl) hroom ihvs
  | tagged _ ihv =>
    intro depth offset hdepth
    rw [List.length_cons] at hdepth
    exact reads_offset fun offset => reads_u8_bind (ihv depth offset (by omega))
  | nil => exact fun _ _ _ => reads_pure []
  | cons _ _ ihv ihvs =>
    intro depth offset hdepth
    rw [List.length_append] at hdepth
    exact reads_times_succ (ihv depth offset (by omega)) (ihvs depth offset (by omega))

/-! ## Attributes -/

theorem reads_taggedValue {v : AttributeValue} {bytes : List UInt8} (h : Written resolver (.value none v) bytes) :
    Reads (taggedValue resolver) bytes v := by
  cases h with
  | tagged hv =>
    refine reads_get fun c hc => reads_u8_bind ?_
    rw [List.length_cons] at hc
    exact hv.readBack (c.rest.length + 1) c.offset (by omega)

theorem reads_taggedValues {vs : List AttributeValue} {bytes : List UInt8}
    (h : Written resolver (.row none vs) bytes) : Reads (times (taggedValue resolver) vs.length) bytes vs := by
  induction vs generalizing bytes with
  | nil =>
    cases h
    exact reads_pure []
  | cons v vs ih =>
    cases h with
    | cons hv hvs => exact reads_times_succ (reads_taggedValue hv) (ih hvs)

/-- The written forms of the member that a named argument sets. -/
inductive Member : List UInt8 → Prop
  | own {index : Int} {bytes : List UInt8} (hindex : Signed index bytes) (h : 0 ≤ index) : Member bytes
  | inherited {index : Int} {n : UInt32} {bytes type : List UInt8} (hindex : Signed index bytes) (h : index < 0)
    (htype : Compressed n type) : Member (bytes ++ type)

theorem reads_memberReference {bytes : List UInt8} (h : Member bytes) : Reads memberReference bytes () := by
  cases h with
  | own hindex h =>
    refine reads_bind_nil (reads_compressedI32 hindex) ?_
    rw [if_neg (by omega)]
    exact reads_pure ()
  | inherited hindex h htype =>
    refine reads_bind (reads_compressedI32 hindex) ?_
    rw [if_pos h]
    exact reads_bind_nil (reads_compressedU32 htype) (reads_pure ())

theorem reads_named {bytes : List UInt8} (h : Named resolver bytes) :
    Reads (do let _ ← taggedValue resolver; memberReference) bytes () := by
  cases h with
  | own hv hindex h => exact reads_bind (reads_taggedValue hv) (reads_memberReference (.own hindex h))
  | inherited hv hindex h htype =>
    exact reads_bind (reads_taggedValue hv) (reads_memberReference (.inherited hindex h htype))

theorem reads_namedRow {count : Nat} {bytes : List UInt8} (h : NamedRow resolver count bytes) :
    Reads (times (do let _ ← taggedValue resolver; memberReference) count) bytes (List.replicate count ()) := by
  induction h with
  | nil => exact reads_pure []
  | cons h _ ih => exact reads_times_succ (reads_named h) ih

theorem reads_arguments {vs : List AttributeValue} {bytes : List UInt8} (h : WrittenArguments resolver vs bytes) :
    Reads (arguments resolver) bytes vs := by
  cases h with
  | mk hargc hfieldc hpropc hlength hvalues hnamed =>
    refine reads_bind (reads_compressedU32 hargc) (reads_bind (reads_compressedU32 hfieldc)
      (reads_bind (reads_compressedU32 hpropc) ?_))
    rw [hlength]
    exact reads_bind (reads_taggedValues hvalues) (reads_bind_nil (reads_namedRow hnamed) (reads_pure vs))

theorem reads_attributes {as : List Attribute} {bytes : List UInt8} (h : WrittenRow resolver as bytes) :
    Reads (attributes resolver (as.map Attribute.constructor)) bytes as := by
  induction h with
  | nil => exact reads_pure []
  | cons h _ ih => exact reads_bind (reads_arguments h) (reads_map _ ih)

theorem reads_constructors (as : List Attribute) :
    Reads (times u32 as.length) (as.flatMap fun a => lowBytes 4 a.constructor.toNat)
      (as.map Attribute.constructor) := by
  induction as with
  | nil => exact reads_pure []
  | cons a as ih => exact reads_times_succ (reads_u32 a.constructor) ih

theorem length_constructors (as : List Attribute) :
    (as.flatMap fun a => lowBytes 4 a.constructor.toNat).length = 4 * as.length := by
  induction as with
  | nil => rfl
  | cons a as ih =>
    rw [List.flatMap_cons, List.length_append, ih, length_lowBytes, List.length_cons]
    omega

theorem reads_blob {as : List Attribute} {bytes : List UInt8} (h : Encodes resolver as bytes) :
    Reads (blob resolver) bytes as := by
  cases h with
  | mk hcount hlength hrest =>
    refine reads_remaining fun size _ => reads_bind (reads_compressedU32 hcount) ?_
    refine reads_remaining fun n hn => ?_
    -- The constructors take four bytes each, so the count passes.
    rw [List.length_append, length_constructors] at hn
    rw [hlength, if_neg (by omega)]
    exact reads_bind (reads_constructors as) (reads_attributes hrest)

theorem decode_append {as : List Attribute} {bytes : List UInt8} (h : Encodes resolver as bytes)
    (trailing : List UInt8) : decode resolver (bytes ++ trailing) = .ok as := by
  have hrun := reads_blob h 0 trailing
  exact congrArg Prod.fst hrun

/-- Every written form of attributes is read back as those attributes, whatever bytes come after it; and all
attributes whose sizes can be stored have a written form. -/
theorem decode_of_encodes (resolver : EnumResolver) (as : List Attribute) :
    (∀ bytes trailing, Encodes resolver as bytes → decode resolver (bytes ++ trailing) = .ok as) ∧
      (StorableAttributes as → ∃ bytes, Encodes resolver as bytes) :=
  ⟨fun _ trailing h => decode_append h trailing, exists_encodes resolver⟩

/-- Enum 7 is stored as signed integers. -/
def sampleResolver : EnumResolver := .ofTable [(7, Tag.i4.byte)]

/-- Arrays of every kind, and a second attribute after one with named arguments. -/
def sampleAttributes : List Attribute :=
  [⟨0x01020304, [.array (some [.i4 300, .i4 (-1)]), .array (some [.string (some "é"), .null]),
      .array (some [.array none])]⟩,
    ⟨5, [.i4 (-0x80000000), .i4 7]⟩]

def sampleBytes : List UInt8 :=
  [0x80, 0x02, 0x04, 0x03, 0x02, 0x01, 0x05, 0x00, 0x00, 0x00,
    -- Three arguments, a field and a property.
    0x03, 0xC0, 0x00, 0x00, 0x01, 0x01,
    0x1D, 0x04, 0x55, 0x0E, 0x00, 0x82, 0x58, 0x01,
    0x1D, 0x04, 0x1C, 0x01, 0x0E, 0x04, 0xC3, 0xA9, 0x1C,
    0x1D, 0x02, 0x1D, 0x00, 0x01,
    0x02, 0x01, 0x06,
    0x0E, 0x01, 0x01, 0xFE,
    -- Two arguments, the second one of an enum.
    0x02, 0x00, 0x00, 0x08, 0xFF, 0x55, 0x0E, 0xF0, 0x0E, 0x00, 0x00, 0x00]

theorem encodes_sampleBytes : Encodes sampleResolver sampleAttributes sampleBytes := by
  have hnone : Signed (-1) [1] := ⟨1, by decide, .one (by decide)⟩
  have hone : Signed 1 [2] := ⟨2, by decide, .one (by decide)⟩
  have htwo : Signed 2 [4] := ⟨4, by decide, .one (by decide)⟩
  have hseven : Signed 7 [14] := ⟨14, by decide, .one (by decide)⟩
  have hlong : Signed 300 [0x82, 0x58] := ⟨600, by decide, .two (by decide)⟩
  have hleast : Signed (-0x80000000) [0xFF] := ⟨0xFFFFFFFF, by decide, .last⟩
  have henum : sampleResolver 7 = .ok Tag.i4.byte := rfl
  have henums : Written sampleResolver (.value none (.array (some [.i4 300, .i4 (-1)]))) _ :=
    .tagged (.array htwo (.enum hseven henum) rfl (.cons (.i4 hlong) (.cons (.i4 hnone) .nil)))
  have hutf8 : Text.encodeUtf8 "é" = [0xC3, 0xA9] := by
    rw [Text.encodeUtf8_eq]
    decide
  have htext : Written sampleResolver (.value (some .string) (.string (some "é"))) ([4] ++ [0xC3, 0xA9]) := by
    have hsize : Signed (Text.encodeUtf8 "é").length [4] := by
      rw [hutf8]
      exact htwo
    have hstring : Written sampleResolver _ _ := .string hsize
    rwa [hutf8] at hstring
  have hobjects : Written sampleResolver (.value none (.array (some [.string (some "é"), .null]))) _ :=
    .tagged (.objects htwo (.tag (by decide))
      (.cons (.tagged htext) (.cons (.tagged (t := .object) (.null rfl)) .nil)))
  have harrays : Written sampleResolver (.value none (.array (some [.array none]))) _ :=
    .tagged (.array hone (.tag (by decide)) rfl (.cons (.noArray hnone) .nil))
  have hfield : Named sampleResolver _ :=
    .own (.tagged (.bool true)) (⟨6, by decide, .one (by decide)⟩ : Signed 3 _) (by decide)
  have hproperty : Named sampleResolver _ :=
    .inherited (.tagged (.noString hnone)) hnone (by decide) .lastButOne
  have hfirst : WrittenArguments sampleResolver
      [.array (some [.i4 300, .i4 (-1)]), .array (some [.string (some "é"), .null]), .array (some [.array none])] _ :=
    .mk (.one (n := 3) (by decide)) (.four (n := 1) (by decide) (by decide)) (.one (n := 1) (by decide)) rfl
      (.cons henums (.cons hobjects (.cons harrays .nil))) (.cons hfield (.cons hproperty .nil))
  have hsecond : WrittenArguments sampleResolver [.i4 (-0x80000000), .i4 7] _ :=
    .mk (.one (n := 2) (by decide)) (.one (n := 0) (by decide)) (.one (n := 0) (by decide)) rfl
      (.cons (.tagged (.i4 hleast)) (.cons (.tagged (.enum hseven henum (.i4 ⟨14, by decide, .whole 14⟩))) .nil)) .nil
  have hall : Encodes sampleResolver sampleAttributes _ :=
    .mk (.two (n := 2) (by decide)) rfl (.cons hfirst (.cons hsecond .nil))
  exact hall

theorem decode_of_encodes_sample : Encodes sampleResolver sampleAttributes sampleBytes ∧
    decode sampleResolver (sampleBytes ++ [0x1D, 0xFF]) = .ok sampleAttributes :=
  ⟨encodes_sampleBytes, (decode_of_encodes sampleResolver sampleAttributes).1 _ _ encodes_sampleBytes⟩

end ProtoRecovery.Blob
