import ProtoRecovery.Proofs.Blob.RoundTrip
/-!
# Arrays of nulls

A null takes no bytes, and so an array of nulls has a number of items in front and none behind. An array is refused if
its number is larger than the number of bytes behind it, up to the end of the blob. So it depends on what follows
whether an array of nulls is read back: it has a reach, and the blob must be that long.
-/

namespace ProtoRecovery.Blob

variable {α β : Type} {resolver : EnumResolver}

/-! ## How nulls are written -/

/-- The written forms of values where arrays may be of any tag. With a form goes its reach, the number of bytes that
there must be from its start on: an array asks for as many bytes behind its number as it has items. -/
inductive Laid (resolver : EnumResolver) : Piece → List UInt8 → (reach : Nat) → Prop
  | written {p : Piece} {bytes : List UInt8} (h : Written resolver p bytes) : Laid resolver p bytes 0
  | enum {index : Int} {t : Tag} {v : AttributeValue} {number bytes : List UInt8} {reach : Nat}
    (hindex : Signed index number) (ht : resolver index = .ok t.byte)
    (hv : Laid resolver (.value (some t) v) bytes reach) :
    Laid resolver (.value (some .enum) v) (number ++ bytes) (number.length + reach)
  /-- The items have a tag in common, or are objects and carry their tags. -/
  | array {t : Tag} {vs : List AttributeValue} {size header bytes : List UInt8} {reach : Nat} (carry : Bool)
    (hsize : Signed vs.length size) (hheader : Header resolver t header) (hcarry : carry = true → t = .object)
    (hvs : Laid resolver (.row (if carry then none else some t) vs) bytes reach) :
    Laid resolver (.value (some .array) (.array (some vs))) (size ++ (header ++ (if carry then 1 else 0) :: bytes))
      (size.length + max vs.length (header.length + (reach + 1)))
  | tagged {t : Tag} {v : AttributeValue} {bytes : List UInt8} {reach : Nat}
    (hv : Laid resolver (.value (some t) v) bytes reach) : Laid resolver (.value none v) (t.byte :: bytes) (reach + 1)
  | cons {tag : Option Tag} {v : AttributeValue} {vs : List AttributeValue} {bytes rest : List UInt8}
    {reach reach' : Nat} (hv : Laid resolver (.value tag v) bytes reach) (hvs : Laid resolver (.row tag vs) rest reach') :
    Laid resolver (.row tag (v :: vs)) (bytes ++ rest) (max reach (bytes.length + reach'))

/-- What stands in a blob behind the constructors. -/
inductive Part where
  /-- Named arguments in a row. -/
  | named (count : Nat)
  /-- What an attribute was constructed with. -/
  | arguments (vs : List AttributeValue)
  /-- What attributes in a row were constructed with. -/
  | attributes (as : List Attribute)

/-- The written forms of parts of a blob, with the reach of each. -/
inductive LaidPart (resolver : EnumResolver) : Part → List UInt8 → (reach : Nat) → Prop
  | noneNamed : LaidPart resolver (.named 0) [] 0
  | named {count : Nat} {v : AttributeValue} {value member rest : List UInt8} {reach reach' : Nat}
    (hv : Laid resolver (.value none v) value reach) (hmember : Member member)
    (hrest : LaidPart resolver (.named count) rest reach') :
    LaidPart resolver (.named (count + 1)) (value ++ member ++ rest) (max reach ((value ++ member).length + reach'))
  | arguments {vs : List AttributeValue} {argc fieldc propc : UInt32} {a f p values named : List UInt8}
    {reach reach' : Nat} (hargc : Compressed argc a) (hfieldc : Compressed fieldc f) (hpropc : Compressed propc p)
    (hlength : argc.toNat = vs.length) (hvalues : Laid resolver (.row none vs) values reach)
    (hnamed : LaidPart resolver (.named (fieldc.toNat + propc.toNat)) named reach') :
    LaidPart resolver (.arguments vs) (a ++ (f ++ (p ++ (values ++ named))))
      (a.length + (f.length + (p.length + max reach (values.length + reach'))))
  | noAttributes : LaidPart resolver (.attributes []) [] 0
  | attributes {a : Attribute} {as : List Attribute} {bytes rest : List UInt8} {reach reach' : Nat}
    (h : LaidPart resolver (.arguments a.arguments) bytes reach) (hrest : LaidPart resolver (.attributes as) rest reach') :
    LaidPart resolver (.attributes (a :: as)) (bytes ++ rest) (max reach (bytes.length + reach'))

/-- The written forms of attributes, with the reach of each. -/
inductive LaidBlob (resolver : EnumResolver) (as : List Attribute) : List UInt8 → (reach : Nat) → Prop
  | mk {n : UInt32} {count rest : List UInt8} {reach : Nat} (hcount : Compressed n count) (hlength : n.toNat = as.length)
    (hrest : LaidPart resolver (.attributes as) rest reach) :
    LaidBlob resolver as (count ++ ((as.flatMap fun a => lowBytes 4 a.constructor.toNat) ++ rest))
      (count.length + (4 * as.length + reach))

/-! ## Readers with a reach -/

/-- An array was refused for its number of items. -/
def Refused (x : Except Error α) : Prop :=
  ∃ start length, x = .error (.malformedBlob start (.arrayLengthExceedsBlob length))

/-- A reader takes just these bytes and gives a value, if there are enough bytes, and else refuses an array. -/
structure ReadsTo (reach : Nat) (r : Read α) (bytes : List UInt8) (a : α) : Prop where
  reads : ∀ (offset : Nat) (rest : List UInt8), reach ≤ (bytes ++ rest).length →
    r.run.run ⟨offset, bytes ++ rest⟩ = (.ok a, ⟨offset + bytes.length, rest⟩)
  refuses : ∀ (offset : Nat) (rest : List UInt8), (bytes ++ rest).length < reach →
    Refused (r.run.run ⟨offset, bytes ++ rest⟩).1

theorem readsTo_of_reads {r : Read α} {bytes : List UInt8} {a : α} (h : Reads r bytes a) : ReadsTo 0 r bytes a :=
  ⟨fun offset rest _ => h offset rest, fun _ _ hlt => absurd hlt (Nat.not_lt_zero _)⟩

theorem refused_bind {r : Read α} {c : Cursor} (h : Refused (r.run.run c).1) (f : α → Read β) :
    Refused ((r >>= f).run.run c).1 := by
  obtain ⟨start, length, herror⟩ := h
  rw [run_bind_error (Prod.ext herror rfl)]
  exact ⟨start, length, rfl⟩

theorem readsTo_bind {r : Read α} {f : α → Read β} {first second : List UInt8} {a : α} {b : β} {reach reach' : Nat}
    (hr : ReadsTo reach r first a) (hf : ReadsTo reach' (f a) second b) :
    ReadsTo (max reach (first.length + reach')) (r >>= f) (first ++ second) b := by
  refine ⟨fun offset rest hle => ?_, fun offset rest hlt => ?_⟩
  · rw [List.append_assoc] at hle ⊢
    have hle' : reach' ≤ (second ++ rest).length := by
      rw [List.length_append] at hle
      omega
    rw [run_bind_ok (hr.reads offset _ (by omega)), hf.reads _ rest hle', List.length_append, Nat.add_assoc]
  · rw [List.append_assoc] at hlt ⊢
    by_cases hshort : (first ++ (second ++ rest)).length < reach
    · exact refused_bind (hr.refuses offset _ hshort) f
    · have hlt' : (second ++ rest).length < reach' := by
        rw [List.length_append] at hlt hshort
        omega
      rw [run_bind_ok (hr.reads offset _ (by omega))]
      exact hf.refuses _ rest hlt'

/-- What was read before moves the reach on. -/
theorem readsTo_bind_of_reads {r : Read α} {f : α → Read β} {first second : List UInt8} {a : α} {b : β} {reach : Nat}
    (hr : Reads r first a) (hf : ReadsTo reach (f a) second b) :
    ReadsTo (first.length + reach) (r >>= f) (first ++ second) b := by
  have h := readsTo_bind (readsTo_of_reads hr) hf
  rwa [Nat.zero_max] at h

/-- What is written behind has no part in the reach. -/
theorem readsTo_bind_reads {r : Read α} {f : α → Read β} {first second : List UInt8} {a : α} {b : β} {reach : Nat}
    (hr : ReadsTo reach r first a) (hf : Reads (f a) second b) : ReadsTo reach (r >>= f) (first ++ second) b := by
  refine ⟨fun offset rest hle => ?_, fun offset rest hlt => ?_⟩
  · rw [List.append_assoc] at hle ⊢
    rw [run_bind_ok (hr.reads offset _ hle), hf, List.length_append, Nat.add_assoc]
  · rw [List.append_assoc] at hlt ⊢
    exact refused_bind (hr.refuses offset _ hlt) f

theorem readsTo_map {r : Read α} {bytes : List UInt8} {a : α} {reach : Nat} (f : α → β) (hr : ReadsTo reach r bytes a) :
    ReadsTo reach (f <$> r) bytes (f a) := by
  have h : ReadsTo reach (r >>= fun a => pure (f a)) (bytes ++ []) (f a) := readsTo_bind_reads hr (reads_pure (f a))
  rwa [List.append_nil, bind_pure_comp] at h

theorem readsTo_offset {f : Nat → Read α} {bytes : List UInt8} {a : α} {reach : Nat}
    (h : ∀ n, ReadsTo reach (f n) bytes a) : ReadsTo reach (offset >>= f) bytes a :=
  ⟨fun offset rest hle => (h offset).reads offset rest hle, fun offset rest hlt => (h offset).refuses offset rest hlt⟩

theorem readsTo_get {f : Cursor → Read α} {bytes : List UInt8} {a : α} {reach : Nat}
    (h : ∀ c : Cursor, bytes.length ≤ c.rest.length → ReadsTo reach (f c) bytes a) :
    ReadsTo reach (get >>= f) bytes a := by
  have henough : ∀ rest : List UInt8, bytes.length ≤ (bytes ++ rest).length := by simp
  exact ⟨fun offset rest hle => (h ⟨offset, bytes ++ rest⟩ (henough rest)).reads offset rest hle,
    fun offset rest hlt => (h ⟨offset, bytes ++ rest⟩ (henough rest)).refuses offset rest hlt⟩

theorem readsTo_remaining {f : Nat → Read α} {bytes : List UInt8} {a : α} {reach : Nat}
    (h : ∀ n, bytes.length ≤ n → ReadsTo reach (f n) bytes a) : ReadsTo reach (remaining >>= f) bytes a :=
  readsTo_get fun c hc => h c.rest.length hc

theorem readsTo_times_succ {r : Read α} {first rest : List UInt8} {a : α} {count : Nat} {as : List α} {reach reach' : Nat}
    (hr : ReadsTo reach r first a) (hrest : ReadsTo reach' (times r count) rest as) :
    ReadsTo (max reach (first.length + reach')) (times r (count + 1)) (first ++ rest) (a :: as) :=
  readsTo_bind hr (readsTo_map (a :: ·) hrest)

/-! ## Values -/

theorem readsTo_arrayValue {value : UInt8 → Nat → Read AttributeValue} {tagged : Read AttributeValue} {t : Tag}
    {vs : List AttributeValue} {size header bytes : List UInt8} {reach : Nat} (carry : Bool)
    (hsize : Signed vs.length size) (hheader : Header resolver t header) (hcarry : carry = true → t = .object)
    (hvs : ∀ offset, ReadsTo reach (times (if carry then tagged else value t.byte offset) vs.length) bytes vs) :
    ReadsTo (size.length + max vs.length (header.length + (reach + 1))) (arrayValue resolver value tagged)
      (size ++ (header ++ (if carry then 1 else 0) :: bytes)) (some vs) := by
  have hlength : ∀ rest : List UInt8, (size ++ (header ++ (if carry then 1 else 0) :: bytes) ++ rest).length =
      size.length + (header.length + ((bytes ++ rest).length + 1)) := by
    intro rest
    simp only [List.length_append, List.length_cons]
    omega
  refine ⟨fun offset rest hle => ?_, fun offset rest hlt => ?_⟩
  · rw [hlength] at hle
    have hrun := (readsTo_map some (hvs (offset + size.length))).reads
      (offset + (size.length + (header.length + 1))) rest (by omega)
    have hend : offset + (size.length + (header.length + 1)) + bytes.length =
        offset + (size ++ (header ++ (if carry then 1 else 0) :: bytes)).length := by
      simp only [List.length_append, List.length_cons]
      omega
    rw [← hend]
    simp only [List.append_assoc, List.cons_append]
    rw [run_arrayValue carry hsize hheader hcarry, if_pos (by omega), hrun]
  · rw [hlength] at hlt
    simp only [List.append_assoc, List.cons_append]
    rw [run_arrayValue carry hsize hheader hcarry]
    split
    · exact (readsTo_map some (hvs _)).refuses _ rest (by omega)
    · exact ⟨offset, vs.length, rfl⟩

/-- A piece is read back, or an array in it is refused, at every depth that its bytes do not reach. -/
def Piece.ReadTo (resolver : EnumResolver) (bytes : List UInt8) (reach : Nat) : Piece → Prop
  | .value tag v => ∀ depth offset, bytes.length < depth → ReadsTo reach (item resolver depth offset tag) bytes v
  | .row tag vs => ∀ depth offset, bytes.length < depth →
    ReadsTo reach (times (item resolver depth offset tag) vs.length) bytes vs

theorem Laid.readTo {p : Piece} {bytes : List UInt8} {reach : Nat} (h : Laid resolver p bytes reach) :
    p.ReadTo resolver bytes reach := by
  induction h with
  | @written p bytes h =>
    have hback := h.readBack
    cases p with
    | value tag v => exact fun depth offset hdepth => readsTo_of_reads (hback depth offset hdepth)
    | row tag vs => exact fun depth offset hdepth => readsTo_of_reads (hback depth offset hdepth)
  | enum hindex ht _ ihv =>
    intro depth offset hdepth
    have hpos := hindex.length_pos
    rw [List.length_append] at hdepth
    obtain ⟨depth, rfl⟩ := Nat.exists_eq_add_of_lt hdepth
    exact readsTo_bind_of_reads (reads_enumTag hindex ht) (ihv _ offset (by omega))
  | @array t vs size header bytes reach carry hsize hheader hcarry _ ihvs =>
    intro depth offset hdepth
    have hpos := hsize.length_pos
    simp only [List.length_append, List.length_cons] at hdepth
    obtain ⟨depth, rfl⟩ := Nat.exists_eq_add_of_lt hdepth
    refine readsTo_map AttributeValue.array (readsTo_arrayValue carry hsize hheader hcarry fun offset => ?_)
    have hitems := ihvs (size.length + (header.length + (bytes.length + 1)) + depth) offset (by omega)
    cases carry <;> exact hitems
  | @tagged t v bytes reach _ ihv =>
    intro depth offset hdepth
    rw [List.length_cons] at hdepth
    rw [Nat.add_comm]
    exact readsTo_offset fun offset => readsTo_bind_of_reads (reads_u8 t.byte) (ihv depth offset (by omega))
  | cons _ _ ihv ihvs =>
    intro depth offset hdepth
    rw [List.length_append] at hdepth
    exact readsTo_times_succ (ihv depth offset (by omega)) (ihvs depth offset (by omega))

theorem readsTo_taggedValue {v : AttributeValue} {bytes : List UInt8} {reach : Nat}
    (h : Laid resolver (.value none v) bytes reach) : ReadsTo reach (taggedValue resolver) bytes v := by
  cases h with
  | written h => exact readsTo_of_reads (reads_taggedValue h)
  | @tagged t v bytes reach hv =>
    refine readsTo_get fun c hc => ?_
    rw [List.length_cons] at hc
    rw [Nat.add_comm]
    exact readsTo_bind_of_reads (reads_u8 t.byte) (hv.readTo (c.rest.length + 1) c.offset (by omega))

theorem readsTo_taggedValues {vs : List AttributeValue} {bytes : List UInt8} {reach : Nat}
    (h : Laid resolver (.row none vs) bytes reach) :
    ReadsTo reach (times (taggedValue resolver) vs.length) bytes vs := by
  induction vs generalizing bytes reach with
  | nil =>
    cases h with
    | written h => exact readsTo_of_reads (reads_taggedValues h)
  | cons v vs ih =>
    cases h with
    | written h => exact readsTo_of_reads (reads_taggedValues h)
    | cons hv hvs => exact readsTo_times_succ (readsTo_taggedValue hv) (ih hvs)

/-! ## Attributes -/

/-- A part is read back, or an array in it is refused. -/
def Part.ReadTo (resolver : EnumResolver) (bytes : List UInt8) (reach : Nat) : Part → Prop
  | .named count => ReadsTo reach (times (do let _ ← taggedValue resolver; memberReference) count) bytes
    (List.replicate count ())
  | .arguments vs => ReadsTo reach (Blob.arguments resolver) bytes vs
  | .attributes as => ReadsTo reach (Blob.attributes resolver (as.map Attribute.constructor)) bytes as

theorem LaidPart.readTo {p : Part} {bytes : List UInt8} {reach : Nat} (h : LaidPart resolver p bytes reach) :
    p.ReadTo resolver bytes reach := by
  induction h with
  | noneNamed => exact readsTo_of_reads (reads_pure [])
  | named hv hmember _ ih =>
    exact readsTo_times_succ (readsTo_bind_reads (readsTo_taggedValue hv) (reads_memberReference hmember)) ih
  | @arguments vs argc fieldc propc a f p values named reach reach' hargc hfieldc hpropc hlength hvalues _ ih =>
    refine readsTo_bind_of_reads (reads_compressedU32 hargc) (readsTo_bind_of_reads (reads_compressedU32 hfieldc)
      (readsTo_bind_of_reads (reads_compressedU32 hpropc) ?_))
    rw [hlength]
    exact readsTo_bind (readsTo_taggedValues hvalues) (readsTo_map (fun _ => vs) ih)
  | noAttributes => exact readsTo_of_reads (reads_pure [])
  | attributes _ _ ih ihrest => exact readsTo_bind ih (readsTo_map _ ihrest)

theorem readsTo_blob {as : List Attribute} {bytes : List UInt8} {reach : Nat} (h : LaidBlob resolver as bytes reach) :
    ReadsTo reach (blob resolver) bytes as := by
  cases h with
  | @mk n count rest reach hcount hlength hrest =>
    refine readsTo_remaining fun size _ => readsTo_bind_of_reads (reads_compressedU32 hcount) ?_
    refine readsTo_remaining fun left hleft => ?_
    -- The constructors take four bytes each, so the count passes.
    rw [List.length_append, length_constructors] at hleft
    rw [hlength, if_neg (by omega), ← length_constructors]
    exact readsTo_bind_of_reads (reads_constructors as) hrest.readTo

theorem decode_of_laidBlob {as : List Attribute} {bytes : List UInt8} {reach : Nat}
    (h : LaidBlob resolver as bytes reach) (trailing : List UInt8) :
    (reach ≤ (bytes ++ trailing).length → decode resolver (bytes ++ trailing) = .ok as) ∧
      ((bytes ++ trailing).length < reach → Refused (decode resolver (bytes ++ trailing))) :=
  ⟨fun hle => congrArg Prod.fst ((readsTo_blob h).reads 0 trailing hle), (readsTo_blob h).refuses 0 trailing⟩

/-! ## Arrays of nulls alone -/

theorem written_nulls {t : Tag} (ht : t.isReference = true) (n : Nat) :
    Written resolver (.row (some t) (List.replicate n .null)) [] := by
  induction n with
  | zero => exact .nil
  | succ n ih => exact .cons (.null ht) ih

theorem laid_nulls {t : Tag} {n : Nat} {size header : List UInt8} (ht : t.isReference = true) (hsize : Signed n size)
    (hheader : Header resolver t header) :
    Laid resolver (.value none (.array (some (List.replicate n .null)))) (Tag.array.byte :: (size ++ (header ++ [0])))
      (size.length + max n (header.length + 1) + 1) := by
  have hlength : (List.replicate n AttributeValue.null).length = n := List.length_replicate
  have harray : Laid resolver _ _ _ := .array false (hlength.symm ▸ hsize) hheader (fun h => absurd h Bool.false_ne_true)
    (.written (written_nulls ht n))
  rw [hlength] at harray
  exact .tagged harray

/-- An array of nulls is read back wherever it stands in a blob if there are as many bytes behind its number as it has
items, and refused otherwise. So attributes are read back from all their forms, if the form is as long as the numbers in
front of its arrays ask for. -/
theorem nulls_read_back_if_followed (resolver : EnumResolver) :
    (∀ (t : Tag) (n : Nat) (size header : List UInt8), t.isReference = true → Signed n size → Header resolver t header →
      ∀ (offset : Nat) (rest : List UInt8),
        let array := Tag.array.byte :: (size ++ (header ++ [0]))
        let outcome := (taggedValue resolver).run.run ⟨offset, array ++ rest⟩
        (n ≤ header.length + 1 + rest.length →
          outcome = (.ok (.array (some (List.replicate n .null))), ⟨offset + array.length, rest⟩)) ∧
        (header.length + 1 + rest.length < n → Refused outcome.1)) ∧
      ∀ (as : List Attribute) (bytes trailing : List UInt8) (reach : Nat), LaidBlob resolver as bytes reach →
        (reach ≤ (bytes ++ trailing).length → decode resolver (bytes ++ trailing) = .ok as) ∧
          ((bytes ++ trailing).length < reach → Refused (decode resolver (bytes ++ trailing))) := by
  refine ⟨fun t n size header ht hsize hheader offset rest => ?_, fun as bytes trailing reach h => ?_⟩
  · have hreads := readsTo_taggedValue (laid_nulls ht hsize hheader)
    refine ⟨fun hle => hreads.reads offset rest ?_, fun hlt => hreads.refuses offset rest ?_⟩
    · simp only [List.length_append, List.length_cons, List.length_nil]
      omega
    · simp only [List.length_append, List.length_cons, List.length_nil]
      omega
  · exact decode_of_laidBlob h trailing

/-- The one argument of an attribute is an array of three nulls, at the end of the blob. -/
def nullBytes : List UInt8 := [0x01, 0x00, 0x00, 0x00, 0x00, 0x01, 0x00, 0x00, 0x1D, 0x06, 0x1C, 0x00]

theorem laidBlob_nullBytes : LaidBlob sampleResolver [⟨0, [.array (some [.null, .null, .null])]⟩] nullBytes 13 := by
  have hthree : Signed 3 [6] := ⟨6, by decide, .one (by decide)⟩
  have harray : Laid sampleResolver (.value none (.array (some (List.replicate 3 .null)))) _ _ :=
    laid_nulls (t := .object) rfl hthree (.tag (by decide))
  have hargument : LaidPart sampleResolver (.arguments [.array (some (List.replicate 3 .null))]) _ _ :=
    .arguments (.one (n := 1) (by decide)) (.one (n := 0) (by decide)) (.one (n := 0) (by decide)) rfl
      (.cons harray (.written .nil)) .noneNamed
  have hblob : LaidBlob sampleResolver [⟨0, [.array (some (List.replicate 3 .null))]⟩] _ _ :=
    .mk (.one (n := 1) (by decide)) rfl (.attributes hargument .noAttributes)
  exact hblob

/-- With one more byte behind it, the array is read back; and so it is before that byte, from wherever it is read. -/
theorem nulls_read_back_followed_by_byte :
    LaidBlob sampleResolver [⟨0, [.array (some [.null, .null, .null])]⟩] nullBytes 13 ∧
      decode sampleResolver (nullBytes ++ [0x42]) = .ok [⟨0, [.array (some [.null, .null, .null])]⟩] ∧
      (taggedValue sampleResolver).run.run ⟨8, [0x1D, 0x06, 0x1C, 0x00] ++ [0x42]⟩ =
        (.ok (.array (some [.null, .null, .null])), ⟨12, [0x42]⟩) := by
  obtain ⟨hvalue, hblob⟩ := nulls_read_back_if_followed sampleResolver
  have hthree : Signed 3 [6] := ⟨6, by decide, .one (by decide)⟩
  have hobject : Header sampleResolver .object [0x1C] := .tag (by decide)
  have hread := (hvalue .object 3 [6] [0x1C] rfl hthree hobject 8 [0x42]).1 (by decide)
  exact ⟨laidBlob_nullBytes, (hblob _ _ [0x42] 13 laidBlob_nullBytes).1 (by decide), hread⟩

/-- At the end of the blob, the array is refused. -/
theorem three_nulls_refused_at_end :
    LaidBlob sampleResolver [⟨0, [.array (some [.null, .null, .null])]⟩] nullBytes 13 ∧
      decode sampleResolver nullBytes = .error (.malformedBlob 9 (.arrayLengthExceedsBlob 3)) :=
  ⟨laidBlob_nullBytes, rfl⟩

end ProtoRecovery.Blob
