import Mathlib
import ProtoRecovery.Blob.Attribute
/-!
# How attributes are written

The layout of a blob, as a relation between attributes and bytes. One list of attributes has many written
forms: integers may be compressed in several ways, an enum or an array may name the type of what it holds by an
index, and named arguments are written and mean nothing to the reader.
-/

namespace ProtoRecovery.Blob

/-! ## Integers -/

/-- The low bytes of a number, lowest first. -/
def lowBytes : (count : Nat) → (n : Nat) → List UInt8
  | 0, _ => []
  | count + 1, n => UInt8.ofNat n :: lowBytes count (n / 0x100)

/-- The compressed forms of a number. -/
inductive Compressed : UInt32 → List UInt8 → Prop
  | one {n : UInt32} (h : n.toNat < 0x80) : Compressed n [UInt8.ofNat n.toNat]
  | two {n : UInt32} (h : n.toNat < 0x4000) :
    Compressed n [UInt8.ofNat (0x80 + n.toNat / 0x100), UInt8.ofNat (n.toNat % 0x100)]
  | four {n : UInt32} (h : n.toNat < 0x40000000) (hlead : 0xC0 + n.toNat / 0x1000000 ∉ [0xF0, 0xFE, 0xFF]) :
    Compressed n [UInt8.ofNat (0xC0 + n.toNat / 0x1000000), UInt8.ofNat (n.toNat / 0x10000 % 0x100),
      UInt8.ofNat (n.toNat / 0x100 % 0x100), UInt8.ofNat (n.toNat % 0x100)]
  | whole (n : UInt32) : Compressed n (0xF0 :: lowBytes 4 n.toNat)
  | lastButOne : Compressed 0xFFFFFFFE [0xFE]
  | last : Compressed 0xFFFFFFFF [0xFF]

/-- The compressed forms of a signed number: it is doubled, and the low bit tells its sign. -/
def Signed (i : Int) (bytes : List UInt8) : Prop :=
  ∃ n : UInt32, (n.toNat : Int) = (if 0 ≤ i then 2 * i else -2 * i - 1) ∧ Compressed n bytes

/-! ## Values -/

/-- The tags of references: such a value is null, and takes no bytes. -/
def Tag.isReference (t : Tag) : Bool := t = .classType || t = .genericInst || t = .object

/-- How an array names the tag of its items: by itself, or as that of an enum. -/
inductive Header (resolver : EnumResolver) (t : Tag) : List UInt8 → Prop
  | tag (h : t ≠ .enum) : Header resolver t [t.byte]
  | enum {index : Int} {bytes : List UInt8} (hindex : Signed index bytes) (ht : resolver index = .ok t.byte) :
    Header resolver t (Tag.enum.byte :: bytes)

/-- A value or several in a row. They carry their tags, or have one that stands elsewhere. -/
inductive Piece where
  | value (tag : Option Tag) (v : AttributeValue)
  | row (tag : Option Tag) (vs : List AttributeValue)

/-- The written forms of values. -/
inductive Written (resolver : EnumResolver) : Piece → List UInt8 → Prop
  | bool (b : Bool) : Written resolver (.value (some .boolean) (.bool b)) [if b then 1 else 0]
  | char (unit : UInt16) : Written resolver (.value (some .char) (.char unit)) (lowBytes 2 unit.toNat)
  | i1 (n : Int8) : Written resolver (.value (some .i1) (.i1 n)) [n.toUInt8]
  | u1 (n : UInt8) : Written resolver (.value (some .u1) (.u1 n)) [n]
  | i2 (n : Int16) : Written resolver (.value (some .i2) (.i2 n)) (lowBytes 2 n.toUInt16.toNat)
  | u2 (n : UInt16) : Written resolver (.value (some .u2) (.u2 n)) (lowBytes 2 n.toNat)
  | i4 {n : Int32} {bytes : List UInt8} (h : Signed n.toInt bytes) :
    Written resolver (.value (some .i4) (.i4 n)) bytes
  | u4 {n : UInt32} {bytes : List UInt8} (h : Compressed n bytes) :
    Written resolver (.value (some .u4) (.u4 n)) bytes
  | i8 (n : Int64) : Written resolver (.value (some .i8) (.i8 n)) (lowBytes 8 n.toUInt64.toNat)
  | u8 (n : UInt64) : Written resolver (.value (some .u8) (.u8 n)) (lowBytes 8 n.toNat)
  | r4 (x : Number.Binary32) : Written resolver (.value (some .r4) (.r4 x)) (lowBytes 4 x.bits.toNat)
  | r8 (x : Number.Binary64) : Written resolver (.value (some .r8) (.r8 x)) (lowBytes 8 x.bits.toNat)
  | noString {bytes : List UInt8} (h : Signed (-1) bytes) :
    Written resolver (.value (some .string) (.string none)) bytes
  | string {s : String} {size : List UInt8} (h : Signed (Text.encodeUtf8 s).length size) :
    Written resolver (.value (some .string) (.string (some s))) (size ++ Text.encodeUtf8 s)
  | typeIndex {i : Int32} {bytes : List UInt8} (h : Signed i.toInt bytes) :
    Written resolver (.value (some .typeIndex) (.typeIndex i)) bytes
  | null {t : Tag} (h : t.isReference = true) : Written resolver (.value (some t) .null) []
  /-- A value of an enum is written after the index of its type, under the tag the resolver gives. -/
  | enum {index : Int} {t : Tag} {v : AttributeValue} {number bytes : List UInt8} (hindex : Signed index number)
    (ht : resolver index = .ok t.byte) (hv : Written resolver (.value (some t) v) bytes) :
    Written resolver (.value (some .enum) v) (number ++ bytes)
  | noArray {bytes : List UInt8} (h : Signed (-1) bytes) :
    Written resolver (.value (some .array) (.array none)) bytes
  /-- The items of an array share a tag, and each takes a byte at least. -/
  | array {t : Tag} {vs : List AttributeValue} {size header bytes : List UInt8} (hsize : Signed vs.length size)
    (hheader : Header resolver t header) (ht : t.isReference = false)
    (hvs : Written resolver (.row (some t) vs) bytes) :
    Written resolver (.value (some .array) (.array (some vs))) (size ++ (header ++ 0 :: bytes))
  /-- The items of an array of objects carry their tags. -/
  | objects {vs : List AttributeValue} {size header bytes : List UInt8} (hsize : Signed vs.length size)
    (hheader : Header resolver .object header) (hvs : Written resolver (.row none vs) bytes) :
    Written resolver (.value (some .array) (.array (some vs))) (size ++ (header ++ 1 :: bytes))
  | tagged {t : Tag} {v : AttributeValue} {bytes : List UInt8} (hv : Written resolver (.value (some t) v) bytes) :
    Written resolver (.value none v) (t.byte :: bytes)
  | nil {tag : Option Tag} : Written resolver (.row tag []) []
  | cons {tag : Option Tag} {v : AttributeValue} {vs : List AttributeValue} {bytes rest : List UInt8}
    (hv : Written resolver (.value tag v) bytes) (hvs : Written resolver (.row tag vs) rest) :
    Written resolver (.row tag (v :: vs)) (bytes ++ rest)

/-! ## Attributes -/

/-- The written forms of a named argument: its value, and the index of the member that it sets. The index is
negative for a member of a base type, and then the index of that type follows. -/
inductive Named (resolver : EnumResolver) : List UInt8 → Prop
  | own {v : AttributeValue} {index : Int} {value member : List UInt8}
    (hv : Written resolver (.value none v) value) (hindex : Signed index member) (h : 0 ≤ index) :
    Named resolver (value ++ member)
  | inherited {v : AttributeValue} {index : Int} {n : UInt32} {value member type : List UInt8}
    (hv : Written resolver (.value none v) value) (hindex : Signed index member) (h : index < 0)
    (htype : Compressed n type) : Named resolver (value ++ (member ++ type))

/-- Named arguments in a row. -/
inductive NamedRow (resolver : EnumResolver) : (count : Nat) → List UInt8 → Prop
  | nil : NamedRow resolver 0 []
  | cons {count : Nat} {bytes rest : List UInt8} (h : Named resolver bytes) (hrest : NamedRow resolver count rest) :
    NamedRow resolver (count + 1) (bytes ++ rest)

/-- The written forms of what an attribute was constructed with: how many arguments there are of each kind, the
arguments of the constructor, and then those for fields and for properties. -/
inductive WrittenArguments (resolver : EnumResolver) (vs : List AttributeValue) : List UInt8 → Prop
  | mk {argc fieldc propc : UInt32} {a f p values named : List UInt8} (hargc : Compressed argc a)
    (hfieldc : Compressed fieldc f) (hpropc : Compressed propc p) (hlength : argc.toNat = vs.length)
    (hvalues : Written resolver (.row none vs) values)
    (hnamed : NamedRow resolver (fieldc.toNat + propc.toNat) named) :
    WrittenArguments resolver vs (a ++ (f ++ (p ++ (values ++ named))))

/-- The arguments of attributes in a row. -/
inductive WrittenRow (resolver : EnumResolver) : List Attribute → List UInt8 → Prop
  | nil : WrittenRow resolver [] []
  | cons {a : Attribute} {as : List Attribute} {bytes rest : List UInt8}
    (h : WrittenArguments resolver a.arguments bytes) (hrest : WrittenRow resolver as rest) :
    WrittenRow resolver (a :: as) (bytes ++ rest)

/-- The written forms of attributes: how many there are, their constructors, and what they were constructed
with. -/
inductive Encodes (resolver : EnumResolver) (attributes : List Attribute) : List UInt8 → Prop
  | mk {n : UInt32} {count rest : List UInt8} (hcount : Compressed n count) (hlength : n.toNat = attributes.length)
    (hrest : WrittenRow resolver attributes rest) :
    Encodes resolver attributes
      (count ++ ((attributes.flatMap fun a => lowBytes 4 a.constructor.toNat) ++ rest))

/-! ## How many bytes there are -/

@[simp] theorem length_lowBytes (count n : Nat) : (lowBytes count n).length = count := by
  induction count generalizing n with
  | zero => rfl
  | succ count ih => rw [lowBytes, List.length_cons, ih]

theorem Compressed.length_pos {n : UInt32} {bytes : List UInt8} (h : Compressed n bytes) : 0 < bytes.length := by
  cases h <;> simp

theorem Signed.length_pos {i : Int} {bytes : List UInt8} (h : Signed i bytes) : 0 < bytes.length := by
  obtain ⟨n, -, hn⟩ := h
  exact hn.length_pos

/-- The values of a piece take a byte each at least. -/
def Piece.isSized : Piece → Bool
  | .value tag _ | .row tag _ => !tag.any Tag.isReference

/-- How many values there are. -/
def Piece.count : Piece → Nat
  | .value .. => 1
  | .row _ vs => vs.length

theorem Written.count_le_length {resolver : EnumResolver} {p : Piece} {bytes : List UInt8}
    (h : Written resolver p bytes) (hp : p.isSized = true) : p.count ≤ bytes.length := by
  induction h with
  | bool | char | i1 | u1 | i2 | u2 | i8 | u8 | r4 | r8 => simp [Piece.count]
  | i4 h | noString h | typeIndex h | noArray h => exact h.length_pos
  | u4 h => exact h.length_pos
  | string h =>
    have := h.length_pos
    simp only [Piece.count, List.length_append]
    omega
  | null h => simp [Piece.isSized, h] at hp
  | enum hindex =>
    have := hindex.length_pos
    simp only [Piece.count, List.length_append]
    omega
  | array hsize | objects hsize =>
    have := hsize.length_pos
    simp only [Piece.count, List.length_append]
    omega
  | tagged => simp [Piece.count]
  | nil => exact Nat.le_refl 0
  | cons _ _ ihv ihvs =>
    -- The tag is the same all along the row.
    have hv := ihv hp
    have hvs := ihvs hp
    simp only [Piece.count, List.length_cons, List.length_append] at hv hvs ⊢
    omega

/-! ## What can be written -/

mutual

/-- A value has a written form: it names no type, and its sizes are signed integers of 32 bits. -/
def Storable : AttributeValue → Prop
  | .string (some s) => (Text.encodeUtf8 s).length < 0x80000000
  | .array (some vs) => vs.length < 0x80000000 ∧ StorableAll vs
  | .type _ => False
  | _ => True

def StorableAll : List AttributeValue → Prop
  | [] => True
  | v :: vs => Storable v ∧ StorableAll vs

end

theorem exists_compressed {n : Nat} (h : n < 0x100000000) :
    ∃ (count : UInt32) (bytes : List UInt8), count.toNat = n ∧ Compressed count bytes :=
  ⟨UInt32.ofNat n, _, UInt32.toNat_ofNat_of_lt h, .whole _⟩

theorem exists_signed {i : Int} (hlow : -0x80000000 ≤ i) (hhigh : i < 0x80000000) : ∃ bytes, Signed i bytes := by
  have hsmall : (if 0 ≤ i then 2 * i else -2 * i - 1).toNat < 0x100000000 := by split <;> omega
  obtain ⟨n, bytes, hn, hbytes⟩ := exists_compressed hsmall
  refine ⟨bytes, n, ?_, hbytes⟩
  rw [hn]
  split <;> omega

theorem exists_signed_int32 (n : Int32) : ∃ bytes, Signed n.toInt bytes :=
  exists_signed n.le_toInt n.toInt_lt

theorem exists_signed_length {n : Nat} (h : n < 0x80000000) : ∃ bytes, Signed n bytes :=
  exists_signed (by omega) (by omega)

mutual

theorem exists_written (resolver : EnumResolver) :
    (v : AttributeValue) → Storable v → ∃ bytes, Written resolver (.value none v) bytes
  | .bool b, _ => ⟨_, .tagged (.bool b)⟩
  | .char unit, _ => ⟨_, .tagged (.char unit)⟩
  | .i1 n, _ => ⟨_, .tagged (.i1 n)⟩
  | .u1 n, _ => ⟨_, .tagged (.u1 n)⟩
  | .i2 n, _ => ⟨_, .tagged (.i2 n)⟩
  | .u2 n, _ => ⟨_, .tagged (.u2 n)⟩
  | .i4 n, _ =>
    have ⟨_, h⟩ := exists_signed_int32 n
    ⟨_, .tagged (.i4 h)⟩
  | .u4 n, _ => ⟨_, .tagged (.u4 (.whole n))⟩
  | .i8 n, _ => ⟨_, .tagged (.i8 n)⟩
  | .u8 n, _ => ⟨_, .tagged (.u8 n)⟩
  | .r4 x, _ => ⟨_, .tagged (.r4 x)⟩
  | .r8 x, _ => ⟨_, .tagged (.r8 x)⟩
  | .string none, _ =>
    have ⟨_, h⟩ := exists_signed (i := -1) (by decide) (by decide)
    ⟨_, .tagged (.noString h)⟩
  | .string (some _), hs =>
    have ⟨_, h⟩ := exists_signed_length hs
    ⟨_, .tagged (.string h)⟩
  | .array none, _ =>
    have ⟨_, h⟩ := exists_signed (i := -1) (by decide) (by decide)
    ⟨_, .tagged (.noArray h)⟩
  | .array (some vs), hvs =>
    have ⟨_, hsize⟩ := exists_signed_length hvs.1
    have ⟨_, hrow⟩ := exists_writtenRow resolver vs hvs.2
    ⟨_, .tagged (.objects hsize (.tag (by decide)) hrow)⟩
  | .typeIndex i, _ =>
    have ⟨_, h⟩ := exists_signed_int32 i
    ⟨_, .tagged (.typeIndex h)⟩
  | .null, _ => ⟨_, .tagged (t := .object) (.null rfl)⟩

theorem exists_writtenRow (resolver : EnumResolver) :
    (vs : List AttributeValue) → StorableAll vs → ∃ bytes, Written resolver (.row none vs) bytes
  | [], _ => ⟨_, .nil⟩
  | v :: vs, h =>
    have ⟨_, hv⟩ := exists_written resolver v h.1
    have ⟨_, hvs⟩ := exists_writtenRow resolver vs h.2
    ⟨_, .cons hv hvs⟩

end

/-- Attributes that can be written: there are not too many of them or of their arguments. -/
structure StorableAttributes (as : List Attribute) : Prop where
  count : as.length < 0x100000000
  arguments : ∀ a ∈ as, a.arguments.length < 0x100000000 ∧ StorableAll a.arguments

theorem exists_writtenAttributes (resolver : EnumResolver) {as : List Attribute}
    (h : ∀ a ∈ as, a.arguments.length < 0x100000000 ∧ StorableAll a.arguments) :
    ∃ bytes, WrittenRow resolver as bytes := by
  induction as with
  | nil => exact ⟨_, .nil⟩
  | cons a as ih =>
    obtain ⟨hlength, hstorable⟩ := h a List.mem_cons_self
    obtain ⟨argc, _, hargc, hcount⟩ := exists_compressed hlength
    obtain ⟨_, hvalues⟩ := exists_writtenRow resolver a.arguments hstorable
    obtain ⟨_, hrest⟩ := ih fun b hb => h b (List.mem_cons_of_mem a hb)
    exact ⟨_, .cons (.mk hcount (.whole 0) (.whole 0) hargc hvalues .nil) hrest⟩

theorem exists_encodes (resolver : EnumResolver) {as : List Attribute} (h : StorableAttributes as) :
    ∃ bytes, Encodes resolver as bytes := by
  obtain ⟨n, _, hn, hcount⟩ := exists_compressed h.count
  obtain ⟨_, hrest⟩ := exists_writtenAttributes resolver h.arguments
  exact ⟨_, .mk hcount hn hrest⟩

end ProtoRecovery.Blob
