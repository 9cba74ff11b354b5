import ProtoRecovery.Proofs.Blob.Containment
import ProtoRecovery.Proofs.Il2cpp.Access
import ProtoRecovery.Proofs.Recovery.Complaints
/-!
# Attributes that cannot be read

The attributes of a type or a member are read from tables and blobs, and this fails only where those contradict
themselves: bytes that are no attributes, a tag that stands for no type, or a position that leads nowhere. It never
fails for what kind of class the type is, nor for arguments that are not there.
-/

namespace ProtoRecovery.Il2cpp

open Catalog (Attributes)
open Recovery (Attributed)

variable {α β : Type} {s : Store}

/-- The errors of attributes that cannot be read. -/
inductive AttributeError : Error → Prop
  | malformed (offset : Nat) (flaw : BlobFlaw) : AttributeError (.malformedBlob offset flaw)
  | unsupported (tag : UInt8) (offset : Nat) : AttributeError (.unsupportedTag tag offset)
  | metadata (fault : MetadataFault) : AttributeError (.invalidMetadata fault)

/-- What is not given is not given for such an error. -/
def Attributable (x : Except Error α) : Prop := ∀ e, x = .error e → AttributeError e

theorem attributable_ok (a : α) : Attributable (.ok a : Except Error α) := nofun

theorem attributable_metadata (fault : MetadataFault) :
    Attributable (.error (.invalidMetadata fault) : Except Error α) := by
  rintro e ⟨⟩
  exact .metadata fault

theorem Attributable.bind {x : Except Error α} {f : α → Except Error β} (hx : Attributable x)
    (hf : ∀ a, Attributable (f a)) : Attributable (x >>= f) := by
  cases x with
  | ok a => exact hf a
  | error e =>
    rintro e' ⟨⟩
    exact hx e rfl

theorem attributable_mapM {f : α → Except Error β} (hf : ∀ a, Attributable (f a)) (l : List α) :
    Attributable (l.mapM f) := by
  induction l with
  | nil => exact attributable_ok []
  | cons a rest ih =>
    rw [List.mapM_cons]
    exact (hf a).bind fun b => ih.bind fun bs => attributable_ok (b :: bs)

namespace Store

theorem attributable_enumResolver (index : Int) : Attributable (s.enumResolver index) := by
  have hnone : Attributable (.error (.invalidMetadata (.notEnumType index)) : Except Error UInt8) :=
    attributable_metadata _
  unfold enumResolver
  cases h : s.enumTag? index with
  | none => exact hnone
  | some tag =>
    unfold enumTag? at h
    dsimp only at h
    split at h
    · obtain ⟨d, -, h⟩ := Option.bind_eq_some_iff.1 h
      split at h
      · obtain rfl := Option.some.inj h
        exact hnone
      · obtain ⟨entry, -, h⟩ := Option.bind_eq_some_iff.1 h
        obtain rfl := Option.some.inj h
        exact attributable_ok _
    · obtain rfl := Option.some.inj h
      exact hnone

theorem attributable_ofBlob (bytes : List UInt8) : Attributable (s.ofBlob bytes) := by
  refine Attributable.bind (fun e h => ?_) fun as => attributable_mapM (fun a => ?_) as
  · cases Blob.fault_of_decode h with
    | resolver h => exact attributable_enumResolver _ _ h
    | malformed => exact .malformed _ _
    | unsupported => exact .unsupported _ _
  · unfold ofBlobAttribute
    split
    · exact attributable_ok _
    · exact attributable_metadata _

theorem attributable_ofBlobRow {token : UInt32} {row : Nat} {x : Attributes Handle}
    (h : s.ofBlobRow? token row = some x) : Attributable x := by
  obtain ⟨blob, -, h⟩ := Option.bind_eq_some_iff.1 h
  dsimp only at h
  split at h
  · obtain rfl := Option.some.inj h
    exact attributable_metadata _
  · obtain rfl := Option.some.inj h
    exact attributable_ofBlob _

theorem attributable_ofAttributeRow {row : AttributeRow} {x : Attributes Handle} (h : s.ofAttributeRow? row = some x) :
    Attributable x := by
  obtain ⟨entries, -, h⟩ := Option.bind_eq_some_iff.1 h
  obtain ⟨types, -, h⟩ := Option.bind_eq_some_iff.1 h
  obtain rfl := Option.some.inj h
  refine attributable_mapM (fun type => ?_) types
  dsimp only
  split
  · exact attributable_ok _
  · exact attributable_metadata _

/-- However attributes are kept. -/
theorem attributable_attributesOf {owner : Owner} {x : Attributes Handle} (h : s.attributesOf? owner = some x) :
    Attributable x := by
  unfold attributesOf? at h
  cases hlayout : s.layout with
  | dataBlobs =>
    simp only [hlayout] at h
    split at h
    · obtain rfl := Option.some.inj h
      exact attributable_ok _
    · exact attributable_ofBlobRow h
  | directIndex =>
    simp only [hlayout] at h
    split at h
    · obtain rfl := Option.some.inj h
      exact attributable_ok _
    · split at h
      · obtain rfl := Option.some.inj h
        exact attributable_metadata _
      · exact attributable_ofAttributeRow h
  | typeRanges =>
    simp only [hlayout] at h
    split at h
    · obtain rfl := Option.some.inj h
      exact attributable_ok _
    · obtain ⟨row, -, h⟩ := Option.bind_eq_some_iff.1 h
      exact attributable_ofAttributeRow h

theorem attributable_attributes (x : Handle) : Attributable (s.catalog.attributes x) := by
  show Attributable ((s.attributes? x).getD (.ok []))
  cases h : s.attributes? x with
  | none => exact attributable_ok []
  | some attributes =>
    obtain ⟨o, -, h⟩ := Option.bind_eq_some_iff.1 h
    cases o with
    | none =>
      obtain rfl := Option.some.inj h
      exact attributable_ok []
    | some entry =>
      obtain ⟨image, -, h⟩ := Option.bind_eq_some_iff.1 h
      exact attributable_attributesOf h

/-- Members are read row by row, and their attributes with them. -/
theorem attributable_of_mem_rows {f : α → Option β} {attributes : β → Attributes Handle}
    (hf : ∀ a b, f a = some b → Attributable (attributes b)) {rows : List α} {members : List β}
    (h : rows.mapM f = some members) : ∀ b ∈ members, Attributable (attributes b) := by
  induction rows generalizing members with
  | nil =>
    obtain rfl := Option.some.inj h
    simp
  | cons a rest ih =>
    rw [List.mapM_cons] at h
    obtain ⟨b, hb, h⟩ := Option.bind_eq_some_iff.1 h
    obtain ⟨others, hothers, h⟩ := Option.bind_eq_some_iff.1 h
    obtain rfl := Option.some.inj h
    exact List.forall_mem_cons.2 ⟨hf a b hb, ih hothers⟩

theorem attributable_field {owner : Nat} {row : FieldRow} {f : Catalog.Field Handle} (h : s.field? owner row = some f) :
    Attributable f.attributes := by
  obtain ⟨e, -, h⟩ := Option.bind_eq_some_iff.1 h
  obtain ⟨image, -, h⟩ := Option.bind_eq_some_iff.1 h
  obtain ⟨x, hx, h⟩ := Option.bind_eq_some_iff.1 h
  obtain rfl := Option.some.inj h
  exact attributable_attributesOf hx

theorem attributable_method {row : MethodRow} {m : Catalog.Method Handle} (h : s.method? row = some m) :
    Attributable m.attributes := by
  obtain ⟨parameters, -, h⟩ := Option.bind_eq_some_iff.1 h
  obtain ⟨returnType, -, h⟩ := Option.bind_eq_some_iff.1 h
  obtain ⟨types, -, h⟩ := Option.bind_eq_some_iff.1 h
  obtain ⟨image, -, h⟩ := Option.bind_eq_some_iff.1 h
  obtain ⟨x, hx, h⟩ := Option.bind_eq_some_iff.1 h
  obtain rfl := Option.some.inj h
  exact attributable_attributesOf hx

theorem attributable_property {owner : Nat} {d : TypeRow} {row : PropertyRow} {p : Catalog.Property Handle}
    (h : s.property? owner d row = some p) : Attributable p.attributes := by
  obtain ⟨getter, -, h⟩ := Option.bind_eq_some_iff.1 h
  obtain ⟨setter, -, h⟩ := Option.bind_eq_some_iff.1 h
  obtain ⟨type, -, h⟩ := Option.bind_eq_some_iff.1 h
  obtain ⟨image, -, h⟩ := Option.bind_eq_some_iff.1 h
  obtain ⟨x, hx, h⟩ := Option.bind_eq_some_iff.1 h
  obtain rfl := Option.some.inj h
  exact attributable_attributesOf hx

/-- A type has the members of its rows, if it is defined. -/
theorem attributable_of_mem_members {x : Handle} {f : Nat → TypeRow → α → Option β} {rows : TypeRow → Option (List α)}
    {attributes : β → Attributes Handle} (hf : ∀ row d a b, f row d a = some b → Attributable (attributes b)) {b : β}
    (h : b ∈ (do match ← s.typeRow? x with
      | none => some []
      | some (row, d) => (← rows d).mapM (f row d) : Option (List β)).getD []) : Attributable (attributes b) := by
  cases hrow : s.typeRow? x with
  | none => simp [hrow] at h
  | some o =>
    cases o with
    | none => simp [hrow] at h
    | some entry =>
      obtain ⟨row, d⟩ := entry
      cases hrows : rows d with
      | none => simp [hrow, hrows] at h
      | some as =>
        cases hmembers : as.mapM (f row d) with
        | none => simp [hrow, hrows, hmembers] at h
        | some members =>
          simp only [hrow, hrows, hmembers, Option.bind_eq_bind, Option.bind_some, Option.getD_some] at h
          exact attributable_of_mem_rows (hf row d) hmembers b h

/-- Of everything that a store gives with attributes. -/
theorem attributable_of_attributed {x : Attributes Handle} (h : Attributed s.catalog x) : Attributable x := by
  cases h with
  | type t => exact attributable_attributes t
  | field hf => exact attributable_of_mem_members (fun _ _ _ _ => attributable_field) hf
  | property hp => exact attributable_of_mem_members (fun _ _ _ _ => attributable_property) hp
  | method hm => exact attributable_of_mem_members (fun _ _ _ _ => attributable_method) hm

end Store

end ProtoRecovery.Il2cpp
