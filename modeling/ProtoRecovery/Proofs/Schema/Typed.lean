import ProtoRecovery.Proofs.Schema.Export
import ProtoRecovery.Proofs.Schema.Walk
/-!
# Fields with a kind

A descriptor tells of what kind the values of a field are. That of a collection is told by its elements, or by those of
its entry message, and these have no kind if they are collections themselves. So all fields of all descriptors have one
just when no field is a collection of collections.
-/

namespace ProtoRecovery.Schema

/-- Whether a type is no collection of collections. -/
def FieldType.isFlat : FieldType → Bool
  | .repeated element => !element.isCollection
  | .map key value => !key.isCollection && !value.isCollection
  | _ => true

/-- Every field of a message has a kind. -/
def MessageDescriptor.IsTyped (m : MessageDescriptor) : Prop := ∀ f ∈ m.fields, f.kind.isSome = true

/-- The fields of the message at a position. -/
def fieldsAt (s : Schema) (id : DeclId) : List Field := ((s.decls[id]?.bind (·.message?)).map (·.fields)).getD []

/-- No field of the message at a position is a collection of collections. -/
def IsFlatAt (s : Schema) (id : DeclId) : Prop := ∀ f ∈ s.fieldsAt id, f.type.isFlat = true

instance (s : Schema) (id : DeclId) : Decidable (s.IsFlatAt id) :=
  inferInstanceAs (Decidable (∀ f ∈ s.fieldsAt id, f.type.isFlat = true))

variable {s : Schema}

/-! ## One message -/

theorem isSome_kind_withType {f : FieldDescriptor} (hf : f.kind = none) (type : FieldType) :
    (f.withType s type).kind.isSome = !type.isCollection := by
  cases type <;> simp [FieldDescriptor.withType, FieldType.isCollection, hf]

/-- A field is no collection of collections just when it has a kind, and the fields of its entry message have. -/
theorem isFlat_iff (id : DeclId) (f : Field) :
    f.type.isFlat = true ↔ (s.fieldDescriptor id f).kind.isSome = true ∧ ∀ e ∈ s.entryOf? f, e.IsTyped := by
  have hblank := fun (fd : FieldDescriptor) (hfd : fd.kind = none) => isSome_kind_withType (s := s) hfd
  cases htype : f.type <;>
    simp [FieldType.isFlat, fieldDescriptor, entryOf?, htype, hblank, mapEntry, MessageDescriptor.IsTyped,
      FieldType.isCollection]

theorem isSome_kind_fieldDescriptors (id : DeclId) (m : Message) (own : Nat) (fields : List Field) :
    (∀ fd ∈ s.fieldDescriptors id m own fields, fd.kind.isSome = true) ↔
      ∀ f ∈ fields, (s.fieldDescriptor id f).kind.isSome = true := by
  have hsame : List.Forall₂ (fun f fd => (s.fieldDescriptor id f).kind = fd.kind) fields
      (s.fieldDescriptors id m own fields) := forall₂_fieldDescriptors own fun _ _ _ _ => rfl
  have hkinds : fields.map (fun f => (s.fieldDescriptor id f).kind) =
      (s.fieldDescriptors id m own fields).map (·.kind) := by
    rwa [← List.forall₂_eq_eq_eq, List.forall₂_map_left_iff, List.forall₂_map_right_iff]
  have hall : (∀ k ∈ (s.fieldDescriptors id m own fields).map (·.kind), k.isSome = true) ↔
      ∀ k ∈ fields.map fun f => (s.fieldDescriptor id f).kind, k.isSome = true := by rw [hkinds]
  simpa using hall

/-- A message and the entries of its maps have only typed fields just when none of its fields is a collection of
collections. -/
theorem typed_fields_iff (id : DeclId) (m : Message) (own : Nat) (fields : List Field) :
    ((∀ fd ∈ s.fieldDescriptors id m own fields, fd.kind.isSome = true) ∧
        ∀ e ∈ fields.filterMap s.entryOf?, e.IsTyped) ↔ ∀ f ∈ fields, f.type.isFlat = true := by
  rw [isSome_kind_fieldDescriptors, List.forall_mem_filterMap, ← forall₂_and]
  exact forall₂_congr fun f _ => (isFlat_iff id f).symm

/-! ## All messages -/

theorem forall_among {ms : List MessageDescriptor} {P : MessageDescriptor → Prop} :
    (∀ md, MessageDescriptor.Among ms md → P md) ↔
      ∀ m ∈ ms, P m ∧ ∀ md, MessageDescriptor.Among m.messages md → P md := by
  constructor
  · exact fun h m hm => ⟨h m (.here hm), fun md hmd => h md (.inside hm hmd)⟩
  · intro h md hmd
    cases hmd with
    | here hm => exact (h md hm).1
    | inside houter hmd => exact (h _ houter).2 md hmd

theorem forall_among_append {ms ms' : List MessageDescriptor} {P : MessageDescriptor → Prop} :
    (∀ md, MessageDescriptor.Among (ms ++ ms') md → P md) ↔
      (∀ md, MessageDescriptor.Among ms md → P md) ∧ ∀ md, MessageDescriptor.Among ms' md → P md := by
  rw [forall_among, List.forall_mem_append, ← forall_among, ← forall_among]

/-- Nothing is inside the entry message of a map. -/
theorem forall_among_entries {fields : List Field} {P : MessageDescriptor → Prop} :
    (∀ md, MessageDescriptor.Among (fields.filterMap s.entryOf?) md → P md) ↔ ∀ e ∈ fields.filterMap s.entryOf?, P e := by
  rw [forall_among]
  refine forall₂_congr fun e he => and_iff_left ?_
  obtain ⟨f, -, hf⟩ := List.mem_filterMap.1 he
  have hempty : e.messages = [] := by
    unfold entryOf? at hf
    split at hf
    · exact Option.some.inj hf ▸ rfl
    · exact absurd hf (by simp)
  rw [hempty]
  intro md hmd
  cases hmd <;> contradiction

/-- Laid out to a depth, messages have only typed fields just when no message that deep has a collection of
collections. -/
theorem typed_messagesOf_iff (depth : Nat) (ids : List DeclId) :
    (∀ md, MessageDescriptor.Among (s.messagesOf depth ids) md → md.IsTyped) ↔
      ∀ id ∈ ids, ∀ x ∈ s.descend depth id, s.IsFlatAt x := by
  induction depth generalizing ids with
  | zero =>
    rw [forall_among]
    simp [messagesOf, descend]
  | succ depth ih =>
    rw [forall_among, messagesOf, List.forall_mem_filterMap]
    refine forall₂_congr fun id _ => ?_
    rw [descend, List.forall_mem_cons, List.forall_mem_flatMap]
    cases hd : s.decls[id]? with
    | none => simp [nestedIn, hd, IsFlatAt, fieldsAt]
    | some d =>
      cases hm : d.message? with
      | none => simp [nestedIn, hd, hm, Declaration.nested, IsFlatAt, fieldsAt]
      | some m =>
        have hfields : s.IsFlatAt id ↔ ∀ f ∈ m.fields, f.type.isFlat = true := by simp [IsFlatAt, fieldsAt, hd, hm]
        have hnested : s.nestedIn id = m.nested := by simp [nestedIn, hd, Declaration.nested, hm]
        rw [hfields, hnested, ← typed_fields_iff (s := s) id m m.choices.length, ← ih]
        simp only [hm, Option.map_some, Option.some.injEq, forall_eq', forall_among_append, forall_among_entries,
          MessageDescriptor.IsTyped, and_assoc]

/-- All descriptors have only typed fields just when no message that a walk comes to has a collection of
collections. -/
theorem typed_descriptors_iff :
    (∀ file ∈ s.descriptors, ∀ md, file.Holds md → md.IsTyped) ↔
      ∀ file ∈ s.files, ∀ id ∈ s.visitOrder file, s.IsFlatAt id := by
  have hfile : ∀ i file, (∀ md, (s.fileDescriptor i file).Holds md → md.IsTyped) ↔
      ∀ id ∈ s.visitOrder file, s.IsFlatAt id := by
    intro i file
    rw [visitOrder, List.forall_mem_flatMap]
    exact typed_messagesOf_iff s.size file.tops
  unfold descriptors
  constructor
  · intro h file hfile'
    obtain ⟨i, hi, rfl⟩ := List.getElem_of_mem hfile'
    exact (hfile i _).1 (h _ (List.mem_mapIdx.2 ⟨i, hi, rfl⟩))
  · intro h fd hfd
    obtain ⟨i, hi, rfl⟩ := List.mem_mapIdx.1 hfd
    exact (hfile i _).2 (h _ (List.getElem_mem hi))

end ProtoRecovery.Schema
