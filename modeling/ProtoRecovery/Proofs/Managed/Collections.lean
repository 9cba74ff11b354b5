import ProtoRecovery.Proofs.Managed.Records
import ProtoRecovery.Proofs.Managed.References
import ProtoRecovery.Proofs.Schema.Typed
/-!
# Collections of collections

A type with one argument is read as a list and one with two as a map, whatever its arguments are. So a property whose type
is a collection of collections becomes a field of which no descriptor tells the kind, and nothing else does.
-/

namespace ProtoRecovery

namespace Recovery

open Catalog (Pool)
open Schema (DeclId FieldType)
open Identifier (Dictionary)

variable {ρ : Type}

/-- Whether a type is read as a list or as a map. -/
def takesMany (c : Catalog ρ) (pool : Pool ρ) (t : ρ) : Bool :=
  let arguments := ((c.argumentsOf t).run pool).1
  (wrapper? c t arguments).isNone && (arguments.length == 1 || arguments.length == 2)

/-- Whether a type is read as a list or map of lists or maps. -/
def nests (c : Catalog ρ) (pool : Pool ρ) (t : ρ) : Bool :=
  takesMany c pool t && ((c.argumentsOf t).run pool).1.any (takesMany c pool)

variable {c : Catalog ρ} {v : View c} {pool : Pool ρ} {names : Option Dictionary} {options : Options} {calls : Calls ρ}
  {s s' : State ρ} {source : DeclId} {t : ρ} {type : FieldType}

theorem isCollection_singleType (h : Gives (singleType ⟨c, names, options⟩ calls source t) s type s') :
    type.isCollection = false := by
  have h := gives_singleType.1 h
  split at h
  · exact h.1 ▸ rfl
  · exact h.1 ▸ rfl
  · split at h
    · split at h
      · exact h.1 ▸ rfl
      · obtain ⟨target, -, -, rfl, -⟩ := h
        rfl
    · obtain ⟨target, -, -, rfl, -⟩ := h
      rfl

/-- The view lasts while the arguments of a type are looked up, before anything is found for them. -/
theorem sees_arguments (hc : Faithful v calls) (h : Gives (fieldType ⟨c, names, options⟩ calls source t) s type s')
    (hs : v.sees s'.pool) : v.sees (s.after (c.argumentsOf t)).pool := by
  have h := gives_fieldType.1 h
  split at h
  · obtain ⟨-, rfl⟩ := h
    exact hs
  · obtain ⟨e, he, -⟩ := h
    exact (hc.fieldType he hs).1
  · obtain ⟨k, s₁, x, hk, hx, -⟩ := h
    exact (hc.fieldType hk (hc.fieldType hx hs).1).1
  · exact (singleType_faithful hc h hs).1

section Last
variable (hv : ∀ p, v.sees p → Extends p pool)
include hv

/-- The arguments that a type had are those it has in the last pool. -/
theorem arguments_last (hc : Faithful v calls) (h : Gives (fieldType ⟨c, names, options⟩ calls source t) s type s')
    (hs : v.sees s'.pool) : s.answer (c.argumentsOf t) = ((c.argumentsOf t).run pool).1 := by
  have hlast := (lasts_resolveAll (c.arguments t) s.pool (hv _ (sees_arguments hc h hs))).2
  exact (congrArg Prod.fst hlast).symm

/-- A field type is found for one argument or for two, or is no collection. -/
theorem fieldType_cases (hc : Faithful v calls) (h : Gives (fieldType ⟨c, names, options⟩ calls source t) s type s')
    (hs : v.sees s'.pool) :
    (takesMany c pool t = false ∧ type.isCollection = false) ∨
      takesMany c pool t = true ∧
        ((∃ element e s₁, ((c.argumentsOf t).run pool).1 = [element] ∧ type = .repeated e ∧
            Gives (calls.fieldType source element) s₁ e s') ∨
          ∃ key value k x s₁ s₂, ((c.argumentsOf t).run pool).1 = [key, value] ∧ type = .map k x ∧
            Gives (calls.fieldType source key) s₁ k s₂ ∧ Gives (calls.fieldType source value) s₂ x s') := by
  have harguments := arguments_last hv hc h hs
  have h := gives_fieldType.1 h
  dsimp only at h
  unfold takesMany
  dsimp only
  rw [harguments] at h
  generalize ((c.argumentsOf t).run pool).1 = arguments at h ⊢
  cases hw : wrapper? c t arguments with
  | some w =>
    rw [hw] at h
    exact .inl ⟨rfl, h.1 ▸ rfl⟩
  | none =>
    rw [hw] at h
    rcases arguments with - | ⟨x, - | ⟨y, - | ⟨z, rest⟩⟩⟩
    · exact .inl ⟨rfl, isCollection_singleType h⟩
    · obtain ⟨e, he, rfl⟩ := h
      exact .inr ⟨rfl, .inl ⟨x, e, _, rfl, rfl, he⟩⟩
    · obtain ⟨k, s₁, value, hk, hvalue, rfl⟩ := h
      exact .inr ⟨rfl, .inr ⟨x, y, k, value, _, s₁, rfl, rfl, hk, hvalue⟩⟩
    · exact .inl ⟨by simp, isCollection_singleType h⟩

variable [DecidableEq ρ]

theorem isCollection_of_gives {depth : Nat}
    (h : Gives ((callsWithin ⟨c, names, options⟩ depth).fieldType source t) s type s') (hs : v.sees s'.pool) :
    type.isCollection = takesMany c pool t := by
  cases depth with
  | zero => exact absurd h gives_throw
  | succ depth =>
    rcases fieldType_cases hv (callsWithin_faithful v names options depth) h hs with
      ⟨htakes, htype⟩ | ⟨htakes, ⟨element, e, s₁, -, rfl, -⟩ | ⟨key, value, k, x, s₁, s₂, -, rfl, -⟩⟩
    · rw [htakes, htype]
    · rw [htakes]
      rfl
    · rw [htakes]
      rfl

/-- What is found for a type is a collection of collections just when the type is read as one. -/
theorem isFlat_of_found (h : FoundFor v names t type) : type.isFlat = !nests c pool t := by
  obtain ⟨options, depth, source, s, s', h, hs⟩ := h
  cases depth with
  | zero => exact absurd h gives_throw
  | succ depth =>
    have hc := callsWithin_faithful v names options depth
    unfold nests
    rcases fieldType_cases hv hc h hs with
      ⟨htakes, htype⟩ | ⟨htakes, ⟨element, e, s₁, harguments, rfl, he⟩ | ⟨key, value, k, x, s₁, s₂, harguments, rfl, hk, hx⟩⟩
    · rw [htakes]
      cases type <;> simp_all [FieldType.isCollection, FieldType.isFlat]
    · have helement := isCollection_of_gives hv he hs
      simp [FieldType.isFlat, htakes, harguments, helement]
    · have hvalue := isCollection_of_gives hv hx hs
      have hkey := isCollection_of_gives hv hk (hc.fieldType hx hs).1
      simp [FieldType.isFlat, htakes, harguments, hkey, hvalue]

end Last

end Recovery

namespace Managed

open Recovery (Reached IsOwn Request outcome start)
open Schema (DeclId)

variable {lib : Library} {names : Option Identifier.Dictionary} {holder : TypeRef → Prop} {s : Recovery.State TypeRef}

/-- Whether a type is read as a collection of collections, as types stand in a pool. -/
def Library.nests (lib : Library) (pool : Catalog.Pool TypeRef) (r : TypeRef) : Bool :=
  Recovery.nests lib.catalog pool ((lib.catalog.resolve r).run pool).1

/-- What a class has of itself is in its record. -/
theorem exists_record_of_isOwn {p : Catalog.Property TypeRef} (h : IsOwn lib.catalog p) :
    ∃ e ∈ lib.entries, ∃ record ∈ e.definition.properties, p.name = record.name ∧ p.type = record.type := by
  obtain ⟨hinherited, t, pool, hp⟩ := h
  have hown : p ∈ lib.ownProperties t := by
    have hp : p ∈ lib.ownProperties t ++
        ((lib.basesOf (chainLimit - 1) t).run pool).1.flatMap (Library.propertiesOf true) := hp
    rcases List.mem_append.1 hp with hp | hp
    · exact hp
    · obtain ⟨d, -, hp⟩ := List.mem_flatMap.1 hp
      rw [isInherited_propertiesOf true d p hp] at hinherited
      cases hinherited
  obtain ⟨e, he, hp⟩ := exists_entry_of_ownProperty hown
  obtain ⟨record, hrecord, rfl⟩ := List.mem_map.1 hp
  exact ⟨e, he, record, hrecord, rfl, rfl⟩

/-- Every field is that of a property in the library, and a collection of collections just when the property is. -/
theorem exists_property (hs : Reached lib.catalog names holder s) (id : DeclId) :
    ∀ f ∈ s.schema.fieldsAt id, ∃ e ∈ lib.entries, ∃ p ∈ e.definition.properties,
      f.name = Identifier.fieldName names p.name ∧ f.type.isFlat = !lib.nests s.pool p.type := by
  intro f hf
  cases hd : s.schema.decls[id]? with
  | none => simp [Schema.fieldsAt, hd] at hf
  | some d =>
    cases hm : d.message? with
    | none => simp [Schema.fieldsAt, hd, hm] at hf
    | some m =>
      have hf : f ∈ m.fields := by simpa [Schema.fieldsAt, hd, hm] using hf
      have hsourced := sourced_in_view hs id d.face (by rw [Schema.faceOf?, hd]; rfl)
      obtain ⟨p, t, hown, hname, ⟨pool, hsees, rfl⟩, hfound⟩ :=
        hsourced.fields _ (Schema.body_face_of_message? hm) f hf
      obtain ⟨e, he, record, hrecord, hrecordName, hrecordType⟩ := exists_record_of_isOwn hown
      refine ⟨e, he, record, hrecord, hrecordName ▸ hname, ?_⟩
      rw [Recovery.isFlat_of_found (fun _ h => h) hfound, Library.nests, ← hrecordType]
      have hlast := (Recovery.lasts_resolve p.type pool hsees).2
      rw [hlast]

/-- After any requests that all end well, all fields of all descriptors have a kind, those of map entries too, just when
no message that a walk comes to has a collection of collections; a field is one just when the property is that it is
named for; so all have a kind if no property in the library is a collection of collections. -/
theorem fields_typed (hs : Reached lib.catalog names holder s) :
    ((∀ file ∈ s.schema.descriptors, ∀ md, file.Holds md → md.IsTyped) ↔
        ∀ file ∈ s.schema.files, ∀ id ∈ s.schema.visitOrder file, s.schema.IsFlatAt id) ∧
      (∀ id, ∀ f ∈ s.schema.fieldsAt id, ∃ e ∈ lib.entries, ∃ p ∈ e.definition.properties,
        f.name = Identifier.fieldName names p.name ∧ f.type.isFlat = !lib.nests s.pool p.type) ∧
      ((∀ e ∈ lib.entries, ∀ p ∈ e.definition.properties, lib.nests s.pool p.type = false) →
        ∀ file ∈ s.schema.descriptors, ∀ md, file.Holds md → md.IsTyped) := by
  refine ⟨Schema.typed_descriptors_iff, exists_property hs, fun hnone => ?_⟩
  rw [Schema.typed_descriptors_iff]
  intro file _ id _ f hf
  obtain ⟨e, he, p, hp, -, hflat⟩ := exists_property hs id f hf
  rw [hflat, hnone e he p hp]
  rfl

section Sample

/-- A list of values of a type. -/
def listOf (r : TypeRef) : TypeRef := ⟨"Google.Protobuf.Collections.RepeatedField\x601", [r]⟩

/-- A map from strings to values of a type. -/
def mapTo (r : TypeRef) : TypeRef := ⟨"Google.Protobuf.Collections.MapField\x602", [.named "System.String", r]⟩

/-- A message with a list and a map of values of a type. -/
def sheet (r : TypeRef) : Assembly where
  name := "App"
  types := Generated.Message.definitions
    { name := "Sheet", namespaceName := some "App",
      items := [.field ⟨"Cells", 1, listOf r, false⟩, .field ⟨"Rows", 2, mapTo r, false⟩] }

/-- The assembly loaded. -/
def sheetLibrary (r : TypeRef) : Library := .ofAssemblies [sheet r] []

/-- The message is asked for. -/
def sheetOutcome (r : TypeRef) : Except Error (Option DeclId) × Recovery.State TypeRef :=
  outcome (Request.run (sheetLibrary r).catalog none (.message (.named "App.Sheet") {})) (start (sheetLibrary r).catalog)

/-- The kinds of the fields in the messages of files and in those right inside them. -/
def fieldKinds (s : Schema) : List (List (Option Schema.ValueKind)) :=
  (s.descriptors.flatMap (·.messages)).flatMap fun m => (m :: m.messages).map fun m => m.fields.map (·.kind)

/-- A number that may be absent. It has an argument too, but is read as a message that wraps the number. -/
def absentable : TypeRef := ⟨"System.Nullable\x601", [.named "System.Int32"]⟩

/-- A list and a map of numbers that may be absent are no collections of collections. -/
theorem fields_typed_absentable :
    Library.load [sheet absentable] [] = .ok (sheetLibrary absentable) ∧
      Reached (sheetLibrary absentable).catalog none (PlainHolder (sheetLibrary absentable)) (sheetOutcome absentable).2 ∧
      fieldKinds (sheetOutcome absentable).2.schema =
        [[some .message, some .message], [some (.scalar .string), some .message]] ∧
      ∀ file ∈ (sheetOutcome absentable).2.schema.descriptors, ∀ md, file.Holds md → md.IsTyped := by
  have hload : Library.load [sheet absentable] [] = .ok (sheetLibrary absentable) :=
    Generated.load_of_accessors (by decide +kernel)
  have hs : Reached (sheetLibrary absentable).catalog none (PlainHolder (sheetLibrary absentable))
      (sheetOutcome absentable).2 :=
    .step (q := .message (.named "App.Sheet") {}) .start trivial (Recovery.gives_of_outcome (a := some 0) (by decide +kernel))
  exact ⟨hload, hs, by decide +kernel, (fields_typed hs).2.2 (by decide +kernel)⟩

/-- A list of numbers. -/
def numbers : TypeRef := listOf (.named "System.Int32")

/-- A list of lists and a map to lists are recovered as they stand, and no kind is told of the values of either. -/
theorem nested_untyped :
    Library.load [sheet numbers] [] = .ok (sheetLibrary numbers) ∧
      Reached (sheetLibrary numbers).catalog none (PlainHolder (sheetLibrary numbers)) (sheetOutcome numbers).2 ∧
      ((sheetOutcome numbers).2.schema.fieldsAt 0).map (·.type) =
        [.repeated (.repeated (.scalar .int32)), .map (.scalar .string) (.repeated (.scalar .int32))] ∧
      fieldKinds (sheetOutcome numbers).2.schema = [[none, some .message], [some (.scalar .string), none]] ∧
      ¬∀ file ∈ (sheetOutcome numbers).2.schema.descriptors, ∀ md, file.Holds md → md.IsTyped := by
  have hload : Library.load [sheet numbers] [] = .ok (sheetLibrary numbers) :=
    Generated.load_of_accessors (by decide +kernel)
  have hs : Reached (sheetLibrary numbers).catalog none (PlainHolder (sheetLibrary numbers)) (sheetOutcome numbers).2 :=
    .step (q := .message (.named "App.Sheet") {}) .start trivial (Recovery.gives_of_outcome (a := some 0) (by decide +kernel))
  refine ⟨hload, hs, by decide +kernel, by decide +kernel, ?_⟩
  rw [Schema.typed_descriptors_iff]
  decide +kernel

end Sample

end Managed

end ProtoRecovery
