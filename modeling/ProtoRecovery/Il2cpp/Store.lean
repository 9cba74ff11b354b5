import ProtoRecovery.Blob.Attribute
import ProtoRecovery.Blob.TokenTable
import ProtoRecovery.Catalog.Basic
import ProtoRecovery.Il2cpp.Naming
import ProtoRecovery.Il2cpp.Validity
/-!
Types and members out of tables.

Every function here that follows positions gives nothing if one of them leads outside its table.
Tables that pass their check never do that.
-/

namespace ProtoRecovery.Il2cpp

open Blob (Layout)
open Catalog (Attribute Attributes Method Property)

/-- A type. -/
inductive Handle where
  /-- A definition. -/
  | definition (row : Nat)
  /-- A generic type, by the type entry that applies it to arguments. -/
  | constructed (entry : Nat)
  /-- A type that is not defined in the tables. -/
  | placeholder (name : String)
deriving DecidableEq, Repr, Inhabited

/-- Tables with the full name of each definition, and the position of the image that it is in. -/
structure Store where
  tables : Tables
  fullNames : List String
  imageRows : List (Option Nat)
deriving Inhabited

namespace Store

/-- Tables with what is worked out of them once. -/
def ofTables (t : Tables) : Store where
  tables := t
  fullNames := t.definitions.map t.fullNameOf
  imageRows := (List.range t.definitions.length).map t.imageRow?

/-- Takes tables that refer only to rows that are there. -/
def load (t : Tables) : Except Error Store := do
  t.check
  return ofTables t

/-- How the tables keep attributes. -/
def layout (s : Store) : Layout := .ofVersion s.tables.version

/-- The first definition of a full name. -/
def rowOf? (s : Store) (fullName : String) : Option Nat := s.fullNames.findIdx? (· == fullName)

/-! ## Type entries -/

/-- The name of the type that an entry without a definition means. -/
def plainName (entry : Nat) (code : UInt8) : String :=
  (primitiveName? code).getD (s!"<type #{entry}>")

/-- The definition that an entry means, if it means one. -/
def rowOfEntry? (s : Store) (entry : Nat) : Option (Option Nat) := do
  let e ← s.tables.entries[entry]?
  match e.target with
  | .definition row => some (some row)
  | .constructed row _ => some (some row)
  | .nothing => some ((primitiveName? e.code).bind s.rowOf?)

/-- The full name of the type that an entry means: arguments in double brackets, with commas between
them. Arguments are followed only so deep. -/
def keyOfEntry? (s : Store) : (limit : Nat) → (entry : Nat) → Option String
  | 0, entry => do
    let e ← s.tables.entries[entry]?
    match e.target with
    | .definition row => s.fullNames[row]?
    | .constructed row _ => s.fullNames[row]?
    | .nothing => some (plainName entry e.code)
  | limit + 1, entry => do
    let e ← s.tables.entries[entry]?
    match e.target with
    | .definition row => s.fullNames[row]?
    | .constructed row arguments =>
      let name ← s.fullNames[row]?
      let keys ← arguments.mapM (s.keyOfEntry? limit)
      some (name ++ "[" ++ ",".intercalate (keys.map fun key => "[" ++ key ++ "]") ++ "]")
    | .nothing => some (plainName entry e.code)

/-- The full name of the type that an entry means. -/
def entryKey? (s : Store) (entry : Nat) : Option String := s.keyOfEntry? chainLimit entry

/-- The type that an entry means. -/
def handleOf? (s : Store) (entry : Nat) : Option Handle := do
  let e ← s.tables.entries[entry]?
  match e.target with
  | .definition row => some (.definition row)
  | .constructed .. => some (.constructed entry)
  | .nothing =>
    match ← s.rowOfEntry? entry with
    | some row => some (.definition row)
    | none => some (.placeholder (plainName entry e.code))

/-- The type at a position that may be none. -/
def handleAt? (s : Store) (n : Int) : Option (Option Handle) :=
  match position? n with
  | none => some none
  | some entry => (s.handleOf? entry).map some

/-! ## Types -/

/-- The position of the definition behind a type, if it has one. -/
def rowOfHandle? (s : Store) : Handle → Option (Option Nat)
  | .definition row => some (some row)
  | .constructed entry => s.rowOfEntry? entry
  | .placeholder _ => some none

/-- The definition behind a type, if it has one, with its position. -/
def typeRow? (s : Store) (h : Handle) : Option (Option (Nat × TypeRow)) := do
  match ← s.rowOfHandle? h with
  | none => some none
  | some row => some (some (row, ← s.tables.definitions[row]?))

/-- The full name of a type. -/
def fullName? (s : Store) : Handle → Option String
  | .definition row => s.fullNames[row]?
  | .constructed entry => s.entryKey? entry
  | .placeholder name => some name

/-- The arguments of a type. -/
def arguments? (s : Store) : Handle → Option (List Handle)
  | .constructed entry => do
    let e ← s.tables.entries[entry]?
    match e.target with
    | .constructed _ arguments => arguments.mapM s.handleOf?
    | _ => some []
  | _ => some []

/-- The image that a definition is in, if it is in one. -/
def imageOf? (s : Store) (row : Nat) : Option (Option Image) := do
  match ← s.imageRows[row]? with
  | none => some none
  | some index => some (some (← s.tables.images[index]?))

/-- The name of the image that a type is in; empty if it is in none. -/
def imageName? (s : Store) (h : Handle) : Option String := do
  match ← s.rowOfHandle? h with
  | none => some ""
  | some row => some (((← s.imageOf? row).map (·.name)).getD "")

/-- The type that the definition behind a type links to, if there is such a type. -/
def linked? (s : Store) (link : TypeRow → Int) (h : Handle) : Option (Option Handle) := do
  match ← s.typeRow? h with
  | none => some none
  | some (_, d) => s.handleAt? (link d)

/-- The types declared in a type. -/
def nested? (s : Store) (h : Handle) : Option (List Handle) := do
  match ← s.typeRow? h with
  | none => some []
  | some (_, d) => some ((← d.nested.rows? s.tables.nested).map .definition)

/-- Whether one of the interfaces of a definition is a given one. -/
def implements? (s : Store) (d : TypeRow) (target : Nat) : Option Bool := do
  let entries ← d.interfaces.rows? s.tables.interfaces
  let rows ← entries.mapM s.rowOfEntry?
  some (rows.contains (some target))

/-- Whether a definition or one of its bases is a given one or implements it. -/
def reaches? (s : Store) (target : Nat) : (limit : Nat) → (row : Nat) → Option Bool
  | 0, _ => some false
  | limit + 1, row =>
    if row = target then some true
    else do
      let d ← s.tables.definitions[row]?
      if ← s.implements? d target then some true
      else
        match position? d.parent with
        | none => some false
        | some parent =>
          match ← s.rowOfEntry? parent with
          | none => some false
          | some above => s.reaches? target limit above

/-- Whether values of the first type are values of the second. -/
def isAssignable? (s : Store) (h target : Handle) : Option Bool := do
  if h = target then some true
  else
    match ← s.rowOfHandle? target, ← s.rowOfHandle? h with
    | some target, some row => s.reaches? target chainLimit row
    | _, _ => some false

/-! ## Attributes -/

/-- What attributes belong to. -/
structure Owner where
  token : UInt32
  customAttribute : Int
  image : Option Image

/-- Attributes by type alone, from type entries. -/
def typesOnly? (s : Store) (entries : List Nat) : Option (Attributes Handle) := do
  let types ← entries.mapM fun entry => (s.tables.entries[entry]?).map (entry, ·)
  some <| types.mapM fun (entry, e) =>
    match e.target with
    | .definition row => .ok ⟨.definition row, .error (.argumentsUnavailable s.tables.version)⟩
    | _ => .error (.invalidMetadata (.attributeNotClass entry))

/-- Attributes of a row of attribute types. -/
def ofAttributeRow? (s : Store) (row : AttributeRow) : Option (Attributes Handle) := do
  s.typesOnly? (← row.types.rows? s.tables.attributeTypes)

/-- The tag of the type under which values of an enum are stored, by type entry. An entry that is
not there is no enum. -/
def enumTag? (s : Store) (index : Int) : Option (Except Error UInt8) :=
  let noEnum : Except Error UInt8 := .error (.invalidMetadata (.notEnumType index))
  let entry? : Option TypeEntry := (position? index).bind (s.tables.entries[·]?)
  match entry? with
  | some ⟨_, _, .definition row⟩ => do
    let d ← s.tables.definitions[row]?
    match position? d.elementType with
    | none => some noEnum
    | some entry => some (.ok (← s.tables.entries[entry]?).code)
  | _ => some noEnum

/-- The tags of enums. -/
def enumResolver (s : Store) : Blob.EnumResolver := fun index =>
  (s.enumTag? index).getD (.error (.invalidMetadata (.notEnumType index)))

mutual

/-- A value with types by name instead of type entries. -/
def nameTypes (s : Store) : AttributeValue → AttributeValue
  | .typeIndex index =>
    match (position? index.toInt).bind s.entryKey? with
    | some name => .type name
    | none => .typeIndex index
  | .array (some items) => .array (some (s.nameAllTypes items))
  | v => v

/-- Values with types by name instead of type entries. -/
def nameAllTypes (s : Store) : List AttributeValue → List AttributeValue
  | [] => []
  | v :: vs => s.nameTypes v :: s.nameAllTypes vs

end

/-- A decoded attribute: its type is the one that declares the constructor. -/
def ofBlobAttribute (s : Store) (a : Blob.Attribute) : Except Error (Attribute Handle) :=
  match s.tables.methods[a.constructor.toNat]? with
  | some constructor =>
    .ok ⟨.definition constructor.declaringType, .ok (a.arguments.map s.nameTypes)⟩
  | none => .error (.invalidMetadata (.constructorIndex a.constructor.toNat))

/-- Attributes out of a blob. -/
def ofBlob (s : Store) (bytes : List UInt8) : Except Error (List (Attribute Handle)) := do
  (← Blob.decode s.enumResolver bytes).mapM s.ofBlobAttribute

/-- The bytes from one position to another. -/
def span? (bytes : List UInt8) (first last : Nat) : Option (List UInt8) :=
  if first ≤ last ∧ last ≤ bytes.length then some ((bytes.drop first).take (last - first)) else none

/-- Attributes out of the blob at a row; the blob ends where the next one starts. -/
def ofBlobRow? (s : Store) (token : UInt32) (row : Nat) : Option (Attributes Handle) := do
  let first := (← s.tables.blobs[row]?).start.toNat
  let last := ((s.tables.blobs[row + 1]?).map (·.start.toNat)).getD s.tables.blobData.length
  match span? s.tables.blobData first last with
  | none => some (.error (.invalidMetadata (.blobSpan token first last)))
  | some bytes => some (s.ofBlob bytes)

/-- The place of an owner's token in its image's window of a table. -/
def placeOf? (tokens : List UInt32) (owner : Owner) : Option Nat :=
  owner.image.bind fun i => Blob.findToken tokens owner.token i.attributes.start i.attributes.count

/-- The attributes of an owner. -/
def attributesOf? (s : Store) (owner : Owner) : Option (Attributes Handle) :=
  match s.layout with
  | .dataBlobs =>
    match placeOf? (s.tables.blobs.map (·.token)) owner with
    | none => some (.ok [])
    | some row => s.ofBlobRow? owner.token row
  | .directIndex =>
    match position? owner.customAttribute with
    | none => some (.ok [])
    | some index =>
      match s.tables.attributes[index]? with
      | none => some (.error (.invalidMetadata (.customAttributeIndex index)))
      | some row => s.ofAttributeRow? row
  | .typeRanges =>
    match placeOf? (s.tables.attributes.map (·.token)) owner with
    | none => some (.ok [])
    | some index => do s.ofAttributeRow? (← s.tables.attributes[index]?)

/-- The attributes of a type. -/
def attributes? (s : Store) (h : Handle) : Option (Attributes Handle) := do
  match ← s.typeRow? h with
  | none => some (.ok [])
  | some (row, d) => s.attributesOf? ⟨d.token, d.customAttribute, ← s.imageOf? row⟩

/-! ## Members -/

/-- A field of a definition. -/
def field? (s : Store) (owner : Nat) (f : FieldRow) : Option (Catalog.Field Handle) := do
  let e ← s.tables.entries[f.type]?
  some {
    name := f.name
    constant := f.constant
    isLiteral := e.isLiteral
    isPublic := e.isPublic
    isStatic := e.isStatic
    attributes := ← s.attributesOf? ⟨f.token, f.customAttribute, ← s.imageOf? owner⟩ }

/-- The fields of a type. -/
def fields? (s : Store) (h : Handle) : Option (List (Catalog.Field Handle)) := do
  match ← s.typeRow? h with
  | none => some []
  | some (row, d) => (← d.fields.rows? s.tables.fields).mapM (s.field? row)

/-- A method. -/
def method? (s : Store) (m : MethodRow) : Option (Method Handle) := do
  let parameters ← m.parameters.rows? s.tables.parameters
  some {
    name := m.name
    returnType := ← s.handleOf? m.returnType
    parameters := ← parameters.mapM fun p => s.handleOf? p.type
    isInherited := false
    isPublic := m.isPublic
    isStatic := m.isStatic
    isVirtual := m.isVirtual
    attributes := ← s.attributesOf? ⟨m.token, m.customAttribute, ← s.imageOf? m.declaringType⟩ }

/-- The methods of a type. -/
def methods? (s : Store) (h : Handle) : Option (List (Method Handle)) := do
  match ← s.typeRow? h with
  | none => some []
  | some (_, d) => (← d.methods.rows? s.tables.methods).mapM s.method?

/-- An accessor of a property, counted from the first method of its type. -/
def accessor? (s : Store) (d : TypeRow) (n : Int) : Option (Option (Method Handle)) :=
  match position? n with
  | none => some none
  | some offset => do
    some (some (← s.method? (← s.tables.methods[d.methods.start + offset]?)))

/-- The type of a property: what the getter returns, or else what the setter takes first. -/
def valueType? : (getter setter : Option (Method Handle)) → Option Handle
  | some getter, _ => some getter.returnType
  | none, some setter => setter.parameters.head?
  | none, none => none

/-- A property of a definition. -/
def property? (s : Store) (owner : Nat) (d : TypeRow) (p : PropertyRow) :
    Option (Property Handle) := do
  let getter ← s.accessor? d p.getter
  let setter ← s.accessor? d p.setter
  some {
    name := p.name
    type := ← valueType? getter setter
    isInherited := false
    getter
    setter
    attributes := ← s.attributesOf? ⟨p.token, p.customAttribute, ← s.imageOf? owner⟩ }

/-- The properties of a type. -/
def properties? (s : Store) (h : Handle) : Option (List (Property Handle)) := do
  match ← s.typeRow? h with
  | none => some []
  | some (row, d) => (← d.properties.rows? s.tables.properties).mapM (s.property? row d)

end Store

end ProtoRecovery.Il2cpp
