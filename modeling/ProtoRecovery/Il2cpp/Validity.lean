import ProtoRecovery.Error
import ProtoRecovery.Il2cpp.Table
/-!
Whether tables refer only to rows that are there.

Every reference is checked once, in the order of the tables, and the first that leads nowhere is the
error. Data ranges of blobs are not checked against each other here.
-/

namespace ProtoRecovery.Il2cpp

/-- The first of several checks that fails. -/
def ensure (holds : Bool) (fault : MetadataFault) : Except Error Unit :=
  if holds then .ok () else .error (.invalidMetadata fault)

/-- Whether a run lies inside a table. -/
def Run.isWithin (r : Run) (length : Nat) : Bool := r.start + r.count ≤ length

/-- Whether a position, if it is one, lies inside a table. -/
def isWithin (n : Int) (length : Nat) : Bool := (position? n).all (· < length)

namespace Tables

/-- An image. -/
def checkImage (t : Tables) (index : Nat) (image : Image) : Except Error Unit :=
  ensure (image.types.isWithin t.definitions.length) (.imageRun ⟨index, image.name⟩)

/-- A type entry. -/
def checkEntry (t : Tables) (index : Nat) (e : TypeEntry) : Except Error Unit :=
  match e.target with
  | .definition row => ensure (row < t.definitions.length) (.entryDefinition index row)
  | .constructed row arguments => do
    ensure (row < t.definitions.length) (.genericDefinition index row)
    ensure (arguments.all (· < t.entries.length)) (.genericArgument index)
  | .nothing => .ok ()

/-- Whether an entry refers to a definition and not to a generic type or a primitive. -/
def isDefinition (t : Tables) (entry : Nat) : Bool :=
  match t.entries[entry]? with
  | some ⟨_, _, .definition _⟩ => true
  | _ => false

/-- A property of a definition. -/
def checkProperty (t : Tables) (d : TypeRow) (p : PropertyRow) : Except Error Unit := do
  ensure (isWithin p.getter d.methods.count) (.accessorIndex p.name d.name p.getter)
  ensure (isWithin p.setter d.methods.count) (.accessorIndex p.name d.name p.setter)
  match position? p.getter, position? p.setter with
  | some _, _ => return
  | none, some setter =>
    let takesValue := (t.methods[d.methods.start + setter]?).any (0 < ·.parameters.count)
    ensure takesValue (.setterWithoutValue p.name d.name)
  | none, none => ensure false (.noAccessors p.name d.name)

/-- A definition. -/
def checkDefinition (t : Tables) (index : Nat) (d : TypeRow) : Except Error Unit := do
  let label : RowLabel := ⟨index, d.name⟩
  let checkIndex (what : String) (n : Int) :=
    ensure (isWithin n t.entries.length) (.definitionIndex label what n)
  let checkRun (what : String) (r : Run) (length : Nat) :=
    ensure (r.isWithin length) (.definitionRun label what)
  checkIndex "declaring type" d.declaringType
  checkIndex "parent" d.parent
  checkIndex "element type" d.elementType
  ensure ((position? d.declaringType).all t.isDefinition) (.declaringNotClass label)
  checkRun "field" d.fields t.fields.length
  checkRun "method" d.methods t.methods.length
  checkRun "property" d.properties t.properties.length
  checkRun "nested type" d.nested t.nested.length
  checkRun "interface" d.interfaces t.interfaces.length
  ((d.properties.rows? t.properties).getD []).forM (t.checkProperty d)

/-- A field. -/
def checkField (t : Tables) (f : FieldRow) : Except Error Unit :=
  ensure (f.type < t.entries.length) (.fieldType f.name f.type)

/-- A method. -/
def checkMethod (t : Tables) (m : MethodRow) : Except Error Unit := do
  ensure (m.declaringType < t.definitions.length) (.methodDeclaring m.name)
  ensure (m.returnType < t.entries.length) (.methodReturn m.name)
  ensure (m.parameters.isWithin t.parameters.length) (.methodParameters m.name)

/-- Applies a check to the rows of a table with their positions. -/
def checkRows {α : Type} (check : Nat → α → Except Error Unit) (table : List α) :
    Except Error Unit :=
  (table.mapIdx fun index row => check index row).forM id

/-- All tables. -/
def check (t : Tables) : Except Error Unit := do
  checkRows t.checkImage t.images
  checkRows t.checkEntry t.entries
  checkRows t.checkDefinition t.definitions
  t.fields.forM t.checkField
  t.methods.forM t.checkMethod
  t.parameters.forM fun p => ensure (p.type < t.entries.length) (.parameterType p.name)
  ensure (t.nested.all (· < t.definitions.length)) .nestedIndex
  ensure (t.interfaces.all (· < t.entries.length)) .interfaceIndex
  ensure (t.attributeTypes.all (· < t.entries.length)) .attributeIndex
  t.attributes.forM fun a =>
    ensure (a.types.isWithin t.attributeTypes.length) (.attributeRange a.token)
  t.blobs.forM fun b => ensure (b.start.toNat ≤ t.blobData.length) (.attributeData b.token)

end Tables

end ProtoRecovery.Il2cpp
