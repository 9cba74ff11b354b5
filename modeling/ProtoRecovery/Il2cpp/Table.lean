import ProtoRecovery.Literal
/-!
The tables of ahead-of-time compiled metadata.

Rows refer to rows of other tables by position. A definition has runs of consecutive rows for its
members; a negative position means that there is nothing to refer to.
-/

namespace ProtoRecovery.Il2cpp

open Number (Binary32)

/-- Consecutive rows of a table. -/
structure Run where
  start : Nat := 0
  count : Nat := 0
deriving DecidableEq, Repr, Inhabited

/-- An assembly image: the definitions in it, and its window of the attribute tables. -/
structure Image where
  name : String := ""
  types : Run := {}
  attributes : Run := {}
deriving DecidableEq, Repr, Inhabited

/-- The definition of a type. -/
structure TypeRow where
  name : String := ""
  namespaceName : String := ""
  /-- The type entry of the type it is declared in. -/
  declaringType : Int := -1
  /-- The type entry of the base. -/
  parent : Int := -1
  /-- The type entry under which values of an enum are stored. -/
  elementType : Int := -1
  flags : UInt32 := 0
  isValueType : Bool := false
  isEnum : Bool := false
  fields : Run := {}
  methods : Run := {}
  properties : Run := {}
  nested : Run := {}
  interfaces : Run := {}
  token : UInt32 := 0
  customAttribute : Int := -1
deriving DecidableEq, Repr, Inhabited

/-- A field. Its flags are those of its type entry. -/
structure FieldRow where
  name : String := ""
  type : Nat := 0
  token : UInt32 := 0
  customAttribute : Int := -1
  constant : Option Constant := none
deriving DecidableEq, Repr, Inhabited

/-- A method. -/
structure MethodRow where
  name : String := ""
  /-- The definition it belongs to. -/
  declaringType : Nat := 0
  returnType : Nat := 0
  parameters : Run := {}
  flags : UInt32 := 0
  token : UInt32 := 0
  customAttribute : Int := -1
deriving DecidableEq, Repr, Inhabited

/-- A parameter. -/
structure ParameterRow where
  name : String := ""
  type : Nat := 0
deriving DecidableEq, Repr, Inhabited

/-- A property. Its accessors are counted from the first method of its type. -/
structure PropertyRow where
  name : String := ""
  getter : Int := -1
  setter : Int := -1
  token : UInt32 := 0
  customAttribute : Int := -1
deriving DecidableEq, Repr, Inhabited

/-- Where the blob of a member starts. -/
structure BlobRow where
  token : UInt32 := 0
  start : UInt32 := 0
deriving DecidableEq, Repr, Inhabited

/-- The attribute types of a member. -/
structure AttributeRow where
  token : UInt32 := 0
  types : Run := {}
deriving DecidableEq, Repr, Inhabited

/-- What a type entry refers to. -/
inductive EntryTarget where
  /-- A definition. -/
  | definition (row : Nat)
  /-- A generic definition applied to type entries. -/
  | constructed (row : Nat) (arguments : List Nat)
  /-- No definition. -/
  | nothing
deriving DecidableEq, Repr, Inhabited

/-- A type as members refer to it. -/
structure TypeEntry where
  code : UInt8 := 0
  flags : UInt16 := 0
  target : EntryTarget := .nothing
deriving DecidableEq, Repr, Inhabited

/-- All tables. -/
structure Tables where
  version : Binary32 := ⟨0⟩
  images : List Image := []
  definitions : List TypeRow := []
  fields : List FieldRow := []
  methods : List MethodRow := []
  parameters : List ParameterRow := []
  properties : List PropertyRow := []
  /-- Definitions that runs of nested types refer to. -/
  nested : List Nat := []
  /-- Type entries that runs of interfaces refer to. -/
  interfaces : List Nat := []
  blobs : List BlobRow := []
  blobData : List UInt8 := []
  attributes : List AttributeRow := []
  /-- Type entries that runs of attribute types refer to. -/
  attributeTypes : List Nat := []
  entries : List TypeEntry := []
deriving Inhabited

/-- The position that an integer stands for; a negative one stands for none. -/
def position? (n : Int) : Option Nat := if n < 0 then none else some n.toNat

/-- Whether a row is one of a run. -/
def Run.contains (r : Run) (row : Nat) : Bool := r.start ≤ row && row < r.start + r.count

/-- The position of the image that a definition is in; of several the last. -/
def Tables.imageRow? (t : Tables) (row : Nat) : Option Nat :=
  (t.images.zipIdx.reverse.find? fun (image, _) => image.types.contains row).map (·.2)

/-- The rows of a run, if all of them are there. -/
def Run.rows? {α : Type} (r : Run) (table : List α) : Option (List α) :=
  if r.start + r.count ≤ table.length then some ((table.drop r.start).take r.count) else none

/-- Full names of the types that entries without a definition mean, by code. -/
def primitives : List (UInt8 × String) :=
  [(0x01, "System.Void"), (0x02, "System.Boolean"), (0x03, "System.Char"), (0x04, "System.SByte"),
    (0x05, "System.Byte"), (0x06, "System.Int16"), (0x07, "System.UInt16"), (0x08, "System.Int32"),
    (0x09, "System.UInt32"), (0x0A, "System.Int64"), (0x0B, "System.UInt64"),
    (0x0C, "System.Single"), (0x0D, "System.Double"), (0x0E, "System.String"),
    (0x18, "System.IntPtr"), (0x19, "System.UIntPtr"), (0x1C, "System.Object")]

/-- The full name of a primitive type. -/
def primitiveName? (code : UInt8) : Option String := primitives.lookup code

namespace TypeRow

def isInterface (d : TypeRow) : Bool := d.flags &&& 0x20 != 0

def isAbstract (d : TypeRow) : Bool := d.flags &&& 0x80 != 0

def isSealed (d : TypeRow) : Bool := d.flags &&& 0x100 != 0

end TypeRow

namespace TypeEntry

def isPublic (e : TypeEntry) : Bool := e.flags &&& 7 == 6

def isStatic (e : TypeEntry) : Bool := e.flags &&& 0x10 != 0

def isLiteral (e : TypeEntry) : Bool := e.flags &&& 0x40 != 0

end TypeEntry

namespace MethodRow

def isPublic (m : MethodRow) : Bool := m.flags &&& 7 == 6

def isStatic (m : MethodRow) : Bool := m.flags &&& 0x10 != 0

def isVirtual (m : MethodRow) : Bool := m.flags &&& 0x40 != 0

end MethodRow

end ProtoRecovery.Il2cpp
