import Mathlib
import ProtoRecovery.Managed.Catalog
import ProtoRecovery.Recovery.Attribute
/-!
# Classes that a generator makes

What a message class looks like that was generated from a list of fields and choices: a constant and a
property for each field, maybe a property that tells whether it is set, and for each choice an enum in the
class and a property of that type.
-/

namespace ProtoRecovery.Managed.Generated

/-- A field to generate. -/
structure Field where
  name : String
  number : Int32
  type : TypeRef
  /-- Whether a property follows that tells whether the field is set. -/
  hasPresence : Bool := false

/-- A choice to generate. -/
structure Choice where
  name : String
  /-- Names and numbers of the fields it is made of. -/
  cases : List (String × Int32)

/-- What a message class is generated from, in order. -/
inductive Item where
  | field (f : Field)
  | choice (c : Choice)

/-- A message class to generate. -/
structure Message where
  name : String
  namespaceName : Option String := none
  declaringType : Option String := none
  items : List Item := []

/-- The full name of the class. -/
def Message.fullName (m : Message) : String :=
  Definition.fullName
    { name := m.name, namespaceName := m.namespaceName, declaringType := m.declaringType }

/-- A constant. -/
def literal (name : String) (number : Int32) : FieldRecord where
  name
  isStatic := true
  isPublic := true
  isLiteral := true
  constant := some (.i4 number)

/-- The methods behind a property. -/
def accessors (name : String) (type : TypeRef) (isWritable : Bool) : List MethodRecord :=
  let getter : MethodRecord := { name := "get_" ++ name, returnType := type, isPublic := true }
  let setter : MethodRecord := { name := "set_" ++ name, parameters := [type], isPublic := true }
  if isWritable then [getter, setter] else [getter]

/-- A property with the mark of generated code. -/
def property (name : String) (type : TypeRef) (isWritable : Bool) : PropertyRecord where
  name
  type
  getter := some ("get_" ++ name)
  setter := if isWritable then some ("set_" ++ name) else none
  attributes := [⟨Recovery.nonUserCodeAttribute, []⟩]

/-- The type of properties that tell whether a field is set. -/
def presenceType : TypeRef := .named "System.Boolean"

/-- The simple name of the enum of a choice. -/
def Choice.enumName (c : Choice) : String := c.name ++ "OneofCase"

/-- The enum of a choice, as a type. -/
def Choice.enumType (outer : String) (c : Choice) : TypeRef := .named (outer ++ "+" ++ c.enumName)

/-- Properties of an item: name, type and whether they can be written. -/
def Item.members (outer : String) : Item → List (String × TypeRef × Bool)
  | .field f =>
    (f.name, f.type, true) :: if f.hasPresence then [("Has" ++ f.name, presenceType, false)] else []
  | .choice c => [(c.name ++ "Case", c.enumType outer, false)]

/-- The constants of an item. -/
def Item.constants : Item → List FieldRecord
  | .field f => [literal (f.name ++ "FieldNumber") f.number]
  | .choice _ => []

/-- The enum that tells which field of a choice is set. -/
def Choice.definition (outer : String) (c : Choice) : Definition where
  name := c.enumName
  declaringType := some outer
  baseType := some (.named "System.Enum")
  isSealed := true
  isEnum := true
  isValueType := true
  fields := { name := "value__", isPublic := true } :: literal "None" 0 ::
    c.cases.map fun (name, number) => literal name number

/-- The choices among items. -/
def choices (items : List Item) : List Choice :=
  items.filterMap fun
    | .field _ => none
    | .choice c => some c

/-- The fields among items. -/
def fields (items : List Item) : List Field :=
  items.filterMap fun
    | .field f => some f
    | .choice _ => none

/-- The message class. -/
def Message.definition (m : Message) : Definition :=
  let members := m.items.flatMap (·.members m.fullName)
  { name := m.name
    namespaceName := m.namespaceName
    declaringType := m.declaringType
    baseType := some (.named "System.Object")
    interfaces := [⟨"Google.Protobuf.IMessage\x601", [.named m.fullName]⟩]
    isSealed := true
    fields := m.items.flatMap Item.constants
    methods := members.flatMap fun (name, type, isWritable) => accessors name type isWritable
    properties := members.map fun (name, type, isWritable) => property name type isWritable }

/-- The message class, and then the enums of its choices. -/
def Message.definitions (m : Message) : List Definition :=
  m.definition :: (choices m.items).map (Choice.definition m.fullName)

/-! ## Loading -/

theorem method?_isSome {d : Definition} {m : MethodRecord} (h : m ∈ d.methods) : (d.method? m.name).isSome := by
  rw [Definition.method?, List.find?_isSome]
  exact ⟨m, h, beq_self_eq_true m.name⟩

/-- The accessors of generated properties are there. -/
theorem missingAccessor?_definition (m : Message) : m.definition.missingAccessor? = none := by
  rw [Definition.missingAccessor?, List.findSome?_eq_none_iff]
  intro p hp
  obtain ⟨⟨name, type, isWritable⟩, hm, rfl⟩ := List.mem_map.1 hp
  have hmethods : ∀ a ∈ accessors name type isWritable, a ∈ m.definition.methods :=
    fun a ha => List.mem_flatMap.2 ⟨_, hm, ha⟩
  rw [Option.map_eq_none_iff, List.find?_eq_none]
  intro accessor ha hnone
  have hsome : ∃ a ∈ accessors name type isWritable, a.name = accessor := by
    cases isWritable <;> simpa [Definition.accessorsOf, property, accessors, eq_comm] using ha
  obtain ⟨a, hmem, rfl⟩ := hsome
  have hfound := method?_isSome (hmethods a hmem)
  rw [Option.isNone_iff_eq_none.1 hnone] at hfound
  cases hfound

theorem checkAssembly_of_accessors {a : Assembly} (h : ∀ d ∈ a.types, d.missingAccessor? = none) :
    Library.checkAssembly a = .ok () := by
  unfold Library.checkAssembly
  generalize a.types = types at h
  induction types with
  | nil => rfl
  | cons d rest ih =>
    have hd := h d (by simp)
    have hrest := ih fun x hx => h x (by simp [hx])
    rw [List.forM_eq_forM] at hrest ⊢
    rw [List.forM_cons, hd]
    exact hrest

theorem entries_ofAssembly (a : Assembly) : (Library.ofAssemblies [a] []).entries = Library.locate 0 a := by
  simp [Library.ofAssemblies, List.mapIdx_cons]

/-- An assembly on its own can be loaded if no accessor is missing. -/
theorem load_of_accessors {a : Assembly} (h : ∀ d ∈ a.types, d.missingAccessor? = none) :
    Library.load [a] [] = .ok (.ofAssemblies [a] []) := by
  unfold Library.load
  simp only [List.append_nil, List.forM_eq_forM, List.forM_cons, List.forM_nil, checkAssembly_of_accessors h]
  rfl

/-- Generated classes can be loaded. -/
theorem load_generated (a : Assembly) (messages : List Message)
    (h : a.types = messages.flatMap Message.definitions) :
    Library.load [a] [] = .ok (.ofAssemblies [a] []) := by
  refine load_of_accessors fun d hd => ?_
  rw [h] at hd
  obtain ⟨m, -, hd⟩ := List.mem_flatMap.1 hd
  rcases List.mem_cons.1 hd with rfl | hd
  · exact missingAccessor?_definition m
  · obtain ⟨c, -, rfl⟩ := List.mem_map.1 hd
    rfl

end ProtoRecovery.Managed.Generated
