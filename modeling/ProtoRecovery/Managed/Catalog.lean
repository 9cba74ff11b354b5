import ProtoRecovery.Catalog.Basic
import ProtoRecovery.Catalog.FullName
import ProtoRecovery.Managed.Record
/-!
The catalog of assembly records.

Of several definitions with one full name the first counts. Types may be referred to that no
assembly defines: they have a name and nothing else.
-/

namespace ProtoRecovery.Managed

open Catalog (Attributes Method Property Look)

/-- How far chains of types are followed: through bases, and through enclosing types. -/
def chainLimit : Nat := 64

/-- A definition with its full name and the position of its assembly. -/
structure Located where
  assembly : Nat
  fullName : String
  definition : Definition
deriving Inhabited

/-- Assemblies with all their definitions in order. The first `targets` assemblies are those whose
types are examined; the others only support them. -/
structure Library where
  assemblies : List Assembly
  targets : Nat
  entries : List Located
deriving Inhabited

namespace Library

/-- The definitions of an assembly. -/
def locate (position : Nat) (assembly : Assembly) : List Located :=
  assembly.types.map fun d => ⟨position, d.fullName, d⟩

/-- The first property whose accessor is missing, as an error. -/
def checkAssembly (assembly : Assembly) : Except Error Unit :=
  assembly.types.forM fun d =>
    match d.missingAccessor? with
    | none => .ok ()
    | some (property, accessor) =>
      .error (.invalidMetadata (.missingAccessor property d.name assembly.name accessor))

/-- Assemblies put together. -/
def ofAssemblies (targets supports : List Assembly) : Library where
  assemblies := targets ++ supports
  targets := targets.length
  entries := ((targets ++ supports).mapIdx locate).flatten

/-- Takes assemblies whose properties have their accessors. -/
def load (targets supports : List Assembly) : Except Error Library := do
  (targets ++ supports).forM checkAssembly
  return ofAssemblies targets supports

/-- The definition of a full name. -/
def get? (lib : Library) (fullName : String) : Option Located :=
  lib.entries.find? (·.fullName == fullName)

/-- The definition that a reference is about. -/
def definitionOf? (lib : Library) (r : TypeRef) : Option Definition :=
  (lib.get? r.name).map (·.definition)

/-- The assembly that defines the type of a reference. -/
def assemblyOf? (lib : Library) (r : TypeRef) : Option Assembly :=
  (lib.get? r.name).bind fun entry => lib.assemblies[entry.assembly]?

/-- The outermost type around a definition, as far as it is defined and the limit goes. -/
def outermost (lib : Library) : (limit : Nat) → Definition → Definition
  | 0, d => d
  | limit + 1, d =>
    match (d.declaringType.bind lib.get?).map (·.definition) with
    | none => d
    | some outer => lib.outermost limit outer

/-- The namespace of a definition: that of its outermost type. -/
def namespaceOf? (lib : Library) (d : Definition) : Option String :=
  (lib.outermost chainLimit d).namespaceName.filter (!·.isEmpty)

/-- The types to be examined. -/
def loaded (lib : Library) : List TypeRef :=
  ((lib.entries.filter (·.assembly < lib.targets)).map (·.fullName)).eraseDups.map .named

/-- The type of a full name in an assembly. Case does not matter in the name of an assembly. Types
to be examined are found under every name of an assembly that is there. -/
def find (lib : Library) (fullName assembly : String) : Except Error TypeRef :=
  match lib.assemblies.findIdx? (·.name.toLower == assembly.toLower), lib.get? fullName with
  | some position, some entry =>
    if entry.assembly = position || entry.assembly < lib.targets then .ok (.named fullName)
    else .error (.missingType fullName assembly)
  | _, _ => .error (.missingType fullName assembly)

/-- Attributes as the catalog gives them. -/
def attributesOf (records : List AttributeRecord) : Attributes TypeRef :=
  .ok (records.map fun a => ⟨.named a.type, .ok a.arguments⟩)

/-- A field as the catalog gives it. -/
def fieldOf (f : FieldRecord) : Catalog.Field TypeRef where
  name := f.name
  constant := f.constant
  isLiteral := f.isLiteral
  isPublic := f.isPublic
  isStatic := f.isStatic
  attributes := attributesOf f.attributes

/-- A method as the catalog gives it. -/
def methodOf (isInherited : Bool) (m : MethodRecord) : Method TypeRef where
  name := m.name
  returnType := m.returnType
  parameters := m.parameters
  isInherited := isInherited
  isPublic := m.isPublic
  isStatic := m.isStatic
  isVirtual := m.isVirtual
  attributes := attributesOf m.attributes

/-- A property as the catalog gives it. -/
def propertyOf (d : Definition) (isInherited : Bool) (p : PropertyRecord) : Property TypeRef where
  name := p.name
  type := p.type
  isInherited := isInherited
  getter := (p.getter.bind d.method?).map (methodOf isInherited)
  setter := (p.setter.bind d.method?).map (methodOf isInherited)
  attributes := attributesOf p.attributes

/-- The methods of a definition. Static ones are not inherited. -/
def methodsOf (isInherited : Bool) (d : Definition) : List (Method TypeRef) :=
  (d.methods.filter fun m => !(isInherited && m.isStatic)).map (methodOf isInherited)

/-- The properties of a definition. -/
def propertiesOf (isInherited : Bool) (d : Definition) : List (Property TypeRef) :=
  d.properties.map (propertyOf d isInherited)

/-- Every reference in the definitions. -/
def references (lib : Library) : List TypeRef := lib.entries.flatMap (·.definition.references)

/-- The catalog apart from the questions that follow chains of types. -/
def simpleCatalog (lib : Library) : Catalog TypeRef where
  loaded := lib.loaded
  pool := lib.loaded.map fun r => (r.key, r)
  key? r := some r.key
  fullName r := r.key
  name r := ((lib.definitionOf? r).map (·.name)).getD (Catalog.splitFullName r.name).2
  namespaceName? r :=
    match lib.definitionOf? r with
    | some d => lib.namespaceOf? d
    | none => (Catalog.splitFullName r.name).1
  assembly r := ((lib.assemblyOf? r).map (·.name)).getD ""
  moduleName r := ((lib.assemblyOf? r).map fun a => a.moduleName.getD a.name).getD ""
  isAbstract r := (lib.definitionOf? r).any (·.isAbstract)
  isClass r := (lib.definitionOf? r).all fun d => !d.isInterface && !d.isValueType && !d.isEnum
  isEnum r := (lib.definitionOf? r).any (·.isEnum)
  isNested r := (lib.definitionOf? r).any (·.declaringType.isSome)
  isSealed r := (lib.definitionOf? r).any (·.isSealed)
  declaring? r := ((lib.definitionOf? r).bind (·.declaringType)).map .named
  base? r := (lib.definitionOf? r).bind (·.baseType)
  arguments r := r.args
  nested r :=
    if (lib.definitionOf? r).isNone then []
    else (lib.entries.filter (·.definition.declaringType == some r.key)).map (.named ·.fullName)
  attributes r := ((lib.definitionOf? r).map fun d => attributesOf d.attributes).getD (.ok [])
  fields r := ((lib.definitionOf? r).map fun d => d.fields.map fieldOf).getD []
  methods r := return ((lib.definitionOf? r).map (methodsOf false)).getD []
  properties r := return ((lib.definitionOf? r).map (propertiesOf false)).getD []
  isAssignable r s := return r = s
  get? fullName := (lib.get? fullName).map (.named ·.fullName)
  find := lib.find
  extent := TypeRef.weightAll lib.references + lib.entries.length
  weight := TypeRef.weight

/-- The definitions of a type's bases, nearest first. Bases that are not defined end the chain. -/
def basesOf (lib : Library) : (limit : Nat) → TypeRef → Look TypeRef (List Definition)
  | 0, _ => return []
  | limit + 1, r => do
    match ← lib.simpleCatalog.baseOf? r with
    | none => return []
    | some base =>
      match lib.definitionOf? base with
      | none => return []
      | some d => return d :: (← lib.basesOf limit base)

/-- What a type's own definition gives, and then what its bases give. -/
def collect {α : Type} (lib : Library) (members : (isInherited : Bool) → Definition → List α)
    (r : TypeRef) : Look TypeRef (List α) := do
  let bases ← lib.basesOf (chainLimit - 1) r
  return ((lib.definitionOf? r).map (members false)).getD [] ++ bases.flatMap (members true)

/-- Whether a chain of interfaces and bases leads from one type to another. -/
def isAssignable (lib : Library) (target : TypeRef) : (limit : Nat) → TypeRef → Look TypeRef Bool
  | limit, r =>
    if r = target then return true
    else
      match limit, lib.definitionOf? r with
      | 0, _ | _, none => return false
      | limit + 1, some d =>
        (d.interfaces ++ d.baseType.toList).anyM fun above => do
          lib.isAssignable target limit (← lib.simpleCatalog.resolve above)

/-- The catalog of a library. -/
def catalog (lib : Library) : Catalog TypeRef :=
  { lib.simpleCatalog with
    methods := lib.collect methodsOf
    properties := lib.collect propertiesOf
    isAssignable := fun r target => lib.isAssignable target chainLimit r }

end Library

end ProtoRecovery.Managed
