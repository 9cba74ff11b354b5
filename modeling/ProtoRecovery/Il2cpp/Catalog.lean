import ProtoRecovery.Catalog.FullName
import ProtoRecovery.Il2cpp.Store
/-!
The catalog of tables.

Definitions are types of their own even if they share a full name. Generic types are one if their
full names are.
-/

namespace ProtoRecovery.Il2cpp.Store

/-- Whether the definition behind a type is there and has a property. -/
def definitionHas (s : Store) (p : TypeRow → Bool) (h : Handle) : Bool :=
  ((s.typeRow? h).getD none).any fun (_, d) => p d

/-- The full name of a type. -/
def fullName (s : Store) (h : Handle) : String := (s.fullName? h).getD ""

/-- The catalog of a store. -/
def catalog (s : Store) : Catalog Handle where
  loaded := (List.range s.tables.definitions.length).map .definition
  pool := []
  key? h :=
    match h with
    | .constructed entry => some ((s.entryKey? entry).getD "")
    | _ => none
  fullName := s.fullName
  name h :=
    match (s.typeRow? h).getD none with
    | some (_, d) => d.name
    | none => (Catalog.splitFullName (s.fullName h)).2
  namespaceName? h :=
    match (s.typeRow? h).getD none with
    | some (_, d) => s.tables.namespaceOf? d
    | none => (Catalog.splitFullName (s.fullName h)).1
  assembly h := (s.imageName? h).getD ""
  moduleName h := (s.imageName? h).getD ""
  isAbstract := s.definitionHas (·.isAbstract)
  isClass := s.definitionHas fun d => !d.isInterface && !d.isValueType
  isEnum := s.definitionHas (·.isEnum)
  isNested := s.definitionHas (0 ≤ ·.declaringType)
  isSealed := s.definitionHas (·.isSealed)
  declaring? h := (s.linked? (·.declaringType) h).getD none
  base? h := (s.linked? (·.parent) h).getD none
  arguments h := (s.arguments? h).getD []
  nested h := (s.nested? h).getD []
  attributes h := (s.attributes? h).getD (.ok [])
  fields h := (s.fields? h).getD []
  methods h := return (s.methods? h).getD []
  properties h := return (s.properties? h).getD []
  isAssignable h target := return (s.isAssignable? h target).getD false
  get? fullName := (s.rowOf? fullName).map .definition
  find fullName assembly :=
    match s.rowOf? fullName with
    | some row => .ok (.definition row)
    | none => .error (.missingType fullName assembly)
  extent := s.tables.entries.length + s.tables.definitions.length
  weight _ := 1

end ProtoRecovery.Il2cpp.Store
