import ProtoRecovery.Literal
import ProtoRecovery.Managed.Reference
/-!
Assemblies as records: every type with its members, everything by name.
-/

namespace ProtoRecovery.Managed

/-- An attribute and its constructor arguments. -/
structure AttributeRecord where
  type : String
  arguments : List AttributeValue := []
deriving Inhabited

/-- A field. -/
structure FieldRecord where
  name : String
  isStatic : Bool := false
  isPublic : Bool := false
  isLiteral : Bool := false
  constant : Option Constant := none
  attributes : List AttributeRecord := []
deriving Inhabited

/-- A method. -/
structure MethodRecord where
  name : String
  returnType : TypeRef := .named "System.Void"
  parameters : List TypeRef := []
  isStatic : Bool := false
  isPublic : Bool := false
  isVirtual : Bool := false
  attributes : List AttributeRecord := []
deriving Inhabited

/-- A property. Its accessors are methods of the same type. -/
structure PropertyRecord where
  name : String
  type : TypeRef
  getter : Option String := none
  setter : Option String := none
  attributes : List AttributeRecord := []
deriving Inhabited

/-- The definition of a type. -/
structure Definition where
  name : String
  namespaceName : Option String := none
  /-- The full name of the type it is declared in. -/
  declaringType : Option String := none
  baseType : Option TypeRef := none
  interfaces : List TypeRef := []
  isAbstract : Bool := false
  isSealed : Bool := false
  isEnum : Bool := false
  isInterface : Bool := false
  isValueType : Bool := false
  fields : List FieldRecord := []
  methods : List MethodRecord := []
  properties : List PropertyRecord := []
  attributes : List AttributeRecord := []
deriving Inhabited

/-- An assembly and the types defined in it, nested ones included. -/
structure Assembly where
  name : String
  moduleName : Option String := none
  types : List Definition := []
deriving Inhabited

namespace Definition

/-- The full name that a definition gives its type. -/
def fullName (d : Definition) : String :=
  match d.declaringType, d.namespaceName with
  | some outer, _ => outer ++ "+" ++ d.name
  | none, some space => if space.isEmpty then d.name else space ++ "." ++ d.name
  | none, none => d.name

/-- The method of a name. -/
def method? (d : Definition) (name : String) : Option MethodRecord :=
  d.methods.find? (·.name == name)

/-- The accessors that a property names, the getter first. -/
def accessorsOf (p : PropertyRecord) : List String := p.getter.toList ++ p.setter.toList

/-- The first accessor that is no method of the type, with the property that names it. -/
def missingAccessor? (d : Definition) : Option (String × String) :=
  d.properties.findSome? fun p =>
    ((accessorsOf p).find? fun accessor => (d.method? accessor).isNone).map (p.name, ·)

/-- Every reference that a definition holds. -/
def references (d : Definition) : List TypeRef :=
  d.baseType.toList ++ d.interfaces
    ++ d.methods.flatMap (fun m => m.returnType :: m.parameters)
    ++ d.properties.map (·.type)

end Definition

end ProtoRecovery.Managed
