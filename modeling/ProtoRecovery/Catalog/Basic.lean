import ProtoRecovery.Error
import ProtoRecovery.Literal
/-!
Types and their members, whatever metadata they come from.

A catalog answers questions about types that are given by references. Different references may mean
one type: those with one key do. A pool keeps the reference that was met first for each key, and
that one stands for the others.
-/

namespace ProtoRecovery

namespace Catalog

/-- An attribute of a type or a member. -/
structure Attribute (ρ : Type) where
  type : ρ
  /-- The constructor arguments, as far as the metadata has them. -/
  arguments : Except Error (List AttributeValue)

/-- The attributes of a type or a member, if they can be read. -/
abbrev Attributes (ρ : Type) := Except Error (List (Attribute ρ))

/-- A field of a class. -/
structure Field (ρ : Type) where
  name : String
  constant : Option Constant
  isLiteral : Bool
  isPublic : Bool
  isStatic : Bool
  attributes : Attributes ρ

/-- A method of a class. -/
structure Method (ρ : Type) where
  name : String
  returnType : ρ
  parameters : List ρ
  /-- Whether it comes from a base class. -/
  isInherited : Bool
  isPublic : Bool
  isStatic : Bool
  isVirtual : Bool
  attributes : Attributes ρ

/-- Whether a method makes objects, or sets up their class. -/
def Method.isConstructor {ρ : Type} (m : Method ρ) : Bool := m.name == ".ctor" || m.name == ".cctor"

/-- A property of a class. -/
structure Property (ρ : Type) where
  name : String
  type : ρ
  /-- Whether it comes from a base class. -/
  isInherited : Bool
  getter : Option (Method ρ)
  setter : Option (Method ρ)
  attributes : Attributes ρ

/-- The references met so far, by key. -/
abbrev Pool (ρ : Type) := List (String × ρ)

/-- A question that may add to the pool. -/
abbrev Look (ρ : Type) := StateM (Pool ρ)

/-- A question that may fail. -/
abbrev Search (ρ : Type) := ExceptT Error (Look ρ)

end Catalog

open Catalog in
/-- What is known about types. References in answers are not looked up in the pool yet. -/
structure Catalog (ρ : Type) where
  /-- The types to be examined, in order. -/
  loaded : List ρ
  /-- The pool at the start. -/
  pool : Pool ρ
  /-- What references to one type share; a reference without a key shares its type with no other. -/
  key? : ρ → Option String
  fullName : ρ → String
  name : ρ → String
  namespaceName? : ρ → Option String
  assembly : ρ → String
  moduleName : ρ → String
  isAbstract : ρ → Bool
  isClass : ρ → Bool
  isEnum : ρ → Bool
  isNested : ρ → Bool
  isSealed : ρ → Bool
  /-- The type that a type is declared in. -/
  declaring? : ρ → Option ρ
  base? : ρ → Option ρ
  /-- The types that a generic type is applied to. -/
  arguments : ρ → List ρ
  /-- The types declared in a type. -/
  nested : ρ → List ρ
  attributes : ρ → Attributes ρ
  fields : ρ → List (Catalog.Field ρ)
  /-- The methods of a type, and then those of its base types. -/
  methods : ρ → Look ρ (List (Method ρ))
  /-- The properties of a type, and then those of its base types. -/
  properties : ρ → Look ρ (List (Property ρ))
  /-- Whether values of the first type are values of the second. -/
  isAssignable : ρ → ρ → Look ρ Bool
  /-- The type of a full name. -/
  get? : String → Option ρ
  /-- The type of a full name in an assembly. -/
  find : String → String → Except Error ρ
  /-- How many references there are in all. -/
  extent : Nat
  /-- How many references one reference holds, itself included. -/
  weight : ρ → Nat

namespace Catalog

variable {ρ : Type}

/-- The reference that stands for the type of another. -/
def resolve (c : Catalog ρ) (r : ρ) : Look ρ ρ := fun pool =>
  match c.key? r with
  | none => (r, pool)
  | some key =>
    match pool.lookup key with
    | some first => (first, pool)
    | none => (r, (key, r) :: pool)

/-- Resolves references in order. -/
def resolveAll (c : Catalog ρ) : List ρ → Look ρ (List ρ)
  | [] => return []
  | r :: rest => return (← c.resolve r) :: (← c.resolveAll rest)

/-- Resolves a reference that may be absent. -/
def resolve? (c : Catalog ρ) : Option ρ → Look ρ (Option ρ)
  | none => return none
  | some r => return some (← c.resolve r)

/-- The type that a type is declared in. -/
def declaringOf? (c : Catalog ρ) (t : ρ) : Look ρ (Option ρ) := c.resolve? (c.declaring? t)

/-- The base of a type. -/
def baseOf? (c : Catalog ρ) (t : ρ) : Look ρ (Option ρ) := c.resolve? (c.base? t)

/-- The types that a type is applied to. -/
def argumentsOf (c : Catalog ρ) (t : ρ) : Look ρ (List ρ) := c.resolveAll (c.arguments t)

/-- The types declared in a type. -/
def nestedOf (c : Catalog ρ) (t : ρ) : Look ρ (List ρ) := c.resolveAll (c.nested t)

/-- Resolves the types of attributes in order. -/
def resolveTypes (c : Catalog ρ) : List (Attribute ρ) → Look ρ (List (Attribute ρ))
  | [] => return []
  | a :: rest => return { a with type := ← c.resolve a.type } :: (← c.resolveTypes rest)

/-- The attributes of a type or a member. -/
def readAttributes (c : Catalog ρ) : Attributes ρ → Search ρ (List (Attribute ρ))
  | .error e => throw e
  | .ok attributes => c.resolveTypes attributes

/-- The type of a property. -/
def typeOf (c : Catalog ρ) (p : Property ρ) : Look ρ ρ := c.resolve p.type

/-- The type that a method returns. -/
def returnTypeOf (c : Catalog ρ) (m : Method ρ) : Look ρ ρ := c.resolve m.returnType

/-- The types of a method's parameters. -/
def parametersOf (c : Catalog ρ) (m : Method ρ) : Look ρ (List ρ) := c.resolveAll m.parameters

/-- Whether a class can only be used for what it declares. -/
def isHolder (c : Catalog ρ) (t : ρ) : Bool := c.isSealed t && c.isAbstract t

/-- Whether a class can stand for a message. -/
def isMessage (c : Catalog ρ) (t : ρ) : Bool := c.isClass t && c.isSealed t && !c.isAbstract t

end Catalog

end ProtoRecovery
