/-!
Types of fields, requests and responses.

Scalars and the types of `google/protobuf` are known by name; every other type is a declaration of
the schema, given by its position.
-/

namespace ProtoRecovery.Schema

/-- Position of a declaration in its schema. -/
abbrev DeclId := Nat

/-- Position of a file in its schema. -/
abbrev FileId := Nat

/-- A scalar type. -/
inductive Scalar where
  | bool
  | bytes
  | double
  | float
  | int32
  | int64
  | string
  | uint32
  | uint64
deriving DecidableEq, Repr, Inhabited

namespace Scalar

/-- The word for a scalar type. -/
def keyword : Scalar → String
  | .bool => "bool"
  | .bytes => "bytes"
  | .double => "double"
  | .float => "float"
  | .int32 => "int32"
  | .int64 => "int64"
  | .string => "string"
  | .uint32 => "uint32"
  | .uint64 => "uint64"

/-- Scalar types by the class that holds their values. -/
def classes : List (String × Scalar) :=
  [("System.String", .string), ("System.Boolean", .bool), ("System.Double", .double),
    ("System.UInt32", .uint32), ("System.UInt64", .uint64), ("System.Int32", .int32),
    ("System.Int64", .int64), ("System.Single", .float), ("Google.Protobuf.ByteString", .bytes)]

/-- The scalar type whose values a class holds. -/
def ofClass? (fullName : String) : Option Scalar := classes.lookup fullName

end Scalar

/-- A type that `google/protobuf` defines, and the file it is in. -/
structure WellKnown where
  name : String
  file : String
deriving DecidableEq, Repr, Inhabited

namespace WellKnown

/-- The package of the well-known types. -/
def package : String := "google.protobuf."

/-- The namespace of the classes for well-known types. -/
def classNamespace : String := "Google.Protobuf.WellKnownTypes."

/-- Simple names of the well-known types, and what their files are called. -/
def names : List (String × String) :=
  [("Any", "any"), ("Api", "api"), ("BoolValue", "wrappers"), ("BytesValue", "wrappers"),
    ("DoubleValue", "wrappers"), ("Duration", "duration"), ("Empty", "empty"), ("Enum", "type"),
    ("EnumValue", "type"), ("Field", "type"), ("FieldMask", "field_mask"),
    ("FloatValue", "wrappers"), ("Int32Value", "wrappers"), ("Int64Value", "wrappers"),
    ("ListValue", "struct"), ("Method", "api"), ("Mixin", "api"), ("NullValue", "struct"),
    ("Option", "type"), ("SourceContext", "source_context"), ("StringValue", "wrappers"),
    ("Struct", "struct"), ("Syntax", "type"), ("Timestamp", "timestamp"), ("Type", "type"),
    ("UInt32Value", "wrappers"), ("UInt64Value", "wrappers"), ("Value", "struct")]

/-- The well-known type of a simple name. -/
def ofSimpleName? (simple : String) : Option WellKnown :=
  (names.lookup simple).map fun file => ⟨package ++ simple, "google/protobuf/" ++ file ++ ".proto"⟩

/-- What is left of a text behind its start. -/
def behind? (start text : String) : Option String :=
  if start.toList.isPrefixOf text.toList then
    some (String.ofList (text.toList.drop start.toList.length))
  else none

/-- The well-known type of a qualified name. -/
def ofName? (name : String) : Option WellKnown := (behind? package name).bind ofSimpleName?

/-- The well-known type that a class stands for. -/
def ofClass? (fullName : String) : Option WellKnown :=
  (behind? classNamespace fullName).bind ofSimpleName?

/-- Wrapper types by the class of the value they wrap. -/
def wrappers : List (String × String) :=
  [("System.Boolean", "BoolValue"), ("System.Double", "DoubleValue"),
    ("System.Single", "FloatValue"), ("System.Int32", "Int32Value"),
    ("System.Int64", "Int64Value"), ("System.UInt32", "UInt32Value"),
    ("System.UInt64", "UInt64Value")]

/-- The wrapper type for values of a class that may be absent. -/
def wrapperOf? (fullName : String) : Option WellKnown :=
  (wrappers.lookup fullName).bind ofSimpleName?

/-- Whether the type is an enum; all others are messages. -/
def isEnum (w : WellKnown) : Bool :=
  w.name = package ++ "NullValue" || w.name = package ++ "Syntax"

end WellKnown

/-- The type of a field, a request or a response. -/
inductive FieldType where
  | scalar (s : Scalar)
  | wellKnown (w : WellKnown)
  | repeated (element : FieldType)
  | map (key value : FieldType)
  | reference (target : DeclId)
deriving DecidableEq, Repr, Inhabited

/-- Whether a value of the type holds any number of elements. -/
def FieldType.isCollection : FieldType → Bool
  | .repeated _ | .map .. => true
  | _ => false

end ProtoRecovery.Schema
