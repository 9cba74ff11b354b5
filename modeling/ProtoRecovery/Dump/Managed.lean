import ProtoRecovery.Dump.Literal
import ProtoRecovery.Managed.Record
/-!
Assembly records in a dump, and references on their own.
-/

namespace ProtoRecovery.Dump

open Json (Decoder)
open Managed

/-- A reference at most so deep: a full name, or an object with a name and arguments. -/
def typeRefWithin? : (depth : Nat) → Decoder TypeRef
  | 0, _ => none
  | depth + 1, j =>
    match j with
    | .string name => some (.named name)
    | j => do
      let r ← j.record?
      return ⟨← r.required "name" Json.string?, ← r.list "args" (typeRefWithin? depth)⟩

/-- A reference. Each argument takes two containers, so the depth of the whole bounds the
nesting. -/
def typeRef? (j : Json) : Option TypeRef := typeRefWithin? (j.depth + 1) j

/-- An attribute. -/
def attributeRecord? (j : Json) : Option AttributeRecord := do
  let r ← j.record?
  return {
    type := ← r.required "attribute_type" Json.string?
    arguments := ← r.list "arguments" attributeValue? }

/-- A field. -/
def fieldRecord? (j : Json) : Option FieldRecord := do
  let r ← j.record?
  return {
    name := ← r.required "name" Json.string?
    isStatic := ← r.flag "is_static"
    isPublic := ← r.flag "is_public"
    isLiteral := ← r.flag "is_literal"
    constant := ← r.optional "constant" constant?
    attributes := ← r.list "attributes" attributeRecord? }

/-- A method. -/
def methodRecord? (j : Json) : Option MethodRecord := do
  let r ← j.record?
  return {
    name := ← r.required "name" Json.string?
    returnType := ← r.withDefault "return_type" (.named "System.Void") typeRef?
    parameters := ← r.list "parameters" typeRef?
    isStatic := ← r.flag "is_static"
    isPublic := ← r.flag "is_public"
    isVirtual := ← r.flag "is_virtual"
    attributes := ← r.list "attributes" attributeRecord? }

/-- A property. -/
def propertyRecord? (j : Json) : Option PropertyRecord := do
  let r ← j.record?
  return {
    name := ← r.required "name" Json.string?
    type := ← r.required "property_type" typeRef?
    getter := ← r.optional "getter" Json.string?
    setter := ← r.optional "setter" Json.string?
    attributes := ← r.list "attributes" attributeRecord? }

/-- The definition of a type. -/
def definition? (j : Json) : Option Definition := do
  let r ← j.record?
  return {
    name := ← r.required "name" Json.string?
    namespaceName := ← r.optional "namespace" Json.string?
    declaringType := ← r.optional "declaring_type" Json.string?
    baseType := ← r.optional "base_type" typeRef?
    interfaces := ← r.list "interfaces" typeRef?
    isAbstract := ← r.flag "is_abstract"
    isSealed := ← r.flag "is_sealed"
    isEnum := ← r.flag "is_enum"
    isInterface := ← r.flag "is_interface"
    isValueType := ← r.flag "is_value_type"
    fields := ← r.list "fields" fieldRecord?
    methods := ← r.list "methods" methodRecord?
    properties := ← r.list "properties" propertyRecord?
    attributes := ← r.list "attributes" attributeRecord? }

/-- An assembly. -/
def assembly? (j : Json) : Option Assembly := do
  let r ← j.record?
  return {
    name := ← r.required "name" Json.string?
    moduleName := ← r.optional "module" Json.string?
    types := ← r.list "types" definition? }

end ProtoRecovery.Dump

namespace ProtoRecovery.Managed

/-- A reference on its own. -/
def TypeRef.ofJson? (j : Json) : Option TypeRef := do
  guard (j.depth ≤ Json.depthLimit)
  Dump.typeRef? j

end ProtoRecovery.Managed
