import ProtoRecovery.Dump.Literal
import ProtoRecovery.Il2cpp.Table
/-!
Tables in a dump. Every member of a row may be absent.
-/

namespace ProtoRecovery.Dump

open Json (Decoder Record)
open Il2cpp

/-- A position, or a count of rows; zero if it is absent. -/
def place (r : Record) (name : String) : Option Nat := r.withDefault name 0 Json.index?

/-- A position that may be negative; minus one if it is absent. -/
def link (r : Record) (name : String) : Option Int := r.withDefault name (-1) (Json.signed? 32)

/-- A text that is empty if it is absent. -/
def textOf (r : Record) (name : String) : Option String := r.withDefault name "" Json.string?

/-- A word of 32 bits; zero if it is absent. -/
def word32 (r : Record) (name : String) : Option UInt32 :=
  (r.withDefault name 0 (Json.unsigned? 32)).map .ofNat

/-- A run of rows, by the names of its two members. -/
def run (r : Record) (start count : String) : Option Run := do
  return ⟨← place r start, ← place r count⟩

/-- An image. -/
def image? (j : Json) : Option Image := do
  let r ← j.record?
  return {
    name := ← textOf r "name"
    types := ← run r "type_start" "type_count"
    attributes := ← run r "custom_attribute_start" "custom_attribute_count" }

/-- A definition. -/
def typeRow? (j : Json) : Option TypeRow := do
  let r ← j.record?
  return {
    name := ← textOf r "name"
    namespaceName := ← textOf r "namespace"
    declaringType := ← link r "declaring_type"
    parent := ← link r "parent"
    elementType := ← link r "element_type"
    flags := ← word32 r "flags"
    isValueType := ← r.flag "is_value_type"
    isEnum := ← r.flag "is_enum"
    fields := ← run r "field_start" "field_count"
    methods := ← run r "method_start" "method_count"
    properties := ← run r "property_start" "property_count"
    nested := ← run r "nested_start" "nested_count"
    interfaces := ← run r "interfaces_start" "interfaces_count"
    token := ← word32 r "token"
    customAttribute := ← link r "custom_attribute_index" }

/-- A field. -/
def fieldRow? (j : Json) : Option FieldRow := do
  let r ← j.record?
  return {
    name := ← textOf r "name"
    type := ← place r "type_index"
    token := ← word32 r "token"
    customAttribute := ← link r "custom_attribute_index"
    constant := ← r.optional "default_value" constant? }

/-- A method. -/
def methodRow? (j : Json) : Option MethodRow := do
  let r ← j.record?
  return {
    name := ← textOf r "name"
    declaringType := ← place r "declaring_type"
    returnType := ← place r "return_type"
    parameters := ← run r "parameter_start" "parameter_count"
    flags := ← word32 r "flags"
    token := ← word32 r "token"
    customAttribute := ← link r "custom_attribute_index" }

/-- A parameter. -/
def parameterRow? (j : Json) : Option ParameterRow := do
  let r ← j.record?
  return { name := ← textOf r "name", type := ← place r "type_index" }

/-- A property. -/
def propertyRow? (j : Json) : Option PropertyRow := do
  let r ← j.record?
  return {
    name := ← textOf r "name"
    getter := ← link r "get"
    setter := ← link r "set"
    token := ← word32 r "token"
    customAttribute := ← link r "custom_attribute_index" }

/-- Where a blob starts. -/
def blobRow? (j : Json) : Option BlobRow := do
  let r ← j.record?
  return { token := ← word32 r "token", start := ← word32 r "start_offset" }

/-- A run of attribute types. -/
def attributeRow? (j : Json) : Option AttributeRow := do
  let r ← j.record?
  return { token := ← word32 r "token", types := ← run r "start" "count" }

/-- What a type entry refers to: nothing, or an object with one member. -/
def entryTarget? : Decoder EntryTarget
  | .object [("class", j)] => .definition <$> j.index?
  | .object [("generic_inst", j)] => do
    let r ← j.record?
    return .constructed (← r.required "class" Json.index?)
      (← r.required "args" (Json.list? Json.index?))
  | j => if j.looseCase? = some "none" then some .nothing else none

/-- A type entry. -/
def typeEntry? (j : Json) : Option TypeEntry := do
  let r ← j.record?
  return {
    code := .ofNat (← r.withDefault "type_enum" 0 (Json.unsigned? 8))
    flags := .ofNat (← r.withDefault "attrs" 0 (Json.unsigned? 16))
    target := ← r.withDefault "data" .nothing entryTarget? }

/-- All tables. -/
def tables? (r : Record) : Option Tables := do
  return {
    version := ← r.withDefault "version" ⟨0⟩ Json.binary32?
    images := ← r.list "images" image?
    definitions := ← r.list "type_defs" typeRow?
    fields := ← r.list "field_defs" fieldRow?
    methods := ← r.list "method_defs" methodRow?
    parameters := ← r.list "parameter_defs" parameterRow?
    properties := ← r.list "property_defs" propertyRow?
    nested := ← r.list "nested_type_indices" Json.index?
    interfaces := ← r.list "interface_indices" Json.index?
    blobs := ← r.list "attribute_data_ranges" blobRow?
    blobData := ← r.list "attribute_data" fun j => (j.unsigned? 8).map .ofNat
    attributes := ← r.list "attribute_type_ranges" attributeRow?
    attributeTypes := ← r.list "attribute_types" Json.index?
    entries := ← r.list "types" typeEntry? }

end ProtoRecovery.Dump
