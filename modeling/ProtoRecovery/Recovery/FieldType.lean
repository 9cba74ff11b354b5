import ProtoRecovery.Recovery.State
/-!
The type of a field from the type of a property.

A type with one argument is a list, one with two arguments a map. Everything else is a scalar, a
well-known type, an enum or a message; enums and messages are recovered where they are met.
-/

namespace ProtoRecovery.Recovery

open Schema (DeclId FieldType Scalar WellKnown)

variable {ρ : Type}

/-- The name of the type whose values may be absent. -/
def nullableName : String := "Nullable\x601"

/-- The wrapper type for a scalar that may be absent. -/
def wrapper? (c : Catalog ρ) (t : ρ) (arguments : List ρ) : Option WellKnown :=
  if c.name t == nullableName && c.namespaceName? t == some "System" then
    arguments.head?.bind fun inner => WellKnown.wrapperOf? (c.fullName inner)
  else none

/-- A well-known type, imported where it is used. -/
def wellKnownType (source : DeclId) (w : WellKnown) : Recover ρ FieldType := do
  importWellKnown source w.file
  return .wellKnown w

/-- A message or an enum, imported where it is used. -/
def referenceType (source target : DeclId) : Recover ρ FieldType := do
  importDeclaration source target
  return .reference target

/-- The type of a field that holds one value. -/
def singleType (env : Setting ρ) (calls : Calls ρ) (source : DeclId) (t : ρ) :
    Recover ρ FieldType := do
  let c := env.catalog
  match Scalar.ofClass? (c.fullName t), WellKnown.ofClass? (c.fullName t) with
  | some k, _ => return .scalar k
  | none, some w => wellKnownType source w
  | none, none =>
    if c.isEnum t then
      if env.options.skipEnums then return .scalar .int32
      else referenceType source (← calls.enum t)
    else referenceType source (← calls.message t)

/-- The type of a field. -/
def fieldType (env : Setting ρ) (calls : Calls ρ) (source : DeclId) (t : ρ) :
    Recover ρ FieldType := do
  let c := env.catalog
  let arguments ← look (c.argumentsOf t)
  match wrapper? c t arguments with
  | some w => wellKnownType source w
  | none =>
    match arguments with
    | [element] => return .repeated (← calls.fieldType source element)
    | [key, value] =>
      return .map (← calls.fieldType source key) (← calls.fieldType source value)
    | _ => singleType env calls source t

end ProtoRecovery.Recovery
