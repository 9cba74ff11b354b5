import ProtoRecovery.Recovery.Attribute
import ProtoRecovery.Recovery.Place
/-!
Enums from enum types.
-/

namespace ProtoRecovery.Recovery

open Schema (DeclId EnumMember)

variable {ρ : Type}

/-- Whether a field of a class is one of its constants. -/
def isConstant (f : Catalog.Field ρ) : Bool := f.isStatic && f.isLiteral

/-- A member of an enum. -/
def enumMember (env : Setting ρ) (t : ρ) (enumName : String) (f : Catalog.Field ρ) :
    Recover ρ EnumMember := do
  let c := env.catalog
  match f.constant.bind (·.int32?) with
  | none => throw (.misfit (c.fullName t) (.memberNotInt32 f.name))
  | some number =>
    let attributes ← search (c.readAttributes f.attributes)
    return {
      name := (← originalName c attributes).getD (Identifier.memberName env.names f.name enumName)
      number
      isDeprecated := hasAttribute c attributes obsoleteAttribute }

/-- Members of an enum, in order. -/
def enumMembers (env : Setting ρ) (t : ρ) (enumName : String) :
    List (Catalog.Field ρ) → Recover ρ (List EnumMember)
  | [] => return []
  | f :: rest => return (← enumMember env t enumName f) :: (← enumMembers env t enumName rest)

/-- Gives an enum its members. Without a value zero it is closed, and its file needs an edition. -/
def finishEnum (schema : Schema) (id : DeclId) (members : List EnumMember) : Schema :=
  let isClosed := !members.any (·.number == 0)
  let schema := schema.modifyDecl id fun d =>
    match d.body with
    | .enum _ => { d with body := .enum { members, isClosed } }
    | _ => d
  match isClosed, schema.fileOf? id with
  | true, some file => schema.requireEdition file
  | _, _ => schema

/-- Recovers an enum. -/
def enum (env : Setting ρ) (calls : Calls ρ) (t : ρ) : Recover ρ DeclId := do
  let c := env.catalog
  if !c.isEnum t then throw (.misfit (c.fullName t) .notEnum)
  match ← known? (c.fullName t) with
  | some id => return id
  | none =>
    let name := Identifier.typeName env.names (c.name t)
    let attributes ← search (c.readAttributes (c.attributes t))
    let isDeprecated := hasAttribute c attributes obsoleteAttribute
    let id ← declare (c.fullName t) name isDeprecated (.enum {})
    place env calls t id
    let members ← enumMembers env t name ((c.fields t).filter isConstant)
    change (finishEnum · id members)
    return id

end ProtoRecovery.Recovery
