import ProtoRecovery.Catalog.Basic
import ProtoRecovery.Identifier.Dictionary
import ProtoRecovery.Schema.Basic
/-!
What is kept while a schema is recovered.

Every class is recovered once: its full name is noted with its declaration as soon as that is there,
so a class that refers to itself finds itself. What an attempt has built stays if it fails later.
-/

namespace ProtoRecovery.Recovery

open Schema (DeclId FileId Body File Import)
open Catalog (Pool Look Search)

/-- What may be asked of a recovery. -/
structure Options where
  /-- Take fields of enum types as integers, and recover no enums for them. -/
  skipEnums : Bool := false
  /-- Take properties that are not marked as generated. -/
  allProperties : Bool := false
  /-- Take methods of services that are not marked as generated. -/
  allMethods : Bool := false
deriving DecidableEq, Repr, Inhabited

/-- What is odd about a class, and yet does not stop its recovery. -/
inductive Anomaly where
  /-- There is no number left for a property. -/
  | missingNumber
  /-- The number for a property is another field's. -/
  | duplicateNumber (number : Int)
  /-- A choice lists a number that no field has, or that an earlier choice lists. -/
  | danglingMember (number : Int)
  /-- A choice has no members. -/
  | emptyChoice
deriving DecidableEq, Repr, Inhabited

/-- A description of the anomaly. -/
def Anomaly.text : Anomaly → String
  | .missingNumber => "no field number constant left; property skipped"
  | .duplicateNumber number => s!"field number {number} already used; property skipped"
  | .danglingMember number => s!"oneof member {number} has no field; dropped"
  | .emptyChoice => "oneof has no members; dropped"

/-- An anomaly and where it is. -/
structure Diagnostic where
  type : String
  member : String
  anomaly : Anomaly
deriving DecidableEq, Repr, Inhabited

/-- The diagnostic as one line. -/
def Diagnostic.text (d : Diagnostic) : String := d.type ++ "." ++ d.member ++ ": " ++ d.anomaly.text

/-- What has been recovered so far. -/
structure State (ρ : Type) where
  schema : Schema := {}
  /-- Declarations by the full names of their classes. -/
  memo : List (String × DeclId) := []
  diagnostics : List Diagnostic := []
  pool : Pool ρ := []

/-- A step of a recovery. If it fails, what it has built stays. -/
abbrev Recover (ρ : Type) := ExceptT Error (StateM (State ρ))

/-- What a recovery goes by. -/
structure Setting (ρ : Type) where
  catalog : Catalog ρ
  names : Option Identifier.Dictionary := none
  options : Options := {}

variable {ρ : Type}

/-- The declaration of a class. -/
def State.find? (s : State ρ) (fullName : String) : Option DeclId := s.memo.lookup fullName

/-- Asks a question about types. -/
def look {α : Type} (question : Look ρ α) : Recover ρ α := do
  let s ← get
  let (a, pool) := question.run s.pool
  set { s with pool }
  return a

/-- Asks a question about types that may fail. -/
def search {α : Type} (question : Search ρ α) : Recover ρ α := do
  match ← look question.run with
  | .ok a => return a
  | .error e => throw e

/-- Goes through a list. A step is given what comes after it, and goes on from what the last one left. -/
def stepThrough {ι σ : Type} (step : ι → List ι → σ → Recover ρ σ) : List ι → σ → Recover ρ σ
  | [], w => return w
  | i :: rest, w => do stepThrough step rest (← step i rest w)

/-- The declaration of a class, if it is there. -/
def known? (fullName : String) : Recover ρ (Option DeclId) := return (← get).find? fullName

/-- Notes an anomaly. -/
def diagnose (type member : String) (anomaly : Anomaly) : Recover ρ Unit :=
  modify fun s => { s with diagnostics := s.diagnostics ++ [⟨type, member, anomaly⟩] }

/-- Changes the schema. -/
def change (f : Schema → Schema) : Recover ρ Unit := modify fun s => { s with schema := f s.schema }

/-- Declares what a class stands for. -/
def declare (fullName name : String) (isDeprecated : Bool) (body : Body) : Recover ρ DeclId := do
  let s ← get
  let id := s.schema.size
  set { s with
    schema := s.schema.declare name isDeprecated body
    memo := s.memo ++ [(fullName, id)] }
  return id

/-- Puts a declaration in a file of its own, named for the place of its class. -/
def startFile (c : Catalog ρ) (t : ρ) (id : DeclId) : Recover ρ Unit :=
  change fun schema =>
    let file : File := { assembly := some (c.assembly t), namespaceName := c.namespaceName? t }
    (schema.addFile file).attach id schema.files.length

/-- Imports the file of one declaration into the file of another, if they are different. -/
def importDeclaration (source target : DeclId) : Recover ρ Unit :=
  change fun schema =>
    match schema.fileOf? source, schema.fileOf? target with
    | some file, some other =>
      if file = other then schema else schema.addImport file (.file other)
    | _, _ => schema

/-- Imports a well-known file into the file of a declaration. -/
def importWellKnown (source : DeclId) (path : String) : Recover ρ Unit :=
  change fun schema =>
    match schema.fileOf? source with
    | some file => schema.addImport file (.wellKnown path)
    | none => schema

/-- The steps that refer to each other. -/
structure Calls (ρ : Type) where
  /-- Recovers a message. -/
  message : ρ → Recover ρ DeclId
  /-- Recovers an enum. -/
  enum : ρ → Recover ρ DeclId
  /-- Finds the type of a field, a request or a response of a declaration. -/
  fieldType : DeclId → ρ → Recover ρ Schema.FieldType

end ProtoRecovery.Recovery
