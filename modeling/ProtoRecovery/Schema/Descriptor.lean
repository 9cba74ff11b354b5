import ProtoRecovery.Identifier.Basic
import ProtoRecovery.Schema.Scope
/-!
Schemas as descriptors, the form in which other tools read them.

Types are named in full. A map field becomes a repeated field of an entry message nested in its own
message. An optional field gets a choice of its own, after all real choices.
-/

namespace ProtoRecovery.Schema

/-- How often a field may occur. -/
inductive Label where
  | optional
  | repeated
deriving DecidableEq, Repr, Inhabited

/-- The number of a label. -/
def Label.code : Label → Nat
  | .optional => 1
  | .repeated => 3

/-- What kind of value a field holds. -/
inductive ValueKind where
  | scalar (s : Scalar)
  | message
  | enum
deriving DecidableEq, Repr, Inhabited

/-- The number of a kind of value. -/
def ValueKind.code : ValueKind → Nat
  | .scalar .double => 1
  | .scalar .float => 2
  | .scalar .int64 => 3
  | .scalar .uint64 => 4
  | .scalar .int32 => 5
  | .scalar .bool => 8
  | .scalar .string => 9
  | .message => 11
  | .scalar .bytes => 12
  | .scalar .uint32 => 13
  | .enum => 14

/-- A field. -/
structure FieldDescriptor where
  name : String
  number : Int
  label : Label := .optional
  kind : Option ValueKind := none
  typeName : Option String := none
  choice : Option Nat := none
  isOptional : Bool := false
  isDeprecated : Bool := false
deriving DecidableEq, Repr, Inhabited

/-- A member of an enum. -/
structure MemberDescriptor where
  name : String
  number : Int
  isDeprecated : Bool
deriving DecidableEq, Repr, Inhabited

/-- An enum. -/
structure EnumDescriptor where
  name : String
  members : List MemberDescriptor
  allowAlias : Bool
  isDeprecated : Bool
deriving DecidableEq, Repr, Inhabited

/-- A message. -/
structure MessageDescriptor where
  name : String
  fields : List FieldDescriptor := []
  messages : List MessageDescriptor := []
  enums : List EnumDescriptor := []
  choices : List String := []
  isDeprecated : Bool := false
  isMapEntry : Bool := false
deriving Repr, Inhabited

/-- A method. -/
structure MethodDescriptor where
  name : String
  input : String
  output : String
  clientStreaming : Bool
  serverStreaming : Bool
  isDeprecated : Bool
deriving DecidableEq, Repr, Inhabited

/-- A service. -/
structure ServiceDescriptor where
  name : String
  methods : List MethodDescriptor
  isDeprecated : Bool
deriving DecidableEq, Repr, Inhabited

/-- A file. -/
structure FileDescriptor where
  name : String
  dependencies : List String
  messages : List MessageDescriptor
  enums : List EnumDescriptor
  services : List ServiceDescriptor
  namespaceName : Option String
  syntaxName : String
deriving Repr, Inhabited

/-- Gives a field its kind of value. A collection inside a collection has none. -/
def FieldDescriptor.withType (s : Schema) (f : FieldDescriptor) : FieldType → FieldDescriptor
  | .scalar k => { f with kind := some (.scalar k) }
  | .wellKnown w =>
    { f with kind := some (if w.isEnum then .enum else .message), typeName := some ("." ++ w.name) }
  | .reference target =>
    let isEnum := ((s.decls[target]?.bind (·.enum?)).isSome)
    { f with
      kind := some (if isEnum then .enum else .message)
      typeName := some (s.fullName target) }
  | .repeated _ | .map .. => f

/-- The name of the entry message of a map field. -/
def entryName (field : String) : String := Identifier.joinWords field ++ "Entry"

/-- The entry message of a map field. -/
def mapEntry (s : Schema) (name : String) (key value : FieldType) : MessageDescriptor where
  name := name
  fields :=
    [FieldDescriptor.withType s { name := "key", number := 1 } key,
      FieldDescriptor.withType s { name := "value", number := 2 } value]
  isMapEntry := true

/-- A field, apart from its place in a choice. -/
def fieldDescriptor (s : Schema) (owner : DeclId) (f : Field) : FieldDescriptor :=
  let blank : FieldDescriptor :=
    { name := f.name, number := f.number, isDeprecated := f.isDeprecated }
  match f.type with
  | .map .. =>
    { blank with
      label := .repeated
      kind := some .message
      typeName := some (s.fullName owner ++ "." ++ entryName f.name) }
  | .repeated element => FieldDescriptor.withType s { blank with label := .repeated } element
  | other => FieldDescriptor.withType s blank other

/-- The entry message of a field, if it is a map. -/
def entryOf? (s : Schema) (f : Field) : Option MessageDescriptor :=
  match f.type with
  | .map key value => some (s.mapEntry (entryName f.name) key value)
  | _ => none

/-- Whether a field gets a choice of its own. -/
def Message.hasOwnChoice (m : Message) (f : Field) : Bool :=
  (m.choiceOf? f.number).isNone && f.isOptional && !f.type.isCollection

/-- The fields of a message. `own` is the position for the next choice that a field gets of its
own. -/
def fieldDescriptors (s : Schema) (owner : DeclId) (m : Message) :
    (own : Nat) → List Field → List FieldDescriptor
  | _, [] => []
  | own, f :: rest =>
    let d := s.fieldDescriptor owner f
    if m.hasOwnChoice f then
      { d with choice := some own, isOptional := true } :: s.fieldDescriptors owner m (own + 1) rest
    else { d with choice := m.choiceOf? f.number } :: s.fieldDescriptors owner m own rest

/-- An enum. -/
def enumDescriptor (name : String) (isDeprecated : Bool) (e : Enum) : EnumDescriptor where
  name := name
  members := e.members.map fun m => ⟨m.name, m.number, m.isDeprecated⟩
  allowAlias := e.hasAliases
  isDeprecated := isDeprecated

/-- The enum that a declaration is. -/
def enumOf? (s : Schema) (id : DeclId) : Option EnumDescriptor :=
  s.decls[id]?.bind fun d => d.enum?.map (enumDescriptor d.name d.isDeprecated)

/-- The messages among declarations with all nested in them, to a depth. -/
def messagesOf (s : Schema) : (depth : Nat) → List DeclId → List MessageDescriptor
  | 0, _ => []
  | depth + 1, ids => ids.filterMap fun id =>
    match s.decls[id]? with
    | none => none
    | some d => d.message?.map fun m =>
      { name := d.name
        fields := s.fieldDescriptors id m m.choices.length m.fields
        messages := m.fields.filterMap s.entryOf? ++ s.messagesOf depth m.nested
        enums := m.nested.filterMap s.enumOf?
        choices := m.choices.map (·.name)
          ++ (m.fields.filter m.hasOwnChoice).map fun f => "_" ++ f.name
        isDeprecated := d.isDeprecated }

/-- A type of a method. -/
def methodTypeName (s : Schema) (owner : DeclId) : FieldType → String
  | .reference target => s.fullName target
  | .wellKnown w => "." ++ w.name
  | other => s.typeText owner other

/-- The service that a declaration is. -/
def serviceOf? (s : Schema) (id : DeclId) : Option ServiceDescriptor :=
  s.decls[id]?.bind fun d => d.service?.map fun service =>
    { name := d.name
      methods := service.methods.map fun m =>
        { name := m.name
          input := s.methodTypeName id m.request
          output := s.methodTypeName id m.response
          clientStreaming := m.requestStreamed
          serverStreaming := m.responseStreamed
          isDeprecated := m.isDeprecated }
      isDeprecated := d.isDeprecated }

/-- A file. -/
def fileDescriptor (s : Schema) (id : FileId) (file : File) : FileDescriptor where
  name := s.fileName id
  dependencies := file.imports.map s.importPath
  messages := s.messagesOf s.size file.tops
  enums := file.tops.filterMap s.enumOf?
  services := file.tops.filterMap s.serviceOf?
  namespaceName := file.namespaceName
  syntaxName := if file.edition.isSome then "editions" else "proto3"

/-- The descriptors of all files. -/
def descriptors (s : Schema) : List FileDescriptor :=
  s.files.mapIdx s.fileDescriptor

end ProtoRecovery.Schema
