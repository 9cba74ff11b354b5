import ProtoRecovery.Schema.Type
/-!
Declarations and files.

A declaration is a message, an enum or a service. It knows its file and the message it is nested in;
messages and files list what they hold.
-/

namespace ProtoRecovery.Schema

/-- A field of a message. -/
structure Field where
  name : String
  number : Int
  type : FieldType
  isDeprecated : Bool
  /-- Whether absence can be told from the default value. -/
  isOptional : Bool
deriving DecidableEq, Repr, Inhabited

/-- A group of fields of which at most one is set. -/
structure Choice where
  name : String
  numbers : List Int
deriving DecidableEq, Repr, Inhabited

/-- The body of a message. Fields stand in ascending order of their numbers. -/
structure Message where
  fields : List Field := []
  choices : List Choice := []
  nested : List DeclId := []
deriving DecidableEq, Repr, Inhabited

namespace Message

/-- Puts a field in its place among ascending ones; one with its number gives way. -/
def insertAscending (f : Field) : List Field → List Field
  | [] => [f]
  | g :: rest =>
    if f.number < g.number then f :: g :: rest
    else if f.number = g.number then f :: rest
    else g :: insertAscending f rest

/-- Adds a field; one with its number gives way. -/
def insert (m : Message) (f : Field) : Message := { m with fields := insertAscending f m.fields }

/-- The field of a number. -/
def field? (m : Message) (number : Int) : Option Field := m.fields.find? (·.number == number)

/-- Position of the first choice that lists a number. -/
def choiceOf? (m : Message) (number : Int) : Option Nat :=
  m.choices.findIdx? (·.numbers.contains number)

/-- The fields outside every choice. -/
def plainFields (m : Message) : List Field := m.fields.filter fun f => (m.choiceOf? f.number).isNone

/-- The fields of a choice, in the order it lists them. -/
def fieldsOf (m : Message) (c : Choice) : List Field := c.numbers.filterMap m.field?

end Message

/-- A member of an enum. -/
structure EnumMember where
  name : String
  number : Int
  isDeprecated : Bool
deriving DecidableEq, Repr, Inhabited

/-- The body of an enum. -/
structure Enum where
  members : List EnumMember := []
  /-- Whether other values are refused; so it is if no member has the value zero. -/
  isClosed : Bool := false
deriving DecidableEq, Repr, Inhabited

/-- Whether an element occurs again further on. -/
def hasRepeats : List Int → Bool
  | [] => false
  | n :: rest => rest.contains n || hasRepeats rest

/-- Whether two members share a value. -/
def Enum.hasAliases (e : Enum) : Bool := hasRepeats (e.members.map (·.number))

/-- A method of a service. -/
structure Method where
  name : String
  request : FieldType
  response : FieldType
  requestStreamed : Bool
  responseStreamed : Bool
  isDeprecated : Bool
deriving DecidableEq, Repr, Inhabited

/-- The body of a service. -/
structure Service where
  methods : List Method := []
deriving DecidableEq, Repr, Inhabited

/-- Whether a service has a method of a name. -/
def Service.hasMethod (s : Service) (name : String) : Bool := s.methods.any (·.name == name)

/-- What a declaration declares. -/
inductive Body where
  | message (m : Message)
  | enum (e : Enum)
  | service (s : Service)
deriving DecidableEq, Repr, Inhabited

/-- A named declaration. -/
structure Declaration where
  name : String
  isDeprecated : Bool
  /-- The file it is in, once that is known. -/
  file : Option FileId := none
  /-- The message it is nested in. -/
  parent : Option DeclId := none
  body : Body
deriving DecidableEq, Repr, Inhabited

namespace Declaration

/-- The body of a message. -/
def message? (d : Declaration) : Option Message :=
  match d.body with
  | .message m => some m
  | _ => none

/-- The body of an enum. -/
def enum? (d : Declaration) : Option Enum :=
  match d.body with
  | .enum e => some e
  | _ => none

/-- The body of a service. -/
def service? (d : Declaration) : Option Service :=
  match d.body with
  | .service s => some s
  | _ => none

/-- The declarations nested directly in this one. -/
def nested (d : Declaration) : List DeclId := (d.message?.map (·.nested)).getD []

/-- Whether this is an enum that refuses other values. -/
def isClosedEnum (d : Declaration) : Bool := (d.enum?.map (·.isClosed)).getD false

/-- The same declaration with one more nested in it; only messages take any. -/
def addNested (d : Declaration) (child : DeclId) : Declaration :=
  match d.body with
  | .message m => { d with body := .message { m with nested := m.nested ++ [child] } }
  | _ => d

end Declaration

/-- What a file imports. -/
inductive Import where
  | file (id : FileId)
  | wellKnown (path : String)
deriving DecidableEq, Repr, Inhabited

/-- A file of declarations. -/
structure File where
  /-- The edition it is written in; without one it is proto3. -/
  edition : Option String := none
  assembly : Option String := none
  namespaceName : Option String := none
  imports : List Import := []
  tops : List DeclId := []
deriving DecidableEq, Repr, Inhabited

end ProtoRecovery.Schema
