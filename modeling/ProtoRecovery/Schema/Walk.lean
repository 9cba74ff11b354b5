import ProtoRecovery.Schema.Basic
/-!
The elements of a schema in the order in which they are written.
-/

namespace ProtoRecovery.Schema

/-- An element of a schema. -/
inductive Element where
  | file (file : File)
  | message (name : String) (m : Message)
  | field (f : Field)
  | choice (c : Choice)
  | enum (name : String) (e : Enum)
  | service (name : String) (s : Service)
  | method (m : Method)
deriving DecidableEq, Repr, Inhabited

/-- A declaration, its members and all nested in it, to a depth. -/
def walkDecl (s : Schema) : (depth : Nat) → DeclId → List Element
  | 0, _ => []
  | depth + 1, id =>
    match s.decls[id]? with
    | none => []
    | some d =>
      match d.body with
      | .message m =>
        .message d.name m :: m.plainFields.map .field
          ++ m.choices.flatMap (fun c => .choice c :: (m.fieldsOf c).map .field)
          ++ m.nested.flatMap (s.walkDecl depth)
      | .enum e => [.enum d.name e]
      | .service service => .service d.name service :: service.methods.map .method

/-- A file and all in it. -/
def walkFile (s : Schema) (file : File) : List Element :=
  .file file :: file.tops.flatMap (s.walkDecl s.size)

/-- All files. -/
def walk (s : Schema) : List Element := s.files.flatMap s.walkFile

/-- How many elements of each kind there are. -/
structure Counts where
  files : Nat := 0
  messages : Nat := 0
  fields : Nat := 0
  choices : Nat := 0
  enums : Nat := 0
  services : Nat := 0
  methods : Nat := 0
deriving DecidableEq, Repr, Inhabited

/-- Counts one more element. -/
def Counts.add (c : Counts) : Element → Counts
  | .file _ => { c with files := c.files + 1 }
  | .message .. => { c with messages := c.messages + 1 }
  | .field _ => { c with fields := c.fields + 1 }
  | .choice _ => { c with choices := c.choices + 1 }
  | .enum .. => { c with enums := c.enums + 1 }
  | .service .. => { c with services := c.services + 1 }
  | .method _ => { c with methods := c.methods + 1 }

/-- The counts of a whole schema. -/
def counts (s : Schema) : Counts := s.walk.foldl Counts.add {}

end ProtoRecovery.Schema
