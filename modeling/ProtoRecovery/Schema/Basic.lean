import ProtoRecovery.Schema.Declaration
/-!
Schemas: files and declarations, each known by its position.

Positions let a declaration refer to itself or to one that is not finished yet. A declaration gets
its file when it is attached to one, or when it is nested in a message that has one; whatever is
nested in it goes to the same file.
-/

namespace ProtoRecovery

open Schema in
/-- Files and declarations. -/
structure Schema where
  files : List File := []
  decls : List Declaration := []
deriving DecidableEq, Repr, Inhabited

namespace Schema

/-! ## Looking things up -/

/-- Number of declarations. -/
def size (s : Schema) : Nat := s.decls.length

/-- The name of a declaration. -/
def nameOf (s : Schema) (id : DeclId) : String := (s.decls[id]?.map (·.name)).getD ""

/-- The message that a declaration is nested in. -/
def parentOf? (s : Schema) (id : DeclId) : Option DeclId := s.decls[id]?.bind (·.parent)

/-- The file of a declaration. -/
def fileOf? (s : Schema) (id : DeclId) : Option FileId := s.decls[id]?.bind (·.file)

/-- The declarations nested directly in one. -/
def nestedIn (s : Schema) (id : DeclId) : List DeclId := (s.decls[id]?.map (·.nested)).getD []

/-- Whether a declaration is an enum that refuses other values. -/
def isClosedEnum (s : Schema) (id : DeclId) : Bool :=
  (s.decls[id]?.map (·.isClosedEnum)).getD false

/-- The declarations that a file holds directly. -/
def topsOf (s : Schema) (file : FileId) : List DeclId := (s.files[file]?.map (·.tops)).getD []

/-- A declaration and those nested in it, to a depth. -/
def descend (s : Schema) : (depth : Nat) → DeclId → List DeclId
  | 0, _ => []
  | depth + 1, id => id :: (s.nestedIn id).flatMap (s.descend depth)

/-- A declaration and all nested in it: nesting is never deeper than there are declarations. -/
def descendants (s : Schema) (id : DeclId) : List DeclId := s.descend s.size id

/-! ## Building -/

/-- The edition that closed enums need. -/
def closedEnumEdition : String := "2023"

/-- Changes one file. -/
def modifyFile (s : Schema) (id : FileId) (f : File → File) : Schema :=
  { s with files := s.files.modify id f }

/-- Changes one declaration. -/
def modifyDecl (s : Schema) (id : DeclId) (f : Declaration → Declaration) : Schema :=
  { s with decls := s.decls.modify id f }

/-- Adds a file; its position is the number of files before. -/
def addFile (s : Schema) (file : File) : Schema := { s with files := s.files ++ [file] }

/-- Adds a declaration without a place; its position is the number of declarations before. -/
def declare (s : Schema) (name : String) (isDeprecated : Bool) (body : Body) : Schema :=
  { s with decls := s.decls ++ [{ name, isDeprecated, body }] }

/-- Gives a declaration its body. -/
def setBody (s : Schema) (id : DeclId) (body : Body) : Schema :=
  s.modifyDecl id fun d => { d with body }

/-- Gives a file the edition that closed enums need, unless it has one. -/
def requireEdition (s : Schema) (file : FileId) : Schema :=
  s.modifyFile file fun f => { f with edition := f.edition.or (some closedEnumEdition) }

/-- Puts one declaration in a file. -/
def assignOne (s : Schema) (file : FileId) (id : DeclId) : Schema :=
  let s := s.modifyDecl id fun d => { d with file := some file }
  if s.isClosedEnum id then s.requireEdition file else s

/-- Puts a declaration and all nested in it in a file. -/
def assignFile (s : Schema) (id : DeclId) (file : FileId) : Schema :=
  (s.descendants id).foldl (·.assignOne file) s

/-- Makes a declaration one that a file holds directly. -/
def attach (s : Schema) (id : DeclId) (file : FileId) : Schema :=
  (s.modifyFile file fun f => { f with tops := f.tops ++ [id] }).assignFile id file

/-- Nests a declaration in a message. If that has no file yet, they get one together later. -/
def nest (s : Schema) (parent child : DeclId) : Schema :=
  let s := (s.modifyDecl parent (·.addNested child)).modifyDecl child
    fun d => { d with parent := some parent }
  match s.fileOf? parent with
  | some file => s.assignFile child file
  | none => s

/-- Adds an import to a file, once. -/
def addImport (s : Schema) (file : FileId) (i : Import) : Schema :=
  s.modifyFile file fun f =>
    { f with imports := if f.imports.contains i then f.imports else f.imports ++ [i] }

/-! ## Names of files -/

/-- The name of a file: that of the first declaration in it. -/
def fileName (s : Schema) (id : FileId) : String :=
  ((s.topsOf id).head?.map s.nameOf).getD "" ++ ".proto"

/-- The path that an import names. -/
def importPath (s : Schema) : Import → String
  | .file id => s.fileName id
  | .wellKnown path => path

end Schema

end ProtoRecovery
