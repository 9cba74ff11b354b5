import ProtoRecovery.Schema.Scope
import ProtoRecovery.Text.Hex
/-!
Schemas as source text.

A text is a list of lines. A file is its preamble and then its declarations, each after a blank
line. All files together are one preamble for all of them and then every declaration.
-/

namespace ProtoRecovery.Schema

/-- What may be chosen about a text. -/
structure Layout where
  /-- One step of indentation. -/
  indent : String := "  "
  /-- The tool that the first line names. -/
  generator : String := "cilproto"
deriving DecidableEq, Repr, Inhabited

/-- One character inside a string literal. -/
def escapeChar (c : Char) : List Char :=
  if c = '\\' then ['\\', '\\']
  else if c = '"' then ['\\', '"']
  else if c = '\n' then ['\\', 'n']
  else if c = '\r' then ['\\', 'r']
  else if c = '\t' then ['\\', 't']
  else if c.toNat < 0x20 ∨ c.toNat = 0x7F then '\\' :: 'x' :: (Text.hex 2 c.toNat).toList
  else [c]

/-- The inside of a string literal. -/
def escape (s : String) : String := String.ofList (s.toList.flatMap escapeChar)

/-- A string literal. -/
def literal (s : String) : String := "\"" ++ escape s ++ "\""

/-- An option setting. -/
def optionLine (name value : String) : String := "option " ++ name ++ " = " ++ value ++ ";"

/-- The line that marks a declaration as deprecated. -/
def deprecatedLine : String := optionLine "deprecated" "true"

/-- What marks a field or a member as deprecated. -/
def deprecatedMark (isDeprecated : Bool) : String :=
  if isDeprecated then " [deprecated = true]" else ""

namespace Layout

/-- Lines in braces, one step further in. -/
def braced (layout : Layout) (head : String) (inner : List String) : List String :=
  (head ++ " \x7b") :: inner.map (layout.indent ++ ·) ++ ["\x7d"]

end Layout

/-- A field. No field of a choice is marked optional. -/
def fieldLine (s : Schema) (owner : DeclId) (inChoice : Bool) (f : Field) : String :=
  (if f.isOptional && !inChoice && !f.type.isCollection then "optional " else "")
    ++ s.typeText owner f.type ++ " " ++ f.name ++ " = " ++ toString f.number
    ++ deprecatedMark f.isDeprecated ++ ";"

/-- A choice and its fields. -/
def choiceLines (s : Schema) (layout : Layout) (owner : DeclId) (m : Message) (c : Choice) :
    List String :=
  layout.braced ("oneof " ++ c.name) ((m.fieldsOf c).map (s.fieldLine owner true))

/-- A member of an enum. -/
def memberLine (m : EnumMember) : String :=
  m.name ++ " = " ++ toString m.number ++ deprecatedMark m.isDeprecated ++ ";"

/-- An enum. -/
def enumLines (layout : Layout) (name : String) (isDeprecated : Bool) (e : Enum) : List String :=
  layout.braced ("enum " ++ name)
    ((if e.hasAliases then [optionLine "allow_alias" "true"] else [])
      ++ (if isDeprecated then [deprecatedLine] else [])
      ++ (if e.isClosed then [optionLine "features.enum_type" "CLOSED"] else [])
      ++ e.members.map memberLine)

/-- A request or a response. -/
def messageText (s : Schema) (owner : DeclId) (streamed : Bool) (type : FieldType) : String :=
  "(" ++ (if streamed then "stream " else "") ++ s.typeText owner type ++ ")"

/-- A method. -/
def methodLines (s : Schema) (layout : Layout) (owner : DeclId) (m : Method) : List String :=
  let head := "rpc " ++ m.name ++ " " ++ s.messageText owner m.requestStreamed m.request
    ++ " returns " ++ s.messageText owner m.responseStreamed m.response
  if m.isDeprecated then layout.braced head [deprecatedLine] else [head ++ ";"]

/-- A service. -/
def serviceLines (s : Schema) (layout : Layout) (owner : DeclId) (name : String)
    (isDeprecated : Bool) (service : Service) : List String :=
  layout.braced ("service " ++ name)
    ((if isDeprecated then [deprecatedLine] else [])
      ++ service.methods.flatMap (s.methodLines layout owner))

/-- A declaration with all nested in it, to a depth. -/
def declLines (s : Schema) (layout : Layout) : (depth : Nat) → DeclId → List String
  | 0, _ => []
  | depth + 1, id =>
    match s.decls[id]? with
    | none => []
    | some d =>
      match d.body with
      | .message m =>
        layout.braced ("message " ++ d.name)
          ((if d.isDeprecated then [deprecatedLine] else [])
            ++ m.plainFields.map (s.fieldLine id false)
            ++ m.choices.flatMap (s.choiceLines layout id m)
            ++ m.nested.flatMap (s.declLines layout depth))
      | .enum e => enumLines layout d.name d.isDeprecated e
      | .service service => s.serviceLines layout id d.name d.isDeprecated service

/-- What a text says before its declarations. -/
structure Preamble where
  assemblies : List String
  edition : Option String
  imports : List String
  namespaceName : Option String
deriving DecidableEq, Repr

namespace Preamble

/-- The lines of a preamble. -/
def lines (layout : Layout) (p : Preamble) : List String :=
  ["// Decompiled with " ++ layout.generator]
    ++ p.assemblies.map ("// Assembly: " ++ ·)
    ++ ["", match p.edition with
      | some edition => "edition = " ++ literal edition ++ ";"
      | none => "syntax = \"proto3\";"]
    ++ (if p.imports.isEmpty then []
      else "" :: p.imports.map fun path => "import " ++ literal path ++ ";")
    ++ match p.namespaceName with
      | some name => ["", optionLine "csharp_namespace" (literal name)]
      | none => []

/-- The preamble of one file. -/
def ofFile (s : Schema) (file : File) : Preamble where
  assemblies := file.assembly.toList
  edition := file.edition
  imports := file.imports.map s.importPath
  namespaceName := file.namespaceName

/-- The well-known file that an import names. -/
def wellKnownPath? : Import → Option String
  | .wellKnown path => some path
  | .file _ => none

/-- One preamble for all files. Their imports of each other are not needed; a namespace is given
only if it is that of every file. -/
def merged (files : List File) : Preamble where
  assemblies := (files.filterMap (·.assembly)).eraseDups
  edition := files.findSome? (·.edition)
  imports := ((files.flatMap (·.imports)).filterMap wellKnownPath?).eraseDups
  namespaceName :=
    match (files.map (·.namespaceName)).eraseDups with
    | [single] => single
    | _ => none

end Preamble

/-- The declarations of a file, each after a blank line. -/
def bodyLines (s : Schema) (layout : Layout) (file : File) : List String :=
  file.tops.flatMap fun id => "" :: s.declLines layout s.size id

/-- The text of lines. -/
def textOf (lines : List String) : String := String.join (lines.map (· ++ "\n"))

/-- The text of one file. -/
def fileText (s : Schema) (layout : Layout) (file : File) : String :=
  textOf ((Preamble.ofFile s file).lines layout ++ s.bodyLines layout file)

/-- The text of all files as one. -/
def combinedText (s : Schema) (layout : Layout) : String :=
  textOf ((Preamble.merged s.files).lines layout ++ s.files.flatMap (s.bodyLines layout))

end ProtoRecovery.Schema
