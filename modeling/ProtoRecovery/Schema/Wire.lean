import ProtoRecovery.Schema.Descriptor
import ProtoRecovery.Text.Utf8
/-!
Descriptors as bytes: fields in ascending order of their numbers, each a tag and a value.
-/

namespace ProtoRecovery.Schema.Wire

/-- A number in groups of seven bits, least first; all but the last have the top bit set. -/
def varint (n : Nat) : List UInt8 :=
  if n < 0x80 then [UInt8.ofNat n] else UInt8.ofNat (n % 0x80 + 0x80) :: varint (n / 0x80)

/-- A signed number: its 64 bits. -/
def signed (n : Int) : List UInt8 := varint (n % (Nat.pow 2 64 : Nat)).toNat

/-- A field that holds a number. -/
def number (field : Nat) (n : Int) : List UInt8 := varint (field * 8) ++ signed n

/-- A field that holds bytes. -/
def bytes (field : Nat) (content : List UInt8) : List UInt8 :=
  varint (field * 8 + 2) ++ varint content.length ++ content

/-- A field that holds text. -/
def text (field : Nat) (s : String) : List UInt8 := bytes field (Text.encodeUtf8 s)

/-- A field that holds a truth value. -/
def flag (field : Nat) (b : Bool) : List UInt8 := number field (if b then 1 else 0)

/-- A field that is there only if it is true. -/
def mark (field : Nat) (b : Bool) : List UInt8 := if b then flag field true else []

/-- A field of options that is there only if one of them is. -/
def options (field : Nat) (content : List UInt8) : List UInt8 :=
  if content.isEmpty then [] else bytes field content

/-- A field of a message. -/
def field (f : FieldDescriptor) : List UInt8 :=
  text 1 f.name ++ number 3 f.number ++ number 4 f.label.code
    ++ (f.kind.map fun k => number 5 k.code).getD []
    ++ (f.typeName.map (text 6)).getD []
    ++ options 8 (mark 3 f.isDeprecated)
    ++ (f.choice.map fun i => number 9 i).getD []
    ++ mark 17 f.isOptional

/-- A member of an enum. -/
def member (m : MemberDescriptor) : List UInt8 :=
  text 1 m.name ++ number 2 m.number ++ options 3 (mark 1 m.isDeprecated)

/-- An enum. -/
def enum (e : EnumDescriptor) : List UInt8 :=
  text 1 e.name ++ e.members.flatMap (fun m => bytes 2 (member m))
    ++ options 3 (mark 2 e.allowAlias ++ mark 3 e.isDeprecated)

mutual

/-- A message. -/
def message : MessageDescriptor → List UInt8
  | ⟨name, fields, nested, enums, choices, isDeprecated, isMapEntry⟩ =>
    text 1 name ++ fields.flatMap (fun f => bytes 2 (field f)) ++ messages 3 nested
      ++ enums.flatMap (fun e => bytes 4 (enum e))
      ++ options 7 (mark 3 isDeprecated ++ mark 7 isMapEntry)
      ++ choices.flatMap (fun c => bytes 8 (text 1 c))

/-- A field that holds messages. -/
def messages (number : Nat) : List MessageDescriptor → List UInt8
  | [] => []
  | m :: rest => bytes number (message m) ++ messages number rest

end

/-- A method. -/
def method (m : MethodDescriptor) : List UInt8 :=
  text 1 m.name ++ text 2 m.input ++ text 3 m.output ++ options 4 (mark 33 m.isDeprecated)
    ++ flag 5 m.clientStreaming ++ flag 6 m.serverStreaming

/-- A service. -/
def service (s : ServiceDescriptor) : List UInt8 :=
  text 1 s.name ++ s.methods.flatMap (fun m => bytes 2 (method m))
    ++ options 3 (mark 33 s.isDeprecated)

/-- A file. -/
def file (f : FileDescriptor) : List UInt8 :=
  text 1 f.name ++ f.dependencies.flatMap (text 3) ++ messages 4 f.messages
    ++ f.enums.flatMap (fun e => bytes 5 (enum e))
    ++ f.services.flatMap (fun s => bytes 6 (service s))
    ++ (f.namespaceName.map fun name => bytes 8 (text 37 name)).getD []
    ++ text 12 f.syntaxName

/-- Files as one set. -/
def files (fs : List FileDescriptor) : List UInt8 := fs.flatMap fun f => bytes 1 (file f)

end ProtoRecovery.Schema.Wire
