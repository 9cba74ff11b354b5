import ProtoRecovery.Number.Decimal
import ProtoRecovery.Storage.SystemFault
import ProtoRecovery.Text.Hex
import ProtoRecovery.Text.Utf8
/-!
What can go wrong, and how it is told.

An error is its cause. The wording is in the `message` functions alone, so two errors differ exactly
if their causes do.
-/

namespace ProtoRecovery

open Number (Binary32)
open Storage (SystemFault)

/-- What is wrong with the bytes of an attribute blob. -/
inductive BlobFlaw where
  | underrun (needed : Nat) (what : String) (remaining : Nat)
  | countExceedsBlob (count size : Nat)
  | negativeArrayLength (length : Int)
  | arrayLengthExceedsBlob (length : Int)
  | prefixedElements
  | negativeStringLength (length : Int)
  | notText (fault : Text.Utf8Fault)
deriving DecidableEq, Repr

/-- A description of the flaw. -/
def BlobFlaw.message : BlobFlaw → String
  | .underrun needed what remaining => s!"need {needed} byte(s) for {what}, {remaining} remaining"
  | .countExceedsBlob count size => s!"attribute count {count} exceeds blob size {size}"
  | .negativeArrayLength length => s!"negative array length {length}"
  | .arrayLengthExceedsBlob length => s!"array length {length} exceeds remaining blob"
  | .prefixedElements => "array elements are type-prefixed but the element type is not object"
  | .negativeStringLength length => s!"negative string length {length}"
  | .notText fault => "invalid utf-8 in string: " ++ fault.message

/-- In what a class does not have the shape of generated code. -/
inductive Misfit where
  | notMessage
  | notEnum
  | memberNotInt32 (member : String)
  | numberNotInt32 (constant : String)
  | noServerNorClient
  | notInHolder
  | missingParameter (method what : String)
  | unknownCall (method : String)
deriving DecidableEq, Repr

/-- A description of the misfit. -/
def Misfit.message : Misfit → String
  | .notMessage => "message types must be sealed, non-abstract classes"
  | .notEnum => "expected an enum type"
  | .memberNotInt32 member => s!"enum member '{member}' is not a 32-bit integer"
  | .numberNotInt32 constant => s!"field number constant '{constant}' is not a 32-bit integer"
  | .noServerNorClient => "service holder declares neither a server base nor a client"
  | .notInHolder => "service classes must be nested in their static holder"
  | .missingParameter method what => s!"method '{method}' has no {what} parameter"
  | .unknownCall method => s!"method '{method}' returns an unrecognised call type"

/-- A row of a table, for messages. -/
structure RowLabel where
  index : Nat
  name : String
deriving DecidableEq, Repr

/-- An inconsistency of metadata. -/
inductive MetadataFault where
  | missingAccessor (property type assembly accessor : String)
  | imageRun (image : RowLabel)
  | entryDefinition (entry definition : Nat)
  | genericDefinition (entry definition : Nat)
  | genericArgument (entry : Nat)
  | definitionIndex (definition : RowLabel) (what : String) (index : Int)
  | declaringNotClass (definition : RowLabel)
  | definitionRun (definition : RowLabel) (what : String)
  | accessorIndex (property type : String) (accessor : Int)
  | setterWithoutValue (property type : String)
  | noAccessors (property type : String)
  | fieldType (field : String) (index : Nat)
  | methodDeclaring (method : String)
  | methodReturn (method : String)
  | methodParameters (method : String)
  | parameterType (parameter : String)
  | nestedIndex
  | interfaceIndex
  | attributeIndex
  | attributeRange (token : UInt32)
  | attributeData (token : UInt32)
  | customAttributeIndex (index : Nat)
  | attributeNotClass (entry : Nat)
  | blobSpan (token : UInt32) (first last : Nat)
  | notEnumType (index : Int)
  | constructorIndex (index : Nat)
  | unknownEnum (index : Int)
deriving DecidableEq, Repr

/-- A token as text. -/
def tokenText (token : UInt32) : String := "0x" ++ Text.hex 8 token.toNat

/-- A description of the inconsistency. -/
def MetadataFault.message : MetadataFault → String
  | .missingAccessor property type assembly accessor =>
    s!"property '{property}' of '{type}' in '{assembly}' names missing accessor '{accessor}'"
  | .imageRun image => s!"image {image.index} ('{image.name}') type run out of bounds"
  | .entryDefinition entry definition => s!"type entry {entry} references type def {definition}"
  | .genericDefinition entry definition =>
    s!"generic type entry {entry} references type def {definition}"
  | .genericArgument entry => s!"generic type entry {entry} has an argument out of bounds"
  | .definitionIndex definition what index =>
    s!"type def {definition.index} ('{definition.name}') {what} index {index} out of bounds"
  | .declaringNotClass definition =>
    s!"type def {definition.index} ('{definition.name}') declaring type is not a class"
  | .definitionRun definition what =>
    s!"type def {definition.index} ('{definition.name}') {what} run out of bounds"
  | .accessorIndex property type accessor =>
    s!"property '{property}' of '{type}' has accessor {accessor} out of bounds"
  | .setterWithoutValue property type =>
    s!"setter of property '{property}' of '{type}' takes no value"
  | .noAccessors property type => s!"property '{property}' of '{type}' has no accessors"
  | .fieldType field index => s!"field '{field}' type index {index} out of bounds"
  | .methodDeclaring method => s!"method '{method}' declaring type out of bounds"
  | .methodReturn method => s!"method '{method}' return type out of bounds"
  | .methodParameters method => s!"method '{method}' parameter run out of bounds"
  | .parameterType parameter => s!"parameter '{parameter}' type index out of bounds"
  | .nestedIndex => "nested type index out of bounds"
  | .interfaceIndex => "interface index out of bounds"
  | .attributeIndex => "attribute type index out of bounds"
  | .attributeRange token =>
    "attribute type range for token " ++ tokenText token ++ " out of bounds"
  | .attributeData token =>
    "attribute data range for token " ++ tokenText token ++ " out of bounds"
  | .customAttributeIndex index => s!"custom attribute index {index} out of bounds"
  | .attributeNotClass entry => s!"attribute type entry {entry} is not a class"
  | .blobSpan token first last =>
    "attribute blob for token " ++ tokenText token ++ s!" spans {first}..{last}"
  | .notEnumType index => s!"type {index} is not an enum with an underlying type"
  | .constructorIndex index => s!"attribute constructor {index} out of bounds"
  | .unknownEnum index => s!"no enum {index}"

/-- Every error of the library. -/
inductive Error where
  /-- A file cannot be read. -/
  | unreadable (path : String) (cause : SystemFault)
  /-- A file cannot be written. -/
  | unwritable (path : String) (cause : SystemFault)
  /-- A directory cannot be made. -/
  | noDirectory (path : String) (cause : SystemFault)
  /-- The bytes of a blob do not follow its layout. -/
  | malformedBlob (offset : Nat) (flaw : BlobFlaw)
  /-- A value has a tag that stands for no type. -/
  | unsupportedTag (tag : UInt8) (offset : Nat)
  /-- The metadata is too old to have constructor arguments. -/
  | argumentsUnavailable (version : Binary32)
  /-- A class does not have the shape of generated code. -/
  | misfit (type : String) (reason : Misfit)
  /-- A type that everything rests on is nowhere. -/
  | missingType (fullName assembly : String)
  /-- The metadata contradicts itself. -/
  | invalidMetadata (fault : MetadataFault)
  /-- A dump is no dump. -/
  | unreadableDump
  /-- The arguments of a type contain the type itself. -/
  | endlessType (type : String)
deriving DecidableEq, Repr

namespace Error

/-- A description of the error. -/
def message : Error → String
  | .unreadable path cause => s!"failed to read file '{path}': " ++ cause.message
  | .unwritable path cause => s!"failed to write file '{path}': " ++ cause.message
  | .noDirectory path cause => s!"failed to create directory '{path}': " ++ cause.message
  | .malformedBlob offset flaw =>
    s!"malformed attribute blob at offset {offset}: " ++ flaw.message
  | .unsupportedTag tag offset =>
    "unsupported attribute value tag 0x" ++ Text.hex 2 tag.toNat ++ s!" at offset {offset}"
  | .argumentsUnavailable version =>
    "attribute constructor arguments are only available on il2cpp metadata version 29 or greater"
      ++ " (found " ++ version.text ++ ")"
  | .misfit type reason => s!"type '{type}' violates a structural assumption: " ++ reason.message
  | .missingType fullName assembly =>
    s!"well-known type '{fullName}' not found in loaded metadata or assembly '{assembly}'"
  | .invalidMetadata fault => "invalid metadata: " ++ fault.message
  | .unreadableDump => "failed to parse metadata dump"
  | .endlessType type => s!"type '{type}' is an argument of itself"

/-- Whether the error is about the attributes of one member, and not about the metadata. -/
def isAboutAttribute : Error → Bool
  | .malformedBlob .. | .unsupportedTag .. | .argumentsUnavailable _ => true
  | _ => false

/-- The refusal of the file system behind the error. -/
def cause? : Error → Option SystemFault
  | .unreadable _ cause | .unwritable _ cause | .noDirectory _ cause => some cause
  | _ => none

end Error

end ProtoRecovery
