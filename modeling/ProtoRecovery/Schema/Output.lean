import ProtoRecovery.Error
import ProtoRecovery.Schema.Text
import ProtoRecovery.Schema.Wire
import ProtoRecovery.Storage.Device
/-!
Schemas written to a file system.
-/

namespace ProtoRecovery.Schema

open Storage (Device)

/-- A name with underscores in front until it is new, at most `limit` of them. -/
def freshName (used : List String) : (limit : Nat) → String → String
  | 0, name => name
  | limit + 1, name => if used.contains name then freshName used limit ("_" ++ name) else name

/-- Names told apart: each gets the fewest underscores in front that make it differ from all before
it. `used` holds the earlier ones; one underscore for each of them is always enough. -/
def distinctNames (used : List String) : List String → List String
  | [] => []
  | name :: rest =>
    let fresh := freshName used used.length name
    fresh :: distinctNames (used ++ [fresh]) rest

/-- The names under which the files of a schema are written. -/
def outputNames (s : Schema) : List String :=
  distinctNames [] ((List.range s.files.length).map s.fileName)

variable {m : Type → Type} [Monad m]

/-- Makes a directory and those on the way to it. -/
def makeDirectories (device : Device m) (path : String) : ExceptT Error m Unit := do
  match ← device.makeDirectories path with
  | .ok () => return
  | .error fault => throw (.noDirectory path fault)

/-- Writes a text to a file. -/
def writeText (device : Device m) (path text : String) : ExceptT Error m Unit := do
  match ← device.write path text.toUTF8 with
  | .ok () => return
  | .error fault => throw (.unwritable path fault)

/-- Writes each file of a schema into a directory; answers with the paths. -/
def writeFiles (s : Schema) (device : Device m) (directory : String) (layout : Layout) :
    ExceptT Error m (List String) := do
  makeDirectories device directory
  (s.files.zip s.outputNames).mapM fun (file, name) => do
    let path := Storage.Path.join directory name
    writeText device path (s.fileText layout file)
    return path

/-- Writes all files of a schema as one. -/
def writeCombined (s : Schema) (device : Device m) (path : String) (layout : Layout) :
    ExceptT Error m Unit := do
  match Storage.Path.parent? path with
  | some parent => if parent.isEmpty then pure () else makeDirectories device parent
  | none => pure ()
  writeText device path (s.combinedText layout)

end ProtoRecovery.Schema
