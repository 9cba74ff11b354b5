import ProtoRecovery.Storage.Path
import ProtoRecovery.Storage.SystemFault
/-!
What is asked of a file system, and what is built on it.
-/

namespace ProtoRecovery.Storage

/-- What a path leads to. -/
inductive EntryKind where
  | file
  | directory
deriving DecidableEq, Repr

/-- A file system. -/
structure Device (m : Type → Type) where
  /-- What is at a path. -/
  kind? : String → m (Option EntryKind)
  /-- The content of a file. -/
  read : String → m (Except SystemFault ByteArray)
  /-- Makes a file, or replaces its content. -/
  write : String → ByteArray → m (Except SystemFault Unit)
  /-- Makes a directory in one that is there. -/
  makeDirectory : String → m (Except SystemFault Unit)
  /-- The names in a directory. -/
  list : String → m (List String)

namespace Device

variable {m : Type → Type} [Monad m]

/-- Whether a path leads to a directory. -/
def isDirectory (device : Device m) (path : String) : m Bool :=
  return (← device.kind? path) == some .directory

/-- Makes a directory unless it is there already. -/
def makeOrKeep (device : Device m) (path : String) : m (Except SystemFault Unit) := do
  match ← device.makeDirectory path with
  | .ok () => return .ok ()
  | .error fault => if ← device.isDirectory path then return .ok () else return .error fault

/-- Makes a directory and those on the way to it, at most `depth` of them. -/
def makeWithin (device : Device m) : (depth : Nat) → String → m (Except SystemFault Unit)
  | 0, path => device.makeOrKeep path
  | depth + 1, path => do
    if path.isEmpty then return .ok ()
    match ← device.makeOrKeep path with
    | .error .noEntry =>
      match Path.parent? path with
      | none => return .error (.other "failed to create whole tree")
      | some parent =>
        match ← device.makeWithin depth parent with
        | .ok () => device.makeOrKeep path
        | .error fault => return .error fault
    | result => return result

/-- Makes a directory and those on the way to it, as far as they are not there. -/
def makeDirectories (device : Device m) (path : String) : m (Except SystemFault Unit) :=
  device.makeWithin (Path.segments path).length path

/-- The paths below a directory, each directory before what is in it and names in order, to a
depth. -/
def walk (device : Device m) : (depth : Nat) → String → m (List String)
  | 0, _ => return []
  | depth + 1, path => do
    let names := (← device.list path).mergeSort fun a b => a < b || a == b
    let below ← names.mapM fun name => do
      let entry := Path.join path name
      if ← device.isDirectory entry then return entry :: (← device.walk depth entry)
      else return [entry]
    return below.flatten

end Device

end ProtoRecovery.Storage
