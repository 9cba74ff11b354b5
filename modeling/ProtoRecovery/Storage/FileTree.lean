import ProtoRecovery.Storage.Device
import ProtoRecovery.Text.Utf8
/-!
A file system in memory.

Entries are kept by the names that lead to them from the root, and every relative path starts at
the root. A name may have at most 255 bytes, and a path 4095.
-/

namespace ProtoRecovery.Storage

/-- A file or a directory. -/
inductive Entry where
  | file (content : ByteArray)
  | directory
deriving Inhabited

/-- Entries by the names that lead to them. The root is always there. -/
structure FileTree where
  entries : List (List String × Entry) := []
deriving Inhabited

namespace FileTree

/-- The entry at the end of a way. -/
def get? (t : FileTree) (way : List String) : Option Entry :=
  if way.isEmpty then some .directory else t.entries.lookup way

/-- Puts an entry at the end of a way, in place of what is there. -/
def put (t : FileTree) (way : List String) (e : Entry) : FileTree :=
  if (t.entries.lookup way).isSome then
    ⟨t.entries.map fun (w, old) => if w == way then (w, e) else (w, old)⟩
  else ⟨t.entries ++ [(way, e)]⟩

/-- Whether a way ends at a directory. -/
def isDirectory (t : FileTree) (way : List String) : Bool :=
  match t.get? way with
  | some .directory => true
  | _ => false

/-- The longest name, in bytes. -/
def nameLimit : Nat := 255

/-- Follows one name out of a directory. -/
def step (t : FileTree) (way : List String) (name : String) : Except SystemFault (List String) :=
  if !t.isDirectory way then .error .notDirectory
  else if name == "." then .ok way
  else if name == ".." then .ok way.dropLast
  else if nameLimit < name.utf8ByteSize then .error .nameTooLong
  else if (t.get? (way ++ [name])).isSome then .ok (way ++ [name])
  else .error .noEntry

/-- The longest path, in bytes. -/
def pathLimit : Nat := 4095

/-- Refuses paths that no system call takes. -/
def checkPath (path : String) : Except SystemFault Unit :=
  if path.toList.contains '\x00' then .error .zeroByteInName
  else if pathLimit < path.utf8ByteSize then .error .nameTooLong
  else if path.isEmpty then .error .noEntry
  else .ok ()

/-- The way that a path leads, if all on it is there. -/
def resolve (t : FileTree) (path : String) : Except SystemFault (List String) := do
  checkPath path
  let way ← (Path.steps path).foldlM t.step []
  if Path.endsInSlash path && !t.isDirectory way then .error .notDirectory else .ok way

/-- The directory that a path's last name is in, and that name. -/
def resolveLast (t : FileTree) (path : String) :
    Except SystemFault (List String × Option String) := do
  checkPath path
  let steps := Path.steps path
  let way ← steps.dropLast.foldlM t.step []
  if t.isDirectory way then .ok (way, steps.getLast?) else .error .notDirectory

/-- Makes a directory. -/
def makeDirectory (t : FileTree) (path : String) : Except SystemFault FileTree := do
  let (way, last) ← t.resolveLast path
  match last with
  | none => .error .alreadyExists
  | some name =>
    if name == "." || name == ".." then .error .alreadyExists
    else
      match t.step way name with
      | .ok _ => .error .alreadyExists
      | .error .noEntry => .ok (t.put (way ++ [name]) .directory)
      | .error fault => .error fault

/-- Makes a file, or replaces its content. -/
def write (t : FileTree) (path : String) (content : ByteArray) : Except SystemFault FileTree := do
  let (way, last) ← t.resolveLast path
  match last with
  | none => .error .isDirectory
  | some name =>
    if name == "." || name == ".." || Path.endsInSlash path then .error .isDirectory
    else
      match t.step way name with
      | .ok found =>
        if t.isDirectory found then .error .isDirectory else .ok (t.put found (.file content))
      | .error .noEntry => .ok (t.put (way ++ [name]) (.file content))
      | .error fault => .error fault

/-- The content of a file. -/
def read (t : FileTree) (path : String) : Except SystemFault ByteArray := do
  match t.get? (← t.resolve path) with
  | some (.file content) => .ok content
  | _ => .error .isDirectory

/-- What is at a path. -/
def kind? (t : FileTree) (path : String) : Option EntryKind :=
  match t.resolve path with
  | .ok way => some (if t.isDirectory way then .directory else .file)
  | .error _ => none

/-- The names in a directory. -/
def list (t : FileTree) (path : String) : List String :=
  match t.resolve path with
  | .ok way => t.entries.filterMap fun (w, _) => if w.dropLast == way then w.getLast? else none
  | .error _ => []

/-- Makes the directories on a way, and puts an entry at its end. -/
def plant (t : FileTree) (way : List String) (e : Entry) : FileTree :=
  let t := (List.range way.length).foldl
    (fun t n => if n == 0 || t.isDirectory (way.take n) then t else t.put (way.take n) .directory) t
  t.put way e

/-- The files with their paths and contents. -/
def files (t : FileTree) : List (String × ByteArray) :=
  t.entries.filterMap fun (way, e) =>
    match e with
    | .file content => some ("/".intercalate way, content)
    | .directory => none

/-- Carries out a change, unless it is refused. -/
def change (f : FileTree → Except SystemFault FileTree) :
    StateM FileTree (Except SystemFault Unit) :=
  fun t =>
    match f t with
    | .ok t => (.ok (), t)
    | .error fault => (.error fault, t)

/-- The file tree as a file system. -/
def device : Device (StateM FileTree) where
  kind? path := return (← get).kind? path
  read path := return (← get).read path
  write path content := change (·.write path content)
  makeDirectory path := change (·.makeDirectory path)
  list path := return (← get).list path

end FileTree

end ProtoRecovery.Storage
