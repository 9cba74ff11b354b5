/-!
Paths as texts with slashes.

A segment counts unless it is empty or a dot; a dot that a relative path starts with counts too.
-/

namespace ProtoRecovery.Storage.Path

/-- Whether a path starts at the root. -/
def isAbsolute (path : String) : Bool := path.toList.head? == some '/'

/-- A path seen from a directory. -/
def join (directory path : String) : String :=
  if isAbsolute path || directory.isEmpty then path
  else if directory.toList.getLast? == some '/' then directory ++ path
  else directory ++ "/" ++ path

/-- Cuts characters at slashes; `acc` holds the segment so far, last character first. -/
def splitChars : List Char → (acc : List Char) → List String
  | [], acc => [String.ofList acc.reverse]
  | c :: rest, acc =>
    if c = '/' then String.ofList acc.reverse :: splitChars rest [] else splitChars rest (c :: acc)

/-- The texts between the slashes, empty ones included. -/
def segments (path : String) : List String := splitChars path.toList []

/-- The names on the way, as the system follows them. -/
def steps (path : String) : List String := (segments path).filter (!·.isEmpty)

/-- Whether nothing follows the last slash. -/
def endsInSlash (path : String) : Bool := path.toList.getLast? == some '/'

/-- Drops segments that do not count, from the last one back. `segs` is in reverse order. -/
def dropIdle (relative : Bool) : List String → List String
  | [] => []
  | [first] => if first.isEmpty || (first == "." && !relative) then [] else [first]
  | seg :: rest => if seg.isEmpty || seg == "." then dropIdle relative rest else seg :: rest

/-- The path without its last segment that counts. The root and the empty path have none. -/
def parent? (path : String) : Option String :=
  let relative := !isAbsolute path
  match dropIdle relative (segments path).reverse with
  | [] => none
  | _ :: rest =>
    match dropIdle relative rest with
    | [] => some (if relative then "" else "/")
    | kept => some ("/".intercalate kept.reverse)

/-- The last name of a path, if it is a plain name. -/
def name? (path : String) : Option String :=
  match dropIdle (!isAbsolute path) (segments path).reverse with
  | [] => none
  | seg :: _ => if seg == "." || seg == ".." then none else some seg

/-- What follows the last dot of a name that does not start with that dot. -/
def extension? (path : String) : Option String := do
  let name ← name? path
  let ending := name.toList.reverse.takeWhile (· != '.')
  if ending.length + 1 < name.toList.length then some (String.ofList ending.reverse) else none

end ProtoRecovery.Storage.Path
