import ProtoRecovery.Number.Binary
/-!
Where the attributes of a member are: how metadata of a version keeps them, and the search for a
member's token in a table.
-/

namespace ProtoRecovery.Blob

open Number (Binary32)

/-- How metadata keeps attributes. -/
inductive Layout where
  /-- A member has the index of its run of attribute types. -/
  | directIndex
  /-- Runs of attribute types are found by token. -/
  | typeRanges
  /-- Blobs with arguments are found by token. -/
  | dataBlobs
deriving DecidableEq, Repr

namespace Layout

/-- The first version with blobs, 29. -/
def firstBlobVersion : Binary32 := .ofInt 29

/-- The last version with direct indices, 24. -/
def lastDirectVersion : Binary32 := .ofInt 24

/-- The layout of a version. -/
def ofVersion (version : Binary32) : Layout :=
  if firstBlobVersion.le version then .dataBlobs
  else if version.le lastDirectVersion then .directIndex
  else .typeRanges

/-- Whether attributes have arguments. -/
def hasArguments (l : Layout) : Bool := l = .dataBlobs

end Layout

/-- Halves a window until one place is left: the last whose token is not larger, if the tokens
ascend. -/
def narrow (tokens : List UInt32) (token : UInt32) (base size : Nat) : Nat :=
  if size ≤ 1 then base
  else
    let half := size / 2
    let above := (tokens[base + half]?).all (token < ·)
    narrow tokens token (if above then base else base + half) (size - half)
termination_by size

/-- The place of a token among tokens that ascend. -/
def search (tokens : List UInt32) (token : UInt32) : Option Nat :=
  let place := narrow tokens token 0 tokens.length
  if tokens[place]? = some token then some place else none

/-- The place of a token in a window of a table; a window that is not inside the table has none. -/
def findToken (tokens : List UInt32) (token : UInt32) (start count : Nat) : Option Nat :=
  if start + count ≤ tokens.length then
    (search ((tokens.drop start).take count) token).map (start + ·)
  else none

end ProtoRecovery.Blob
