/-!
Why the file system refuses an operation.
-/

namespace ProtoRecovery.Storage

/-- A refusal of the file system. -/
inductive SystemFault where
  | noEntry
  | alreadyExists
  | notDirectory
  | isDirectory
  | nameTooLong
  | zeroByteInName
  | other (text : String)
deriving DecidableEq, Repr

/-- The system's description of a refusal. -/
def SystemFault.message : SystemFault → String
  | .noEntry => "No such file or directory (os error 2)"
  | .alreadyExists => "File exists (os error 17)"
  | .notDirectory => "Not a directory (os error 20)"
  | .isDirectory => "Is a directory (os error 21)"
  | .nameTooLong => "File name too long (os error 36)"
  | .zeroByteInName => "file name contained an unexpected NUL byte"
  | .other text => text

end ProtoRecovery.Storage
