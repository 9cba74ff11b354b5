import ProtoRecovery.Command.Run
/-!
The command line program: commands on the file system of the machine.
-/

namespace ProtoRecovery.Command

open Storage (Device EntryKind SystemFault)

/-- Why the system refused. -/
def faultOf : IO.Error → SystemFault
  | .noFileOrDirectory .. => .noEntry
  | .alreadyExists .. => .alreadyExists
  | .inappropriateType _ code details =>
    if code = 20 then .notDirectory
    else if code = 21 then .isDirectory
    else .other details
  | .invalidArgument _ code details => if code = 36 then .nameTooLong else .other details
  | e => .other (toString e)

/-- The result of an action, or why the system refused it. -/
def attempt {α : Type} (action : IO α) : IO (Except SystemFault α) := do
  match ← action.toBaseIO with
  | .ok a => return .ok a
  | .error e => return .error (faultOf e)

/-- What is at a path. -/
def kindAt (path : String) : IO EntryKind := do
  match (← (← IO.FS.realPath path).metadata).type with
  | .dir => return .directory
  | _ => return .file

/-- The names in a directory. -/
def namesIn (path : String) : IO (List String) := do
  return (← (← IO.FS.realPath path).readDir).toList.map (·.fileName)

/-- The file system of the machine. -/
def machine : Device IO where
  kind? path := return (← attempt (kindAt path)).toOption
  read path := attempt (IO.FS.readBinFile path)
  write path content := attempt (IO.FS.writeBinFile path content)
  makeDirectory path := attempt (IO.FS.createDir path)
  list path := return (← attempt (namesIn path)).toOption.getD []

end ProtoRecovery.Command

/-- Runs the command line, prints what it has to tell and ends with its code. -/
def main (arguments : List String) : IO UInt32 := do
  let outcome ← ProtoRecovery.Command.run ProtoRecovery.Command.machine arguments
  outcome.output.forM IO.println
  match outcome.failure with
  | some failure => failure.report.forM IO.eprintln
  | none => if outcome.code = 2 then ProtoRecovery.Command.usage.forM IO.eprintln
  return outcome.code.toUInt32
