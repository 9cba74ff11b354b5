import ProtoRecovery.Command.Arguments
import ProtoRecovery.Command.Failure
import ProtoRecovery.Dump.Basic
import ProtoRecovery.Il2cpp.Catalog
import ProtoRecovery.Managed.Catalog
import ProtoRecovery.Recovery.Run
import ProtoRecovery.Schema.Output
/-!
What a command does: read metadata, recover a schema, write it.
-/

namespace ProtoRecovery.Command

open Storage (Device)
open Recovery (Recover Setting State)

variable {m : Type → Type} [Monad m]

/-- A step of a command. It may print lines, and those stay if it fails later. -/
abbrev Run (m : Type → Type) := ExceptT Failure (StateT (List String) m)

/-- Asks the file system. -/
def ask {α : Type} (question : m α) : Run m α := ExceptT.lift (StateT.lift question)

/-- Prints a line. -/
def print (line : String) : Run m Unit := modify (· ++ [line])

/-- Tells during what an error arose. -/
def during {α : Type} (stage : Stage) : Except Error α → Run m α
  | .ok a => return a
  | .error e => throw (.during stage e)

/-- The text of a file. Bytes that are no text are no dump either. -/
def readText (device : Device m) (path : String) : m (Except Error String) := do
  match ← device.read path with
  | .error fault => return .error (.unreadable path fault)
  | .ok bytes =>
    match String.fromUTF8? bytes with
    | some text => return .ok text
    | none => return .error .unreadableDump

/-- The dump in a file. -/
def readDump (device : Device m) (path : String) : Run m Dump := do
  let text ← ask (readText device path)
  during (.reading path) (text >>= Dump.read)

/-! ## Reading metadata -/

/-- How deep directories are searched. No path is long enough for more. -/
def searchDepth : Nat := 4096

/-- Whether the name of a file is that of a dump: it is not hidden and ends in `json`. -/
def isDumpName (path : String) : Bool :=
  !((Storage.Path.name? path).any fun name => name.toList.head? == some '.') &&
    (Storage.Path.extension? path).any (·.toLower == "json")

/-- The dumps among paths. -/
def dumpFiles (device : Device m) : List String → m (List String)
  | [] => return []
  | path :: rest => do
    let kind ← device.kind? path
    let others ← dumpFiles device rest
    return if kind == some .file && isDumpName path then path :: others else others

/-- The assemblies in dumps: those to be examined, and those that support them. -/
def readAssemblies (device : Device m) :
    List String → Run m (List Managed.Assembly × List Managed.Assembly)
  | [] => return ([], [])
  | path :: rest => do
    match ← readDump device path with
    | .managed targets supports =>
      let (otherTargets, otherSupports) ← readAssemblies device rest
      return (targets ++ otherTargets, supports ++ otherSupports)
    | dump => throw (.otherKind path dump.kindName "clr")

/-- The assemblies of a dump, or of all dumps in a directory. -/
def readLibrary (device : Device m) (target : String) : Run m Managed.Library := do
  let paths ← match ← ask (device.kind? target) with
    | none => throw (.missingTarget target)
    | some .directory => do
      let found ← ask (device.walk searchDepth target)
      ask (dumpFiles device found)
    | some .file => pure [target]
  let (targets, supports) ← readAssemblies device paths
  if targets.isEmpty then throw (.noAssemblies target)
  during (.loading target) (Managed.Library.load targets supports)

/-- The tables of a dump. -/
def readStore (device : Device m) (metadata : String) (version : Option Number.Binary32) :
    Run m Il2cpp.Store := do
  match ← readDump device metadata with
  | .il2cpp tables =>
    during (.checking metadata)
      (Il2cpp.Store.load { tables with version := version.getD tables.version })
  | dump => throw (.otherKind metadata dump.kindName "il2cpp")

/-- The dictionary in a file. -/
def readNames (device : Device m) : Option String → Run m (Option Identifier.Dictionary)
  | none => return none
  | some path => do
    let text ← ask (readText device path)
    let names := text >>= fun text =>
      match (Json.read? text).bind Identifier.Dictionary.ofJson? with
      | some names => .ok names
      | none => .error .unreadableDump
    return some (← during (.readingNames path) names)

/-! ## Recovering -/

/-- Part of a recovery that fails with a stage. -/
abbrev Part (ρ : Type) := ExceptT Failure (StateM (State ρ))

/-- Tells during what a step of a recovery failed. -/
def stage {ρ α : Type} (stage : Stage) (step : Recover ρ α) : Part ρ α := do
  match ← (ExceptT.lift step.run : Part ρ (Except Error α)) with
  | .ok a => return a
  | .error e => throw (.during stage e)

/-- Recovers types in order. -/
def recoverEach {ρ : Type} (c : Catalog ρ) (label : String → Stage)
    (recover : ρ → Recover ρ Schema.DeclId) (types : List ρ) : Part ρ Unit :=
  types.forM fun t => do
    let _ ← stage (label (c.fullName t)) (recover t)

/-- Recovers all messages, and services as far as they are asked for. -/
def recoverAll {ρ : Type} [DecidableEq ρ] (request : Request) (env : Setting ρ) :
    Part ρ Unit := do
  let c := env.catalog
  let messages ← stage .listingMessages (Recovery.search c.messages)
  recoverEach c .message (Recovery.recoverMessage env) messages
  if request.servers then
    let servers ← stage .listingServers (Recovery.search c.servers)
    recoverEach c .service (Recovery.recoverService env) servers
  if request.clients then
    let clients ← stage .listingClients (Recovery.search c.clients)
    recoverEach c .service (Recovery.recoverService env) clients

/-- The schema of a catalog. -/
def recover {ρ : Type} [DecidableEq ρ] (device : Device m) (request : Request)
    (catalog : Catalog ρ) : Run m Schema := do
  let names ← readNames device request.names
  let env : Setting ρ := { catalog, names, options := request.options }
  match (recoverAll request env).run.run (Recovery.start catalog) with
  | (.ok (), s) => return s.schema
  | (.error failure, _) => throw failure

/-! ## Writing -/

/-- Writes a schema: its files into a directory that is there, or else all as one file. -/
def writeSchema (device : Device m) (output : String) (schema : Schema) : Run m Unit := do
  if ← ask (device.isDirectory output) then
    let written ← ask (schema.writeFiles device output {}).run
    for path in ← during (.writing output) written do
      print ("Wrote " ++ path)
  else
    let written ← ask (schema.writeCombined device output {}).run
    during (.writing output) written
    print ("Wrote " ++ output)

/-- Writes the descriptors of a schema, if they are asked for. -/
def writeDescriptors (device : Device m) (schema : Schema) : Option String → Run m Unit
  | none => return
  | some path => do
    let bytes := ByteArray.mk (Schema.Wire.files schema.descriptors).toArray
    match ← ask (device.write path bytes) with
    | .ok () => print ("Wrote " ++ path)
    | .error fault => throw (.unwrittenDescriptors path fault)

/-- Does what is asked for. -/
def perform (device : Device m) (request : Request) : Run m Unit := do
  let schema ← match request.source with
    | .managed target => do recover device request (← readLibrary device target).catalog
    | .il2cpp metadata version => do
      recover device request (← readStore device metadata version).catalog
  writeSchema device request.output schema
  writeDescriptors device schema request.descriptors

/-! ## Whole commands -/

/-- What a command leaves besides files. -/
structure Outcome where
  code : Nat
  output : List String := []
  failure : Option Failure := none

/-- The version of the program, or of one of its commands. -/
def versionLine : Option String → String
  | none => "cilproto 0.1.0"
  | some command => "cilproto-" ++ command ++ " 0.1.0"

/-- How the program is called. -/
def usage : List String :=
  ["Usage: cilproto [OPTIONS] <COMMAND>",
    "",
    "Commands:",
    "  clr     Decompile from reflection-style assembly dumps: clr <TARGET> <OUT>",
    "  il2cpp  Decompile from an IL2CPP metadata dump: il2cpp <METADATA> <OUT>",
    "  help    Print this message"]

/-- Runs a command line. -/
def run (device : Device m) (arguments : List String) : m Outcome := do
  match read arguments with
  | .error .help => return { code := 0, output := usage }
  | .error (.version command) => return { code := 0, output := [versionLine command] }
  | .error .misuse => return { code := 2 }
  | .ok request =>
    match ← ((perform device request).run).run [] with
    | (.ok (), output) => return { code := 0, output }
    | (.error failure, output) => return { code := 1, output, failure := some failure }

end ProtoRecovery.Command
