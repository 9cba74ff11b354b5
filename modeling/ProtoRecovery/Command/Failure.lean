import ProtoRecovery.Error
/-!
How a command fails.
-/

namespace ProtoRecovery.Command

open Storage (SystemFault)

/-- What was being done. -/
inductive Stage where
  | reading (path : String)
  | loading (target : String)
  | checking (metadata : String)
  | readingNames (path : String)
  | listingMessages
  | listingServers
  | listingClients
  | message (type : String)
  | service (type : String)
  | writing (path : String)
deriving DecidableEq, Repr

/-- A description of what was being done. -/
def Stage.text : Stage → String
  | .reading path => "Failed to read metadata dump: " ++ path
  | .loading target => "Failed to load assemblies from " ++ target
  | .checking metadata => "Invalid metadata dump: " ++ metadata
  | .readingNames path => "Failed to read name map: " ++ path
  | .listingMessages => "Failed to list message types"
  | .listingServers => "Failed to list service servers"
  | .listingClients => "Failed to list service clients"
  | .message type => "Failed to decompile message " ++ type
  | .service type => "Failed to decompile service " ++ type
  | .writing path => "Failed to write output to " ++ path

/-- Why a command fails. -/
inductive Failure where
  | missingTarget (path : String)
  | noAssemblies (target : String)
  | otherKind (path found expected : String)
  | during (stage : Stage) (cause : Error)
  | unwrittenDescriptors (path : String) (cause : SystemFault)
deriving DecidableEq, Repr

namespace Failure

/-- What is told about a failure, from the whole to the cause. -/
def links : Failure → List String
  | .missingTarget path => ["Target does not exist: " ++ path]
  | .noAssemblies target => ["No assemblies found in " ++ target]
  | .otherKind path found expected => [s!"{path} is a {found} dump, expected {expected}"]
  | .during stage cause => [stage.text, cause.message] ++ (cause.cause?.map (·.message)).toList
  | .unwrittenDescriptors path cause =>
    ["Failed to write descriptor set: " ++ path, cause.message]

/-- The lines that report a failure: the causes below the whole, numbered if there are several. -/
def report (f : Failure) : List String :=
  match f.links with
  | [] => []
  | [whole] => ["Error: " ++ whole]
  | [whole, cause] => ["Error: " ++ whole, "", "Caused by:", "    " ++ cause]
  | whole :: causes =>
    ["Error: " ++ whole, "", "Caused by:"] ++ causes.mapIdx fun i cause => s!"    {i}: {cause}"

end Failure

end ProtoRecovery.Command
