import ProtoRecovery.Catalog.Basic
/-!
The types worth examining: messages, and the two sides of services.

Each kind is told by a marker: an interface, a base class or an attribute of the libraries that
generated code rests on.
-/

namespace ProtoRecovery.Catalog

variable {ρ : Type}

/-- A type that others are told by, and the assembly it is in. -/
structure Marker where
  fullName : String
  assembly : String
deriving DecidableEq, Repr

/-- What every message implements. -/
def messageMarker : Marker := ⟨"Google.Protobuf.IMessage", "Google.Protobuf"⟩

/-- What every client derives from. -/
def clientMarker : Marker := ⟨"Grpc.Core.ClientBase", "Grpc.Core.Api"⟩

/-- The attribute of every server. -/
def serverMarker : Marker := ⟨"Grpc.Core.BindServiceMethodAttribute", "Grpc.Core.Api"⟩

/-- The type of a marker: a loaded one, or else the one in its assembly. -/
def markerType (c : Catalog ρ) (m : Marker) : Search ρ ρ := do
  match c.loaded.find? (c.fullName · == m.fullName) with
  | some t => return t
  | none =>
    match c.find m.fullName m.assembly with
    | .ok r => c.resolve r
    | .error e => throw e

/-- The types that a test holds of, in order. -/
def select (test : ρ → Search ρ Bool) : List ρ → Search ρ (List ρ)
  | [] => return []
  | t :: rest => do
    let keep ← test t
    let kept ← select test rest
    return if keep then t :: kept else kept

/-- The namespace of the library that messages rest on. -/
def runtimeNamespace : String := "Google.Protobuf"

/-- Whether a namespace starts like that of the library. -/
def isRuntime (name : String) : Bool := runtimeNamespace.toList.isPrefixOf name.toList

/-- Whether a class is sealed, not nested, not of the library itself and has the marker. -/
def isMessageCandidate (c : Catalog ρ) (marker t : ρ) : Search ρ Bool := do
  if c.isNested t || !c.isSealed t || (c.namespaceName? t).any isRuntime then return false
  else c.isAssignable t marker

/-- Message classes. -/
def messages (c : Catalog ρ) : Search ρ (List ρ) := do
  let marker ← c.markerType messageMarker
  select (c.isMessageCandidate marker) c.loaded

/-- Whether a class is nested, not abstract and has the marker. -/
def isClientCandidate (c : Catalog ρ) (marker t : ρ) : Search ρ Bool := do
  if !c.isNested t || c.isAbstract t then return false else c.isAssignable t marker

/-- Client classes. -/
def clients (c : Catalog ρ) : Search ρ (List ρ) := do
  let marker ← c.markerType clientMarker
  select (c.isClientCandidate marker) c.loaded

/-- Whether a class is an abstract one in a holder and has the marker as an attribute. -/
def isServerCandidate [DecidableEq ρ] (c : Catalog ρ) (marker t : ρ) : Search ρ Bool := do
  if !c.isNested t || !c.isAbstract t then return false
  match ← c.declaringOf? t with
  | none => return false
  | some holder =>
    if !c.isHolder holder then return false
    return (← c.readAttributes (c.attributes t)).any (·.type = marker)

/-- Server classes. -/
def servers [DecidableEq ρ] (c : Catalog ρ) : Search ρ (List ρ) := do
  let marker ← c.markerType serverMarker
  select (c.isServerCandidate marker) c.loaded

end ProtoRecovery.Catalog
