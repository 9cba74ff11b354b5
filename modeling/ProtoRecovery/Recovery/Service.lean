import ProtoRecovery.Recovery.Attribute
import ProtoRecovery.Recovery.State
/-!
Services from their classes.

A service has a holder class with an abstract server class and a client class in it. Both tell the
whole service. A server method takes a request or a stream of them, and returns its response or
writes a stream of them. A client method returns its response, or a call that tells what is
streamed.
-/

namespace ProtoRecovery.Recovery

open Schema (DeclId Method Service)

variable {ρ : Type}

/-- The classes of a service. -/
structure Classes (ρ : Type) where
  holder : ρ
  /-- The class whose methods are read. -/
  implementation : ρ
  isClient : Bool

/-- The classes of a service, by its holder, its server or its client. -/
def classify (c : Catalog ρ) (t : ρ) : Catalog.Search ρ (Classes ρ) := do
  if c.isHolder t then
    let nested ← c.nestedOf t
    match nested.find? fun n => c.isAbstract n && !c.isSealed n with
    | some server => return ⟨t, server, false⟩
    | none =>
      match nested.find? fun n => c.isClass n && !c.isAbstract n with
      | some client => return ⟨t, client, true⟩
      | none => throw (.misfit (c.fullName t) .noServerNorClient)
  else
    match ← c.declaringOf? t with
    | some holder => return ⟨holder, t, !c.isAbstract t⟩
    | none => throw (.misfit (c.fullName t) .notInHolder)

/-- What a method takes and gives. -/
structure Shape (ρ : Type) where
  request : ρ
  response : ρ
  requestStreamed : Bool
  responseStreamed : Bool

/-- The type that a client method returns if it has a twin that waits. -/
def asyncCallName : String := "AsyncUnaryCall\x601"

/-- The type that a client method returns if both sides stream. -/
def duplexCallName : String := "AsyncDuplexStreamingCall\x602"

/-- The error of a method without a parameter that it needs. -/
def missingParameter (c : Catalog ρ) (t : ρ) (m : Catalog.Method ρ) (what : String) : Error :=
  .misfit (c.fullName t) (.missingParameter m.name what)

/-- The first parameter of a method. -/
def requestParameter (c : Catalog ρ) (t : ρ) (m : Catalog.Method ρ) : Catalog.Search ρ ρ := do
  match ← c.parametersOf m with
  | first :: _ => return first
  | [] => throw (missingParameter c t m "request")

/-- The shape of a client method; the twin that does not wait has none. -/
def clientShape? (c : Catalog ρ) (t : ρ) (m : Catalog.Method ρ) :
    Catalog.Search ρ (Option (Shape ρ)) := do
  let returned ← c.returnTypeOf m
  if c.name returned == asyncCallName then return none
  match ← c.argumentsOf returned with
  | [request, response] =>
    return some ⟨request, response, true, c.name returned == duplexCallName⟩
  | [response] => return some ⟨← requestParameter c t m, response, false, true⟩
  | [] => return some ⟨← requestParameter c t m, returned, false, false⟩
  | _ => throw (.misfit (c.fullName t) (.unknownCall m.name))

/-- The argument of a type that has just one. -/
def onlyArgument? (c : Catalog ρ) (t : ρ) : Catalog.Look ρ (Option ρ) := do
  match ← c.argumentsOf t with
  | [argument] => return some argument
  | _ => return none

/-- The shape of a server method. -/
def serverShape (c : Catalog ρ) (t : ρ) (m : Catalog.Method ρ) : Catalog.Search ρ (Shape ρ) := do
  match ← c.parametersOf m with
  | [] => throw (missingParameter c t m "request")
  | first :: others =>
    let element ← onlyArgument? c first
    let returned ← c.returnTypeOf m
    match ← onlyArgument? c returned with
    | some response => return ⟨element.getD first, response, element.isSome, false⟩
    | none =>
      match others with
      | [] => throw (missingParameter c t m "response writer")
      | writer :: _ =>
        match ← onlyArgument? c writer with
        | some response => return ⟨element.getD first, response, element.isSome, true⟩
        | none => throw (missingParameter c t m "response writer")

/-- The shape of a method of either side. -/
def shape? (c : Catalog ρ) (isClient : Bool) (t : ρ) (m : Catalog.Method ρ) :
    Catalog.Search ρ (Option (Shape ρ)) := do
  if isClient then clientShape? c t m else return some (← serverShape c t m)

/-- Whether a method can be called from outside on an object of its own class. -/
def isCallable (m : Catalog.Method ρ) : Bool :=
  !m.isInherited && m.isPublic && !m.isStatic && !m.isConstructor

/-- The attributes and the shape of a method, if it is one of the service. -/
def tellMethod (env : Setting ρ) (classes : Classes ρ) (m : Catalog.Method ρ) :
    Catalog.Search ρ (Option (List (Catalog.Attribute ρ) × Shape ρ)) := do
  let c := env.catalog
  let attributes ← c.readAttributes m.attributes
  let isWanted ← if env.options.allMethods then pure true else liftM (isGenerated c attributes)
  if isWanted then
    return (← shape? c classes.isClient classes.implementation m).map (attributes, ·)
  else return none

/-- Adds a method of a shape. Of methods with one name the first counts. -/
def addShaped (env : Setting ρ) (calls : Calls ρ) (id : DeclId) (m : Catalog.Method ρ)
    (service : Service) :
    Option (List (Catalog.Attribute ρ) × Shape ρ) → Recover ρ Service
  | none => return service
  | some (attributes, shape) => do
    let name := Identifier.typeName env.names m.name
    if service.hasMethod name then return service
    else
      let method : Method :=
        { name
          request := ← calls.fieldType id shape.request
          response := ← calls.fieldType id shape.response
          requestStreamed := shape.requestStreamed
          responseStreamed := shape.responseStreamed
          isDeprecated := hasAttribute env.catalog attributes obsoleteAttribute }
      return ⟨service.methods ++ [method]⟩

/-- Adds a method to a service. -/
def addMethod (env : Setting ρ) (calls : Calls ρ) (classes : Classes ρ) (id : DeclId)
    (m : Catalog.Method ρ) (service : Service) : Recover ρ Service := do
  addShaped env calls id m service (← search (tellMethod env classes m))

/-- Adds methods to a service. -/
def addMethods (env : Setting ρ) (calls : Calls ρ) (classes : Classes ρ) (id : DeclId) :
    List (Catalog.Method ρ) → Service → Recover ρ Service :=
  stepThrough fun m _ => addMethod env calls classes id m

/-- Gives a service its methods. -/
def finishService (schema : Schema) (id : DeclId) (service : Service) : Schema :=
  schema.modifyDecl id fun d =>
    match d.body with
    | .service _ => { d with body := .service service }
    | _ => d

/-- Recovers a service. -/
def service (env : Setting ρ) (calls : Calls ρ) (t : ρ) : Recover ρ DeclId := do
  let c := env.catalog
  let classes ← search (classify c t)
  match ← known? (c.fullName classes.holder) with
  | some id => return id
  | none =>
    let name := Identifier.typeName env.names (c.name classes.holder)
    let attributes ← search (c.readAttributes (c.attributes classes.holder))
    let isDeprecated := hasAttribute c attributes obsoleteAttribute
    let id ← declare (c.fullName classes.holder) name isDeprecated (.service {})
    startFile c classes.holder id
    let methods ← look (c.methods classes.implementation)
    let service ← addMethods env calls classes id (methods.filter isCallable) {}
    change (finishService · id service)
    return id

end ProtoRecovery.Recovery
