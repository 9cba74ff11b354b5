import ProtoRecovery.Proofs.Managed.Generated
import ProtoRecovery.Proofs.Managed.Key
import ProtoRecovery.Recovery.Service
/-!
# Service classes that a generator makes

A service is generated as a holder class with a server class and a client class in it. Their methods tell each call in
two ways: the server by what it takes and returns, the client by the call type that it returns.
-/

namespace ProtoRecovery.Managed

open Catalog (Pool)
open Recovery (Shape asyncCallName duplexCallName missingParameter requestParameter onlyArgument? clientShape?
  serverShape shape?)

namespace Generated

/-- Which sides of a call stream. -/
inductive CallKind where
  | unary
  | serverStreaming
  | clientStreaming
  | duplexStreaming
deriving DecidableEq

/-- A call to generate: its name, and the classes of its request and its response. -/
structure Call where
  name : String
  request : String
  response : String
  kind : CallKind

/-- A service to generate. -/
structure Service where
  name : String
  namespaceName : Option String := none
  declaringType : Option String := none
  isObsolete : Bool := false
  calls : List Call := []

/-- A type applied to classes. -/
def generic (name : String) (arguments : List String) : TypeRef := ⟨name, arguments.map .named⟩

/-- What a method of a server returns if it does not stream. -/
def task (response : String) : TypeRef := generic "System.Threading.Tasks.Task\x601" [response]

/-- What a method of a server returns if it streams. -/
def plainTask : TypeRef := .named "System.Threading.Tasks.Task"

/-- Where a server reads a stream of requests. -/
def reader (request : String) : TypeRef := generic "Grpc.Core.IAsyncStreamReader\x601" [request]

/-- Where a server writes a stream of responses. -/
def writer (response : String) : TypeRef := generic "Grpc.Core.IServerStreamWriter\x601" [response]

/-- What a server knows of a call. -/
def context : TypeRef := .named "Grpc.Core.ServerCallContext"

/-- How a client makes a call. -/
def callOptions : TypeRef := .named "Grpc.Core.CallOptions"

/-- A method with the mark of generated code. -/
def callMethod (name : String) (returnType : TypeRef) (parameters : List TypeRef) : MethodRecord where
  name
  returnType
  parameters
  isPublic := true
  isVirtual := true
  attributes := [⟨Recovery.generatedCodeAttribute, [.string (some Recovery.serviceGenerator)]⟩]

/-- The method of the server. -/
def Call.server (m : Call) : MethodRecord :=
  match m.kind with
  | .unary => callMethod m.name (task m.response) [.named m.request, context]
  | .serverStreaming => callMethod m.name plainTask [.named m.request, writer m.response, context]
  | .clientStreaming => callMethod m.name (task m.response) [reader m.request, context]
  | .duplexStreaming => callMethod m.name plainTask [reader m.request, writer m.response, context]

/-- The call type that a client's method returns, without its namespace. -/
def CallKind.typeName : CallKind → String
  | .unary => asyncCallName
  | .serverStreaming => "AsyncServerStreamingCall\x601"
  | .clientStreaming => "AsyncClientStreamingCall\x602"
  | .duplexStreaming => duplexCallName

/-- The full name of a call type. -/
def CallKind.typeFullName (kind : CallKind) : String := "Grpc.Core." ++ kind.typeName

/-- The methods of the client. A unary call has two that wait, and one that does not. -/
def Call.client (m : Call) : List MethodRecord :=
  match m.kind with
  | .unary =>
    [callMethod m.name (.named m.response) [.named m.request, .named "Grpc.Core.Metadata", .named "System.DateTime"],
     callMethod m.name (.named m.response) [.named m.request, callOptions],
     callMethod (m.name ++ "Async") (generic (CallKind.typeFullName .unary) [m.response])
       [.named m.request, callOptions]]
  | .serverStreaming =>
    [callMethod m.name (generic (CallKind.typeFullName .serverStreaming) [m.response]) [.named m.request, callOptions]]
  | .clientStreaming =>
    [callMethod m.name (generic (CallKind.typeFullName .clientStreaming) [m.request, m.response]) [callOptions]]
  | .duplexStreaming =>
    [callMethod m.name (generic (CallKind.typeFullName .duplexStreaming) [m.request, m.response]) [callOptions]]

namespace Service
variable (S : Service)

/-- The holder class. -/
def holder : Definition where
  name := S.name
  namespaceName := S.namespaceName
  declaringType := S.declaringType
  baseType := some (.named "System.Object")
  isAbstract := true
  isSealed := true
  attributes := if S.isObsolete then [⟨Recovery.obsoleteAttribute, []⟩] else []

/-- The server class. -/
def server : Definition where
  name := S.name ++ "Base"
  declaringType := some S.holder.fullName
  baseType := some (.named "System.Object")
  isAbstract := true
  methods := S.calls.map (·.server)
  attributes := [⟨"Grpc.Core.BindServiceMethodAttribute", []⟩]

/-- The full name of the client class. -/
def clientName : String := S.holder.fullName ++ "+" ++ (S.name ++ "Client")

/-- The client class. Apart from calls it has a factory that is not public, and a constructor. -/
def client : Definition where
  name := S.name ++ "Client"
  declaringType := some S.holder.fullName
  baseType := some (generic "Grpc.Core.ClientBase\x601" [S.clientName])
  methods :=
    { name := "NewInstance"
      returnType := .named S.clientName
      parameters := [.named "Grpc.Core.ClientBase+ClientBaseConfiguration"] } ::
    { name := ".ctor", isPublic := true } :: S.calls.flatMap (·.client)

/-- All the classes of the service. -/
def definitions : List Definition := [S.holder, S.server, S.client]

end Service

/-- What a call takes and gives. -/
def Call.shape (m : Call) : Shape TypeRef where
  request := .named m.request
  response := .named m.response
  requestStreamed := m.kind = .clientStreaming ∨ m.kind = .duplexStreaming
  responseStreamed := m.kind = .serverStreaming ∨ m.kind = .duplexStreaming

end Generated

/-! ## What signatures tell -/

/-- The only one of some types. -/
def only? : List TypeRef → Option TypeRef
  | [r] => some r
  | _ => none

/-- The shape that the signature of a server's method tells. -/
def serverShapeOf (c : Catalog TypeRef) (t : TypeRef) (m : Catalog.Method TypeRef) : Except Error (Shape TypeRef) :=
  match m.parameters with
  | [] => .error (missingParameter c t m "request")
  | first :: others =>
    let element := only? first.args
    match only? m.returnType.args, others with
    | some response, _ => .ok ⟨element.getD first, response, element.isSome, false⟩
    | none, [] => .error (missingParameter c t m "response writer")
    | none, writer :: _ =>
      match only? writer.args with
      | some response => .ok ⟨element.getD first, response, element.isSome, true⟩
      | none => .error (missingParameter c t m "response writer")

/-- The first parameter of a method. -/
def requestOf (c : Catalog TypeRef) (t : TypeRef) (m : Catalog.Method TypeRef) : Except Error TypeRef :=
  match m.parameters with
  | first :: _ => .ok first
  | [] => .error (missingParameter c t m "request")

/-- The shape that the signature of a client's method tells. -/
def clientShapeOf? (c : Catalog TypeRef) (t : TypeRef) (m : Catalog.Method TypeRef) :
    Except Error (Option (Shape TypeRef)) :=
  if c.name m.returnType == asyncCallName then .ok none
  else
    match m.returnType.args with
    | [request, response] => .ok (some ⟨request, response, true, c.name m.returnType == duplexCallName⟩)
    | [response] => (requestOf c t m).map fun request => some ⟨request, response, false, true⟩
    | [] => (requestOf c t m).map fun request => some ⟨request, m.returnType, false, false⟩
    | _ => .error (.misfit (c.fullName t) (.unknownCall m.name))

section Search
variable {α β : Type} {kind : Pool TypeRef → Prop} {P : Except Error β → Prop}

theorem answers_lift {q : Catalog.Look TypeRef α} {a : α} (h : Answers kind q (· = a)) :
    Answers kind (liftM q : Catalog.Search TypeRef α).run (· = .ok a) := by
  show Answers kind (Except.ok <$> q) (· = .ok a)
  intro pool hp
  exact (h pool hp).imp_right (congrArg Except.ok)

theorem answers_search_bind {q : Catalog.Search TypeRef α} {f : α → Catalog.Search TypeRef β} {r : Except Error α}
    (hq : Answers kind q.run (· = r)) (hok : ∀ a, r = .ok a → Answers kind (f a).run P)
    (herror : ∀ e, r = .error e → P (.error e)) : Answers kind (q >>= f).run P := by
  show Answers kind (q.run >>= ExceptT.bindCont f) P
  refine answers_bind hq fun x hx => ?_
  rw [hx]
  cases r with
  | error e => exact answers_pure (herror e rfl)
  | ok a => exact hok a rfl

theorem answers_search_map {q : Catalog.Search TypeRef α} {g : α → β} {r : Except Error α}
    (hq : Answers kind q.run (· = r)) : Answers kind (do return g (← q) : Catalog.Search TypeRef β).run (· = r.map g) := by
  refine answers_search_bind hq (fun a ha => answers_pure ?_) fun e he => ?_
  · rw [ha]
    rfl
  · rw [he]
    rfl

/-- A question that surely has an answer comes first. -/
theorem answers_lift_bind {q : Catalog.Look TypeRef α} {f : α → Catalog.Search TypeRef β} {a : α}
    (hq : Answers kind q (· = a)) (hf : Answers kind (f a).run P) : Answers kind (liftM q >>= f).run P :=
  answers_search_bind (answers_lift hq) (fun _ hb => Except.ok.inj hb ▸ hf) nofun

end Search

section Shapes
variable {lib : Library} {kind : Pool TypeRef → Prop} {used : TypeRef → Prop} (h : Stand lib kind used)
  (hargument : ∀ r, used r → ∀ a ∈ r.args, used a) {t : TypeRef} {m : Catalog.Method TypeRef} (hreturn : used m.returnType)
  (hparameters : ∀ r ∈ m.parameters, used r)
include h hargument

theorem answers_onlyArgument? {r : TypeRef} (hr : used r) :
    Answers kind (onlyArgument? lib.catalog r) (· = only? r.args) := by
  refine answers_bind (h.resolveAll (hargument r hr)) fun arguments harguments => ?_
  rw [show arguments = r.args from harguments]
  rcases r.args with _ | ⟨a, _ | ⟨_, _⟩⟩
  · exact answers_pure rfl
  · exact answers_pure rfl
  · exact answers_pure rfl

include hreturn hparameters

theorem answers_serverShape :
    Answers kind (serverShape lib.catalog t m).run (· = serverShapeOf lib.catalog t m) := by
  unfold serverShape serverShapeOf
  refine answers_lift_bind (h.resolveAll hparameters) ?_
  cases hp : m.parameters with
  | nil => exact answers_pure rfl
  | cons first others =>
    have hfirst : used first := hparameters first (by simp [hp])
    refine answers_lift_bind (answers_onlyArgument? h hargument hfirst) ?_
    refine answers_lift_bind (h m.returnType hreturn) ?_
    refine answers_lift_bind (answers_onlyArgument? h hargument hreturn) ?_
    dsimp only
    cases only? m.returnType.args with
    | some response => exact answers_pure rfl
    | none =>
      cases others with
      | nil => exact answers_pure rfl
      | cons writer others =>
        refine answers_lift_bind (answers_onlyArgument? h hargument (hparameters writer (by simp [hp]))) ?_
        dsimp only
        cases only? writer.args with
        | some response => exact answers_pure rfl
        | none => exact answers_pure rfl

omit hargument hreturn in
theorem answers_requestParameter :
    Answers kind (requestParameter lib.catalog t m).run (· = requestOf lib.catalog t m) := by
  unfold requestParameter requestOf
  refine answers_lift_bind (h.resolveAll hparameters) ?_
  cases m.parameters with
  | nil => exact answers_pure rfl
  | cons first others => exact answers_pure rfl

theorem answers_clientShape? :
    Answers kind (clientShape? lib.catalog t m).run (· = clientShapeOf? lib.catalog t m) := by
  unfold clientShape? clientShapeOf?
  refine answers_lift_bind (h m.returnType hreturn) ?_
  split
  · exact answers_pure rfl
  · refine answers_lift_bind (h.resolveAll (hargument _ hreturn)) ?_
    have hrequest := answers_requestParameter (t := t) h hparameters
    rw [show lib.catalog.arguments m.returnType = m.returnType.args from rfl]
    rcases m.returnType.args with _ | ⟨a, _ | ⟨b, _ | ⟨_, _⟩⟩⟩
    · exact answers_search_map hrequest
    · exact answers_search_map hrequest
    · exact answers_pure rfl
    · exact answers_pure rfl

end Shapes

end ProtoRecovery.Managed
