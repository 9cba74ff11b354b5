import ProtoRecovery.Proofs.Managed.Beside
import ProtoRecovery.Proofs.Managed.Legible
import ProtoRecovery.Proofs.Managed.Signature
import ProtoRecovery.Proofs.Recovery.Failure
/-!
# Calls from either side

The methods of a server and those of its client have nothing in common but their names. Yet the same calls are found in
the same order, and so the same classes are met on the way.
-/

namespace ProtoRecovery.Managed

open Catalog (Pool)
open Recovery (Calls Classes Kin Options Recover Setting Shape State addMethods addShaped asyncCallName duplexCallName
  isCallable isGeneratorMark outcome outcome_bind paired_bind paired_of_outcome paired_pure search shape? tellMethod
  tellMethod_eq)
open Schema (DeclId Service)

variable {lib : Library}

/-! ## Methods one by one -/

section Methods
variable {env : Setting TypeRef} {calls : Calls TypeRef} {classes : Classes TypeRef} {id : DeclId}
  {kind : Pool TypeRef → Prop} {x : Catalog.Method TypeRef} {attributes : List (Catalog.Attribute TypeRef)}
  {o : Option (Shape TypeRef)} {rest : List (Catalog.Method TypeRef)} {body : Service} {s : State TypeRef}

/-- A search that has one answer from pools of a kind only changes the pool. -/
theorem outcome_search_bind {α β : Type} {q : Catalog.Search TypeRef α} {a : α} {f : α → Recover TypeRef β}
    (hq : Answers kind q.run (· = .ok a)) (hs : kind s.pool) :
    ∃ pool, kind pool ∧ outcome (search q >>= f) s = outcome (f a) { s with pool } := by
  obtain ⟨hpool, ha⟩ := hq s.pool hs
  refine ⟨_, hpool, ?_⟩
  rw [outcome_bind, Recovery.outcome_search, show s.answer q.run = .ok a from ha]
  rfl

theorem answers_tellMethod
    (hattributes : Answers kind (env.catalog.readAttributes x.attributes).run (· = .ok attributes))
    (hgenerated : attributes.any (isGeneratorMark env.catalog) = true)
    (hshape : Answers kind (shape? env.catalog classes.isClient classes.implementation x).run (· = .ok o)) :
    Answers kind (tellMethod env classes x).run (· = .ok (o.map (attributes, ·))) := by
  rw [tellMethod_eq]
  refine answers_search_bind hattributes (fun a ha => ?_) nofun
  obtain rfl := Except.ok.inj ha
  rw [hgenerated, Bool.or_true, if_pos rfl]
  exact answers_search_map hshape

variable (env calls classes id rest body) in
/-- A generated method is looked at, and the recovery goes on by its shape. -/
theorem outcome_addMethods_cons
    (hattributes : Answers kind (env.catalog.readAttributes x.attributes).run (· = .ok attributes))
    (hgenerated : attributes.any (isGeneratorMark env.catalog) = true)
    (hshape : Answers kind (shape? env.catalog classes.isClient classes.implementation x).run (· = .ok o))
    (hs : kind s.pool) :
    ∃ pool, kind pool ∧ outcome (addMethods env calls classes id (x :: rest) body) s =
      outcome (addShaped env calls id x body (o.map (attributes, ·)) >>= addMethods env calls classes id rest)
        { s with pool } := by
  have hcons : addMethods env calls classes id (x :: rest) body = search (tellMethod env classes x) >>= fun o =>
      addShaped env calls id x body o >>= addMethods env calls classes id rest := bind_assoc ..
  rw [hcons]
  exact outcome_search_bind (answers_tellMethod hattributes hgenerated hshape) hs

end Methods

/-! ## The classes of a service -/

namespace Generated

/-- A library knows the classes of a service by their names. -/
def Service.In (S : Service) (lib : Library) : Prop :=
  ∀ d ∈ S.definitions, lib.definitionOf? (.named d.fullName) = some d

/-- Where a library defines the call types, they have their simple names. -/
def CallsNamed (lib : Library) : Prop := ∀ (k : CallKind) args, lib.catalog.name ⟨k.typeFullName, args⟩ = k.typeName

/-- What the server class and the client class name, with the arguments and the bases of that. -/
inductive Service.Names (S : Service) (lib : Library) : TypeRef → Prop
  | server : Names S lib (.named S.server.fullName)
  | client : Names S lib (.named S.client.fullName)
  | reference {r : TypeRef} (h : r ∈ S.server.references ++ S.client.references) : Names S lib r
  | mark {name : String} (h : name ∈ S.server.attributeTypes ++ S.client.attributeTypes) : Names S lib (.named name)
  | argument {r a : TypeRef} (h : Names S lib r) (ha : a ∈ r.args) : Names S lib a
  | base {r b : TypeRef} (h : Names S lib r) (hb : lib.simpleCatalog.base? r = some b) : Names S lib b

/-- A method record as it is read from its own class. -/
abbrev read (m : MethodRecord) : Catalog.Method TypeRef := Library.methodOf false m

/-- The attributes of the methods of a call. -/
def callMarks : List (Catalog.Attribute TypeRef) :=
  [⟨.named Recovery.generatedCodeAttribute, .ok [.string (some Recovery.serviceGenerator)]⟩]

theorem isGenerated_callMarks : callMarks.any (isGeneratorMark lib.catalog) = true := rfl

section Shapes
variable {t : TypeRef} {m : Call}

theorem attributes_server (m : Call) : (read m.server).attributes = .ok callMarks := by
  obtain ⟨name, request, response, k⟩ := m
  cases k <;> rfl

theorem name_server (m : Call) : (read m.server).name = m.name := by
  obtain ⟨name, request, response, k⟩ := m
  cases k <;> rfl

/-- The server's method tells the call. -/
theorem serverShapeOf_server (m : Call) : serverShapeOf lib.catalog t (read m.server) = .ok m.shape := by
  obtain ⟨name, request, response, k⟩ := m
  cases k <;> rfl

/-- A method of a client that adds nothing to what was told under a name. -/
def Surplus (lib : Library) (t : TypeRef) (name : String) (x : MethodRecord) : Prop :=
  clientShapeOf? lib.catalog t (read x) = .ok none ∨
    (x.name = name ∧ ∃ shape, clientShapeOf? lib.catalog t (read x) = .ok (some shape))

/-- The first of the client's methods tells the call, and others add nothing to it. -/
theorem client_eq_cons (hcalls : CallsNamed lib) (hresponse : lib.catalog.name (.named m.response) ≠ asyncCallName) :
    ∃ first extra, m.client = first :: extra ∧ first.name = m.name ∧
      clientShapeOf? lib.catalog t (read first) = .ok (some m.shape) ∧ ∀ x ∈ extra, Surplus lib t m.name x := by
  obtain ⟨name, request, response, k⟩ := m
  have hname : ∀ k (args : List String), lib.catalog.name (generic k.typeFullName args) = CallKind.typeName k :=
    fun k args => hcalls k _
  cases k with
  | unary =>
    have hshape : ∀ n ps, clientShapeOf? lib.catalog t (read (callMethod n (.named response) (.named request :: ps))) =
        .ok (some (Call.shape ⟨name, request, response, .unary⟩)) := by
      intro n ps
      have hwaits : (lib.catalog.name (.named response) == asyncCallName) = false := beq_false_of_ne hresponse
      simp only [clientShapeOf?, read, Library.methodOf, callMethod, hwaits]
      rfl
    refine ⟨_, _, rfl, rfl, hshape name _, ?_⟩
    simp only [List.forall_mem_cons, List.not_mem_nil, false_implies, implies_true, and_true]
    refine ⟨.inr ⟨rfl, _, hshape name _⟩, .inl ?_⟩
    simp [clientShapeOf?, read, Library.methodOf, callMethod, hname, CallKind.typeName]
  | serverStreaming =>
    refine ⟨_, [], rfl, rfl, ?_, by simp⟩
    simp only [clientShapeOf?, read, Library.methodOf, callMethod, hname]
    rfl
  | clientStreaming =>
    refine ⟨_, [], rfl, rfl, ?_, by simp⟩
    simp only [clientShapeOf?, read, Library.methodOf, callMethod, hname]
    rfl
  | duplexStreaming =>
    refine ⟨_, [], rfl, rfl, ?_, by simp⟩
    simp only [clientShapeOf?, read, Library.methodOf, callMethod, hname]
    rfl

theorem attributes_client {x : MethodRecord} (hx : x ∈ m.client) : (read x).attributes = .ok callMarks := by
  obtain ⟨name, request, response, k⟩ := m
  cases k <;> simp only [Call.client, List.mem_cons, List.not_mem_nil, or_false] at hx
  · rcases hx with rfl | rfl | rfl <;> rfl
  · rw [hx]; rfl
  · rw [hx]; rfl
  · rw [hx]; rfl

end Shapes

/-! ## What the classes name -/

section Names
variable {S : Service} {m : Call} {x : MethodRecord} {r : TypeRef}

theorem names_server (hm : m ∈ S.calls) (hr : r ∈ m.server.returnType :: m.server.parameters) : S.Names lib r :=
  .reference (List.mem_append_left _ (mem_references_of_method (List.mem_map_of_mem hm) hr))

theorem mem_client (hm : m ∈ S.calls) (hx : x ∈ m.client) : x ∈ S.client.methods :=
  List.mem_cons_of_mem _ (List.mem_cons_of_mem _ (List.mem_flatMap.2 ⟨m, hm, hx⟩))

theorem names_client (hm : m ∈ S.calls) (hx : x ∈ m.client) (hr : r ∈ x.returnType :: x.parameters) : S.Names lib r :=
  .reference (List.mem_append_right _ (mem_references_of_method (mem_client hm hx) hr))

theorem names_mark (hm : m ∈ S.calls) : S.Names lib (.named Recovery.generatedCodeAttribute) := by
  have hmark : (⟨Recovery.generatedCodeAttribute, [.string (some Recovery.serviceGenerator)]⟩ : AttributeRecord) ∈
      m.server.attributes := by
    obtain ⟨name, request, response, k⟩ := m
    cases k <;> exact List.mem_singleton_self _
  exact .mark (List.mem_append_left _ (mem_attributeTypes_of_method (List.mem_map_of_mem hm) hmark))

theorem names_request (hm : m ∈ S.calls) : S.Names lib (.named m.request) := by
  have hserver : ∀ {r}, r ∈ m.server.returnType :: m.server.parameters → S.Names lib r := names_server hm
  obtain ⟨name, request, response, k⟩ := m
  cases k
  · exact hserver (by simp [Call.server, callMethod])
  · exact hserver (by simp [Call.server, callMethod])
  · exact .argument (r := reader request) (hserver (by simp [Call.server, callMethod])) (by simp [reader, generic])
  · exact .argument (r := reader request) (hserver (by simp [Call.server, callMethod])) (by simp [reader, generic])

theorem names_response (hm : m ∈ S.calls) : S.Names lib (.named m.response) := by
  have hserver : ∀ {r}, r ∈ m.server.returnType :: m.server.parameters → S.Names lib r := names_server hm
  obtain ⟨name, request, response, k⟩ := m
  cases k
  · exact .argument (r := task response) (hserver (by simp [Call.server, callMethod])) (by simp [task, generic])
  · exact .argument (r := writer response) (hserver (by simp [Call.server, callMethod])) (by simp [writer, generic])
  · exact .argument (r := task response) (hserver (by simp [Call.server, callMethod])) (by simp [task, generic])
  · exact .argument (r := writer response) (hserver (by simp [Call.server, callMethod])) (by simp [writer, generic])

variable {kind : Pool TypeRef → Prop} (h : Stand lib kind (S.Names lib)) {t : TypeRef}
include h

theorem answers_callMarks (hm : m ∈ S.calls) :
    Answers kind (lib.catalog.readAttributes (.ok callMarks)).run (· = .ok callMarks) := by
  refine h.readAttributes fun a ha => ?_
  obtain rfl := List.mem_singleton.1 ha
  exact names_mark hm

theorem answers_server (hm : m ∈ S.calls) :
    Answers kind (shape? lib.catalog false t (read m.server)).run (· = .ok (some m.shape)) := by
  have hshape : Answers kind (Recovery.serverShape lib.catalog t (read m.server)).run (· = .ok m.shape) := by
    have htold : serverShapeOf lib.catalog t (read m.server) = .ok m.shape := serverShapeOf_server m
    rw [← htold]
    exact answers_serverShape h (fun _ hr _ ha => .argument hr ha) (names_server hm (by simp [read, Library.methodOf]))
      fun r hr => names_server hm (List.mem_cons_of_mem _ hr)
  exact answers_search_map hshape

theorem answers_client (hm : m ∈ S.calls) (hx : x ∈ m.client) :
    Answers kind (shape? lib.catalog true t (read x)).run (· = clientShapeOf? lib.catalog t (read x)) :=
  answers_clientShape? h (fun _ hr _ ha => .argument hr ha) (names_client hm hx (by simp [read, Library.methodOf]))
    fun r hr => names_client hm hx (List.mem_cons_of_mem _ hr)

/-- The callable methods of a class are among its own. -/
theorem answers_methods {d : Definition} (ht : S.Names lib t) (hd : lib.definitionOf? t = some d) :
    Answers kind (lib.catalog.methods t) fun ms => ms.filter isCallable = (d.methods.map read).filter isCallable := by
  have hown := answers_collect (S.Names lib) h
    (fun r base hr hb => ⟨.base hr hb, .base hr hb⟩) isInherited_methodsOf ht hd
  intro pool hp
  obtain ⟨hp, hms⟩ := hown pool hp
  refine ⟨hp, ?_⟩
  have hread : Library.methodsOf false d = d.methods.map read := by simp [Library.methodsOf]
  rw [← hread, ← hms, List.filter_filter]
  refine List.filter_congr fun m _ => ?_
  simp only [isCallable]
  cases m.isInherited <;> simp

end Names

/-! ## Callable methods -/

theorem isCallable_callMethod {name : String} {returnType : TypeRef} {parameters : List TypeRef} (h : name ≠ ".ctor")
    (h' : name ≠ ".cctor") : isCallable (read (callMethod name returnType parameters)) = true := by
  simp [isCallable, read, Library.methodOf, callMethod, Catalog.Method.isConstructor, h, h']

theorem async_ne (name : String) : name ++ "Async" ≠ ".ctor" ∧ name ++ "Async" ≠ ".cctor" := by
  have hlast : ∀ other : String, name ++ "Async" = other → other.toList.getLast? = some 'c' := by
    rintro _ rfl
    simp [String.toList_append]
  exact ⟨fun h => by simpa using hlast _ h, fun h => by simpa using hlast _ h⟩

section Callable
variable {S : Service} (hnames : ∀ m ∈ S.calls, m.name ≠ ".ctor" ∧ m.name ≠ ".cctor")
include hnames

theorem callable_server : (S.server.methods.map read).filter isCallable = S.calls.map fun m => read m.server := by
  have heq : S.server.methods.map read = S.calls.map fun m => read m.server := by simp [Service.server]
  rw [heq, List.filter_eq_self]
  intro x hx
  obtain ⟨m, hm, rfl⟩ := List.mem_map.1 hx
  obtain ⟨h, h'⟩ := hnames m hm
  obtain ⟨name, request, response, k⟩ := m
  cases k <;> exact isCallable_callMethod h h'

theorem callable_client :
    (S.client.methods.map read).filter isCallable = S.calls.flatMap fun m => m.client.map read := by
  have heq : S.client.methods.map read =
      read { name := "NewInstance", returnType := .named S.clientName,
             parameters := [.named "Grpc.Core.ClientBase+ClientBaseConfiguration"] } ::
        read { name := ".ctor", isPublic := true } :: S.calls.flatMap fun m => m.client.map read := by
    simp [Service.client, List.map_flatMap]
  have hcalls : ∀ x ∈ S.calls.flatMap (fun m => m.client.map read), isCallable x = true := by
    intro x hx
    obtain ⟨m, hm, hx⟩ := List.mem_flatMap.1 hx
    obtain ⟨y, hy, rfl⟩ := List.mem_map.1 hx
    obtain ⟨h, h'⟩ := hnames m hm
    obtain ⟨name, request, response, k⟩ := m
    cases k <;> simp only [Call.client, List.mem_cons, List.not_mem_nil, or_false] at hy
    · rcases hy with rfl | rfl | rfl
      · exact isCallable_callMethod h h'
      · exact isCallable_callMethod h h'
      · exact isCallable_callMethod (async_ne name).1 (async_ne name).2
    · exact hy ▸ isCallable_callMethod h h'
    · exact hy ▸ isCallable_callMethod h h'
    · exact hy ▸ isCallable_callMethod h h'
  rw [heq, List.filter_cons_of_neg (by simp [isCallable, read, Library.methodOf]),
    List.filter_cons_of_neg (by simp [isCallable, read, Library.methodOf, Catalog.Method.isConstructor]),
    List.filter_eq_self.2 hcalls]

end Callable

end Generated

/-! ## Both sides -/

/-- Some types are private to either side. -/
structure Discreet (v : Kin lib.catalog) (own : TypeRef → Prop) : Prop where
  seen : ∀ x, own x → v.seen x
  symm : ∀ {p q}, v.near p q → v.near q p
  stand : ∀ q, Stand lib (v.near · q) own

/-- A recovery from a library. -/
abbrev Library.env (lib : Library) (names : Option Identifier.Dictionary) (options : Options) : Setting TypeRef :=
  ⟨lib.catalog, names, options⟩

namespace Generated

section Sides
variable {S : Service} {v : Kin lib.catalog} (hv : Discreet v (S.Names lib)) {names : Option Identifier.Dictionary}
  {options : Options} {calls calls' : Calls TypeRef} {depth : Nat} {id : DeclId} {holder : TypeRef} {body : Schema.Service}
  {s s' : State TypeRef}

theorem Same.with_pool {c : Catalog TypeRef} {v : Kin c} {p p' : Pool TypeRef} (h : v.Same s s') (hp : v.near p p') :
    v.Same { s with pool := p } { s' with pool := p' } := ⟨h.schema, h.memo, h.diagnostics, hp⟩

include hv

/-- Methods that add nothing are passed over. -/
theorem outcome_surplus {m : Call} (hm : m ∈ S.calls) {t : TypeRef} {extra : List MethodRecord}
    (hextra : ∀ x ∈ extra, x ∈ m.client ∧ Surplus lib t m.name x)
    (hbody : body.hasMethod (Identifier.typeName names m.name) = true) {rest : List (Catalog.Method TypeRef)}
    {p : Pool TypeRef} (hs : v.near s.pool p) :
    ∃ pool, v.near pool p ∧
      outcome (addMethods (lib.env names options) calls ⟨holder, t, true⟩ id (extra.map read ++ rest) body) s =
        outcome (addMethods (lib.env names options) calls ⟨holder, t, true⟩ id rest body) { s with pool } := by
  induction extra generalizing s with
  | nil => exact ⟨s.pool, hs, rfl⟩
  | cons x extra ih =>
    obtain ⟨hx, hsurplus⟩ := hextra x (by simp)
    have hmarks : Answers (v.near · p) (lib.catalog.readAttributes (read x).attributes).run (· = .ok callMarks) := by
      rw [attributes_client hx]
      exact answers_callMarks (hv.stand p) hm
    have hshape := answers_client (t := t) (hv.stand p) hm hx
    have hnext : ∀ pool, v.near pool p → ∃ pool', v.near pool' p ∧
        outcome (addMethods (lib.env names options) calls ⟨holder, t, true⟩ id (extra.map read ++ rest) body)
          { s with pool } =
          outcome (addMethods (lib.env names options) calls ⟨holder, t, true⟩ id rest body) { s with pool := pool' } :=
      fun pool hpool => ih (s := { s with pool }) (fun y hy => hextra y (by simp [hy])) hpool
    rcases hsurplus with hnone | ⟨hname, shape, hsome⟩
    · rw [hnone] at hshape
      obtain ⟨pool, hpool, hcons⟩ := outcome_addMethods_cons (lib.env names options) calls ⟨holder, t, true⟩ id
        (extra.map read ++ rest) body hmarks isGenerated_callMarks hshape hs
      obtain ⟨pool', hpool', hrest⟩ := hnext pool hpool
      exact ⟨pool', hpool', hcons.trans hrest⟩
    · rw [hsome] at hshape
      obtain ⟨pool, hpool, hcons⟩ := outcome_addMethods_cons (lib.env names options) calls ⟨holder, t, true⟩ id
        (extra.map read ++ rest) body hmarks isGenerated_callMarks hshape hs
      obtain ⟨pool', hpool', hrest⟩ := hnext pool hpool
      refine ⟨pool', hpool', hcons.trans ?_⟩
      rw [Option.map_some, addShaped]
      dsimp only
      rw [if_pos (by rw [← hbody, ← hname]; rfl)]
      exact hrest

/-- The induction goes along the calls. Each is told by one method of the server and by the first of the client's, and
what more the client has is passed over. -/
theorem paired_addMethods (hdeep : v.Deep depth calls calls')
    (hd : ∀ s, v.need s + (v.keys.card + 1) ≤ depth) (hcalls : CallsNamed lib)
    (hresponse : ∀ m ∈ S.calls, lib.catalog.name (.named m.response) ≠ asyncCallName) {server client : TypeRef}
    {ms : List Call} (hms : ∀ m ∈ ms, m ∈ S.calls) (h : v.Same s s') :
    v.Paired (addMethods (lib.env names options) calls ⟨holder, server, false⟩ id (ms.map fun m => read m.server) body)
      (addMethods (lib.env names options) calls' ⟨holder, client, true⟩ id (ms.flatMap fun m => m.client.map read) body)
      s s' := by
  induction ms generalizing body s s' with
  | nil => exact paired_pure h
  | cons m ms ih =>
    have hm := hms m (by simp)
    obtain ⟨first, extra, hclient, hname, hfirst, hextra⟩ :=
      client_eq_cons (t := client) hcalls (hresponse m hm)
    have hin : ∀ x ∈ extra, x ∈ m.client ∧ Surplus lib client m.name x := fun x hx => ⟨by simp [hclient, hx], hextra x hx⟩
    -- What follows is the same on both sides, once the client's surplus is passed over.
    have hrest : ∀ {body : Schema.Service} {s₁ s₁' : State TypeRef},
        body.hasMethod (Identifier.typeName names m.name) = true → v.Same s₁ s₁' →
        v.Paired
          (addMethods (lib.env names options) calls ⟨holder, server, false⟩ id (ms.map fun m => read m.server) body)
          (addMethods (lib.env names options) calls' ⟨holder, client, true⟩ id
            (extra.map read ++ ms.flatMap fun m => m.client.map read) body) s₁ s₁' := by
      intro body s₁ s₁' hbody hs
      obtain ⟨pool, hpool, hskip⟩ := outcome_surplus hv hm hin hbody (hv.symm hs.pool)
      exact paired_of_outcome rfl hskip List.prefix_rfl
        (ih (fun x hx => hms x (by simp [hx])) (Same.with_pool hs (hv.symm hpool)))
    -- The server's method is looked at, and then the client's.
    obtain ⟨p, hp, hleft⟩ := outcome_addMethods_cons (lib.env names options) calls ⟨holder, server, false⟩ id
      (ms.map fun m => read m.server) body (attributes_server m ▸ answers_callMarks (hv.stand s'.pool) hm) isGenerated_callMarks
      (answers_server (hv.stand s'.pool) hm) h.pool
    have hmarks : Answers (v.near · p) (lib.catalog.readAttributes (read first).attributes).run (· = .ok callMarks) := by
      rw [attributes_client (m := m) (by simp [hclient])]
      exact answers_callMarks (hv.stand p) hm
    have hshape := answers_client (t := client) (hv.stand p) hm (x := first) (by simp [hclient])
    rw [hfirst] at hshape
    obtain ⟨p', hp', hright⟩ := outcome_addMethods_cons (lib.env names options) calls' ⟨holder, client, true⟩ id
      (extra.map read ++ ms.flatMap fun m => m.client.map read) body hmarks isGenerated_callMarks hshape (hv.symm hp)
    rw [List.map_cons, List.flatMap_cons, hclient, List.map_cons, List.cons_append]
    have hs : v.Same { s with pool := p } { s' with pool := p' } := Same.with_pool h (hv.symm hp')
    refine paired_of_outcome hleft hright List.prefix_rfl ?_
    rw [Option.map_some, addShaped, addShaped]
    dsimp only
    rw [name_server, show (read first).name = m.name from hname]
    split
    · rename_i hbody
      exact hrest hbody hs
    · have hrank : ∀ (t : TypeRef) (s : State TypeRef), v.need s + (v.rank t + 1) ≤ depth := by
        intro t s
        have := hd s
        have := v.rank_le t
        omega
      simp only [bind_assoc, pure_bind]
      refine paired_bind (hdeep.fieldType (hv.seen _ (names_request hm)) hs (hrank _ _)) fun request s₁ s₁' hs₁ _ => ?_
      refine paired_bind (hdeep.fieldType (hv.seen _ (names_response hm)) hs₁ (hrank _ _)) fun response s₂ s₂' hs₂ _ => ?_
      exact hrest (by simp [Schema.Service.hasMethod]) hs₂

end Sides

end Generated

end ProtoRecovery.Managed
