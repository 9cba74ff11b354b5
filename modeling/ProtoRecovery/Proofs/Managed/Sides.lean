import ProtoRecovery.Proofs.Managed.Calls
/-!
# Client and server tell the same service

A service may be recovered from its server class or from its client class. Either way the holder around it is declared
with the same calls, as long as no type in sight can be taken for one that these classes name.
-/

namespace ProtoRecovery.Managed

open Catalog (Look Pool)
open Recovery (Calls Kin Options Recover Request SameRecord State Visited addMethods callsWithin classify depthFor
  isCallable look outcome outcome_bind paired_change paired_introduce paired_look paired_of_outcome search service service_eq)
open Schema (DeclId)

variable {lib : Library}

/-- A class in another is read with that one as its holder. -/
theorem outcome_classify_bind {α : Type} {t : TypeRef} {d : Definition} {outer : String}
    (hd : lib.definitionOf? t = some d) (houter : d.declaringType = some outer) (hopen : (d.isSealed && d.isAbstract) = false)
    {f : Recovery.Classes TypeRef → Recover TypeRef α} {s : State TypeRef} :
    outcome (search (classify lib.catalog t) >>= f) s =
      outcome (look (lib.catalog.resolve (.named outer)) >>= fun holder => f ⟨holder, t, !d.isAbstract⟩) s := by
  have hholder : lib.catalog.isHolder t = false := by
    show ((lib.definitionOf? t).any (·.isSealed) && (lib.definitionOf? t).any (·.isAbstract)) = false
    simpa [hd] using hopen
  have habstract : lib.catalog.isAbstract t = d.isAbstract := by
    show (lib.definitionOf? t).any (·.isAbstract) = d.isAbstract
    simp [hd]
  have hdeclaring : lib.catalog.declaring? t = some (.named outer) := by
    show ((lib.definitionOf? t).bind (·.declaringType)).map TypeRef.named = some (.named outer)
    simp [hd, houter]
  have hclassify : classify lib.catalog t =
      (liftM (lib.catalog.resolve (.named outer)) >>= fun holder => pure ⟨holder, t, !d.isAbstract⟩) := by
    unfold classify Catalog.declaringOf?
    rw [hholder, hdeclaring, habstract]
    rfl
  rw [hclassify, outcome_bind, outcome_bind, Recovery.outcome_search]
  rfl

/-- A question that has one kind of answer from pools of a kind only changes the pool. -/
theorem outcome_look_bind {α β : Type} {kind : Pool TypeRef → Prop} {q : Look TypeRef α} {P : α → Prop}
    {f : α → Recover TypeRef β} {s : State TypeRef} (hq : Answers kind q P) (hs : kind s.pool) :
    ∃ a pool, P a ∧ kind pool ∧ outcome (look q >>= f) s = outcome (f a) { s with pool } := by
  obtain ⟨hpool, ha⟩ := hq s.pool hs
  exact ⟨_, _, ha, hpool, outcome_bind _ _ _⟩

namespace Generated

section Sides
variable {S : Service} (hin : S.In lib)
include hin

theorem definition_server : lib.definitionOf? (.named S.server.fullName) = some S.server :=
  hin _ (by simp [Service.definitions])

theorem definition_client : lib.definitionOf? (.named S.client.fullName) = some S.client :=
  hin _ (by simp [Service.definitions])

variable {v : Kin lib.catalog} (hv : Discreet v (S.Names lib)) (hcalls : CallsNamed lib)
  (hnames : ∀ m ∈ S.calls, m.name ≠ ".ctor" ∧ m.name ≠ ".cctor")
  (hresponse : ∀ m ∈ S.calls, lib.catalog.name (.named m.response) ≠ Recovery.asyncCallName)
  {names : Option Identifier.Dictionary} {options : Options} {calls calls' : Calls TypeRef} {depth : Nat}
  {s s' : State TypeRef}
include hv hcalls hnames hresponse

variable (names options) in
/-- A service is recovered alike from its server and from its client. -/
theorem paired_service (hholder : v.seen (.named S.holder.fullName)) (hdeep : v.Deep depth calls calls')
    (hd : ∀ s, v.need s + (v.keys.card + 1) ≤ depth) (h : v.Same s s') :
    v.Paired (service (lib.env names options) calls (.named S.server.fullName))
      (service (lib.env names options) calls' (.named S.client.fullName)) s s' := by
  rw [service_eq, service_eq]
  refine paired_of_outcome (outcome_classify_bind (definition_server hin) rfl rfl)
    (outcome_classify_bind (definition_client hin) rfl rfl) List.prefix_rfl ?_
  refine paired_look h (v.resolve _ hholder) fun holder s₁ s₁' _ hs₁ _ => ?_
  refine paired_introduce (lib.env names options) hs₁ (fun id s₂ s₂' hs₂ _ _ => paired_change hs₂)
    fun id s₂ s₂' hs₂ _ _ => ?_
  -- Each side looks at its own methods, and only the calls among them count.
  obtain ⟨ms, p, hms, hp, hleft⟩ := outcome_look_bind (s := s₂)
    (f := fun ms => addMethods (lib.env names options) calls ⟨holder, .named S.server.fullName, false⟩ id
      (ms.filter isCallable) {}) (answers_methods (hv.stand s₂'.pool) .server (definition_server hin)) hs₂.pool
  obtain ⟨ms', p', hms', hp', hright⟩ := outcome_look_bind (s := s₂')
    (f := fun ms => addMethods (lib.env names options) calls' ⟨holder, .named S.client.fullName, true⟩ id
      (ms.filter isCallable) {}) (answers_methods (hv.stand p) .client (definition_client hin)) (hv.symm hp)
  refine paired_of_outcome hleft hright List.prefix_rfl ?_
  rw [hms, hms', callable_server hnames, callable_client hnames]
  exact paired_addMethods hv hdeep hd hcalls hresponse (fun _ hm => hm) (Same.with_pool hs₂ (hv.symm hp'))

end Sides

end Generated

/-! ## What is in sight -/

/-- The types that a recovery can come upon: those in the records of a library and those in a pool, with their
arguments. -/
inductive Library.InSight (lib : Library) (pool : Pool TypeRef) : TypeRef → Prop
  | entry {e : Located} (he : e ∈ lib.entries) : InSight lib pool (.named e.fullName)
  | around {e : Located} {outer : String} (he : e ∈ lib.entries) (h : outer ∈ e.definition.declaringType) :
    InSight lib pool (.named outer)
  | reference {r : TypeRef} (h : r ∈ lib.references) : InSight lib pool r
  | mark {e : Located} {name : String} (he : e ∈ lib.entries) (h : name ∈ e.definition.attributeTypes) :
    InSight lib pool (.named name)
  | pooled {k : String} {r : TypeRef} (h : pool.lookup k = some r) : InSight lib pool r
  | argument {r a : TypeRef} (h : InSight lib pool r) (ha : a ∈ r.args) : InSight lib pool a

section InSight
variable {pool : Pool TypeRef}

theorem admits_inSight : lib.Admits (lib.InSight pool) :=
  ⟨fun _ => .entry, fun _ he _ => .around he, fun _ => .reference, fun _ he _ => .mark he⟩

theorem mem_held {k : String} {r : TypeRef} (h : pool.lookup k = some r) : r ∈ held pool := by
  obtain ⟨before, after, he, -⟩ := List.lookup_eq_some_iff.1 h
  exact List.mem_map.2 ⟨(k, r), by simp [he], rfl⟩

theorem Library.InSight.modest {r : TypeRef} (h : lib.InSight pool r) : Modest (lib.keysWith (held pool)) r := by
  induction h with
  | entry => exact modest_named _
  | around => exact modest_named _
  | reference h => exact .inr (covers_keysWith (List.mem_append_left _ h))
  | mark => exact modest_named _
  | pooled h => exact .inr (covers_keysWith (List.mem_append_right _ (mem_held h)))
  | argument _ ha ih => exact .inr (ih.argument ha)

/-- Where no name has a bracket in it, none that is in sight has. -/
theorem Library.InSight.spelled {r : TypeRef} (h : lib.InSight pool r) (hl : lib.Legible) (hw : lib.WellNamed)
    (hpool : ∀ r ∈ held pool, r.Spelled) : r.Spelled := by
  have hadmits := hl.admits hw
  induction h with
  | entry he => exact hadmits.entry _ he
  | around he h => exact hadmits.around _ he _ h
  | reference h => exact hadmits.reference _ h
  | mark he h => exact hadmits.mark _ he _ h
  | pooled h => exact hpool _ (mem_held h)
  | argument _ ha ih => exact ih.within (.arg ha .refl)

end InSight

namespace Generated

/-- A service in sight has nothing in sight beside it that can be taken for a type its classes name. -/
def Service.Discernible (S : Service) (lib : Library) (pool : Pool TypeRef) : Prop :=
  ∀ x r, S.Names lib x → lib.InSight pool r → r.key = x.key → r = x

section Names
variable {S : Service} (hin : S.In lib) {pool : Pool TypeRef}
include hin

/-- What the classes of a service name is in sight. -/
theorem Service.Names.inSight {x : TypeRef} (h : S.Names lib x) : lib.InSight pool x := by
  obtain ⟨server, hs, hserver, hdefinition⟩ := exists_entry_of_definition (definition_server hin)
  obtain ⟨client, hc, hclient, hdefinition'⟩ := exists_entry_of_definition (definition_client hin)
  induction h with
  | server => exact (show TypeRef.named server.fullName = _ from congrArg TypeRef.named hserver) ▸ .entry hs
  | client => exact (show TypeRef.named client.fullName = _ from congrArg TypeRef.named hclient) ▸ .entry hc
  | reference h =>
    rw [← hdefinition, ← hdefinition', List.mem_append] at h
    rcases h with h | h
    · exact .reference (List.mem_flatMap.2 ⟨server, hs, h⟩)
    · exact .reference (List.mem_flatMap.2 ⟨client, hc, h⟩)
  | mark h =>
    rw [← hdefinition, ← hdefinition', List.mem_append] at h
    rcases h with h | h
    · exact .mark hs h
    · exact .mark hc h
  | argument _ ha ih => exact .argument ih ha
  | base _ hb =>
    obtain ⟨d, hd, hb⟩ := Option.bind_eq_some_iff.1 hb
    obtain ⟨e, he, -, rfl⟩ := exists_entry_of_definition hd
    exact admits_inSight.base he hb

theorem holder_inSight : lib.InSight pool (.named S.holder.fullName) := by
  obtain ⟨server, hs, -, hdefinition⟩ := exists_entry_of_definition (definition_server hin)
  exact .around hs (by rw [hdefinition]; rfl)

theorem Service.Discernible.isPrivate (h : S.Discernible lib pool) : Private (S.Names lib) (lib.InSight pool) :=
  ⟨fun _ hx => hx.inSight hin, h⟩

/-- Where no name has a bracket in it, every type in sight can be told by its key. -/
theorem Service.In.discernible (hl : lib.Legible) (hw : lib.WellNamed) (hpool : ∀ r ∈ held pool, r.Spelled) :
    S.Discernible lib pool :=
  fun _ _ hx hr hkey => (hr.spelled hl hw hpool).eq_of_key ((hx.inSight hin).spelled hl hw hpool) hkey

omit hin

/-- Recoveries side by side that differ in what the classes of the service name. -/
def Service.Discernible.kin (h : S.Discernible lib pool) (hin : S.In lib) : Kin lib.catalog :=
  lib.beside (h.isPrivate hin) (bounded_keysWith (held pool)) admits_inSight (fun _ => Library.InSight.modest)
    fun _ hr _ => .argument hr

include hin in
theorem Service.Discernible.discreet (h : S.Discernible lib pool) : Discreet (h.kin hin) (S.Names lib) :=
  ⟨fun _ hx => hx.inSight hin, Beside.symm, fun q => (h.isPrivate hin).stand q⟩

end Names

end Generated

/-! ## Requests -/

variable (lib) in
/-- Looking a type up does not make the pool smaller. -/
theorem weightAll_resolve (r : TypeRef) (pool : Pool TypeRef) :
    TypeRef.weightAll (held pool) ≤ TypeRef.weightAll (held ((lib.catalog.resolve r).run pool).2) := by
  cases h : pool.lookup r.key with
  | some first => rw [resolve_of_found h]
  | none =>
    rw [resolve_of_new h]
    exact Nat.le_add_left ..

/-- A service is asked for by a type that stands for itself. -/
theorem outcome_service_at {names : Option Identifier.Dictionary} {r : TypeRef} {s : State TypeRef}
    (hr : s.answer (lib.catalog.resolve r) = r) (options : Options) :
    outcome ((Request.service r options).run lib.catalog names) s =
      let s₁ := s.after (lib.catalog.resolve r)
      let x := outcome (service (lib.env names options) (callsWithin (lib.env names options)
        (depthFor lib.catalog s₁ r)) r) s₁
      (x.1.map some, x.2) := by
  refine Recovery.outcome_lookUp.trans ?_
  unfold Recovery.recoverService
  rw [Recovery.outcome_callsFor, hr]

namespace Generated

/-- The depth that a request is allowed is enough for recoveries side by side. -/
theorem Service.Discernible.enough {S : Service} {s : State TypeRef} (h : S.Discernible lib s.pool) (hin : S.In lib)
    (r : TypeRef) (s₁ : State TypeRef) :
    (h.kin hin).need s₁ + ((h.kin hin).keys.card + 1) ≤ depthFor lib.catalog (s.after (lib.catalog.resolve r)) r := by
  refine enough_depth _ s₁ ((card_keysWith_le _).trans ?_)
  have hweight := weightAll_resolve lib r s.pool
  show _ ≤ _ + TypeRef.weightAll (held ((lib.catalog.resolve r).run s.pool).2)
  omega

/-- A service may be asked for by its server or by its client. Whatever was asked before, both answers are the same, be
it an error or a declaration, and both leave the same schema, the same names noted and the same diagnostics. -/
theorem client_and_server_alike {S : Service} {names : Option Identifier.Dictionary} {s : State TypeRef}
    (hin : S.In lib) (hnames : ∀ m ∈ S.calls, m.name ≠ ".ctor" ∧ m.name ≠ ".cctor")
    (hresponse : ∀ m ∈ S.calls, lib.catalog.name (.named m.response) ≠ Recovery.asyncCallName)
    (hcalls : CallsNamed lib) (hs : Visited lib.catalog names s) (hdiscernible : S.Discernible lib s.pool)
    (options : Options) :
    let server := outcome (Request.run lib.catalog names (.service (.named S.server.fullName) options)) s
    let client := outcome (Request.run lib.catalog names (.service (.named S.client.fullName) options)) s
    server.1 = client.1 ∧ SameRecord server.2 client.2 := by
  have hv := hdiscernible.discreet hin
  have hsighted : Sighted (lib.InSight s.pool) s.pool := fun k r h => ⟨keyed_of_visited hs k r h, .pooled h⟩
  -- Each class is looked up as itself, and that makes no difference to the other.
  obtain ⟨hp, hserver⟩ := hv.stand s.pool _ .server s.pool ⟨hsighted, hsighted, fun _ _ => rfl⟩
  obtain ⟨hp', hclient⟩ := hv.stand _ _ .client s.pool (hv.symm hp)
  have hsame : (hdiscernible.kin hin).Same (s.after (lib.catalog.resolve (.named S.server.fullName)))
      (s.after (lib.catalog.resolve (.named S.client.fullName))) := ⟨rfl, rfl, rfl, hv.symm hp'⟩
  have hpaired := paired_service hin hv hcalls hnames hresponse names options (holder_inSight hin)
    (Recovery.deep_callsWithin (lib.env names options) _ (min_le_left _ _) (min_le_right _ _))
    (fun s₁ => le_min (hdiscernible.enough hin (.named S.server.fullName) s₁)
      (hdiscernible.enough hin (.named S.client.fullName) s₁)) hsame
  intro server client
  have hserver : server = _ := outcome_service_at hserver options
  have hclient : client = _ := outcome_service_at hclient options
  rw [hserver, hclient]
  exact ⟨congrArg (Except.map some) hpaired.result, hpaired.same.schema.symm, hpaired.same.memo.symm,
    hpaired.same.diagnostics.symm⟩

/-! ## A service with every kind of call -/

/-- Calls of all kinds between two messages. -/
def greeter : Service where
  name := "Greeter"
  namespaceName := some "App"
  calls :=
    [⟨"SayHello", "App.HelloRequest", "App.HelloReply", .unary⟩,
      ⟨"Follow", "App.HelloRequest", "App.HelloReply", .serverStreaming⟩,
      ⟨"Upload", "App.HelloRequest", "App.HelloReply", .clientStreaming⟩,
      ⟨"Chat", "App.HelloRequest", "App.HelloReply", .duplexStreaming⟩]

/-- The messages of the calls. -/
def greeterMessages : List Message :=
  [{ name := "HelloRequest", namespaceName := some "App", items := [.field ⟨"Name", 1, .named "System.String", false⟩] },
    { name := "HelloReply", namespaceName := some "App", items := [.field ⟨"Text", 1, .named "System.String", false⟩] }]

/-- A library of a service and some messages. -/
def libraryOf (S : Service) (ms : List Message) : Library :=
  .ofAssemblies [⟨"App", none, S.definitions ++ ms.flatMap (·.definitions)⟩] []

theorem wellNamed_libraryOf (S : Service) (ms : List Message) : (libraryOf S ms).WellNamed := by
  intro e he
  rw [libraryOf, entries_ofAssembly] at he
  obtain ⟨d, -, rfl⟩ := List.mem_map.1 he
  rfl

/-- Classes with names of their own are found by them. -/
theorem in_libraryOf {S : Service} {ms : List Message}
    (h : ((libraryOf S ms).entries.map (·.fullName)).Nodup) : S.In (libraryOf S ms) := by
  intro d hd
  have he : ⟨0, d.fullName, d⟩ ∈ (libraryOf S ms).entries := by
    rw [libraryOf, entries_ofAssembly]
    exact List.mem_map.2 ⟨d, List.mem_append_left _ hd, rfl⟩
  show ((libraryOf S ms).entries.find? (·.fullName == d.fullName)).map (·.definition) = some d
  cases hfound : (libraryOf S ms).entries.find? (·.fullName == d.fullName) with
  | none => simpa using List.find?_eq_none.1 hfound _ he
  | some e =>
    have hname : e.fullName = d.fullName := by simpa using List.find?_some hfound
    rw [List.inj_on_of_nodup_map h (List.mem_of_find?_eq_some hfound) he hname]
    rfl

theorem callsNamed_of_named (h : ∀ k : CallKind, lib.catalog.name (.named k.typeFullName) = k.typeName) : CallsNamed lib :=
  fun k _ => h k

/-- The service with its messages. -/
def greeterLibrary : Library := libraryOf greeter greeterMessages

/-- A message of the service was asked for. -/
def greeterState : State TypeRef :=
  (outcome (Request.run greeterLibrary.catalog none (.message (.named "App.HelloReply") {}))
    (Recovery.start greeterLibrary.catalog)).2

theorem legible_greeterLibrary : greeterLibrary.Legible where
  fullName := by decide +kernel
  reference := by decide +kernel
  attributes := by decide +kernel

/-- After one of its messages, the service is recovered with all its calls, from either side. -/
theorem client_and_server_alike_greeter :
    let server := outcome (Request.run greeterLibrary.catalog none (.service (.named greeter.server.fullName) {}))
      greeterState
    let client := outcome (Request.run greeterLibrary.catalog none (.service (.named greeter.client.fullName) {}))
      greeterState
    server.1.toOption = some (some 1) ∧ (server.2.schema.decls[1]?.bind (·.service?)).map (·.methods.length) = some 4 ∧
      server.1 = client.1 ∧ SameRecord server.2 client.2 := by
  have hin : greeter.In greeterLibrary := in_libraryOf (by decide +kernel)
  have hs : Visited greeterLibrary.catalog none greeterState := .step _ .start
  refine ⟨by decide +kernel, by decide +kernel, ?_⟩
  have hcalls : CallsNamed greeterLibrary := callsNamed_of_named fun k => by cases k <;> decide +kernel
  have hspelled : ∀ r ∈ held greeterState.pool, r.Spelled := by decide +kernel
  have hdiscernible := hin.discernible legible_greeterLibrary (wellNamed_libraryOf _ _) hspelled
  exact client_and_server_alike hin (by decide) (by decide +kernel) hcalls hs hdiscernible {}

/-! ## A class called like a stream -/

/-- A call that streams its requests. -/
def uploader : Service where
  name := "Greeter"
  namespaceName := some "App"
  calls := [⟨"Upload", "App.Req", "App.Resp", .clientStreaming⟩]

/-- The call with its messages, and a class that has the key of the stream for its name. -/
def uploaderLibrary : Library :=
  libraryOf uploader
    [{ name := "Req", namespaceName := some "App" }, { name := "Resp", namespaceName := some "App" },
      { name := "IAsyncStreamReader\x601[[App.Req]]", namespaceName := some "Grpc.Core" }]

/-- The service recovered from one of its classes. -/
def uploaderOutcome (name : String) : Except Error (Option DeclId) × State TypeRef :=
  outcome (Request.run uploaderLibrary.catalog none (.service (.named name) {})) (Recovery.start uploaderLibrary.catalog)

/-- On the server the stream is taken for the class, so the call does not stream and has another request. -/
theorem stream_taken_for_class :
    uploader.In uploaderLibrary ∧ (∀ m ∈ uploader.calls, m.name ≠ ".ctor" ∧ m.name ≠ ".cctor") ∧
      (∀ m ∈ uploader.calls, uploaderLibrary.catalog.name (.named m.response) ≠ Recovery.asyncCallName) ∧
      CallsNamed uploaderLibrary ∧
      (uploaderOutcome "App.Greeter+GreeterBase").1.toOption = some (some 0) ∧
      (uploaderOutcome "App.Greeter+GreeterClient").1.toOption = some (some 0) ∧
      ¬SameRecord (uploaderOutcome "App.Greeter+GreeterBase").2 (uploaderOutcome "App.Greeter+GreeterClient").2 := by
  refine ⟨in_libraryOf (by decide +kernel), by decide, by decide +kernel,
    callsNamed_of_named fun k => by cases k <;> decide +kernel, by decide +kernel, by decide +kernel, fun h => ?_⟩
  have hserver : (uploaderOutcome "App.Greeter+GreeterBase").2.memo.map (·.1) =
      ["App.Greeter", "Grpc.Core.IAsyncStreamReader\x601[[App.Req]]", "App.Resp"] := by decide +kernel
  have hclient : (uploaderOutcome "App.Greeter+GreeterClient").2.memo.map (·.1) =
      ["App.Greeter", "App.Req", "App.Resp"] := by decide +kernel
  rw [h.2.1, hserver] at hclient
  exact absurd hclient (by decide)

end Generated

end ProtoRecovery.Managed
