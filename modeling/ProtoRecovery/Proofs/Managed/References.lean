import ProtoRecovery.Proofs.Managed.Output
import ProtoRecovery.Proofs.Recovery.Kinds
import ProtoRecovery.Proofs.Recovery.Provenance
import ProtoRecovery.Proofs.Schema.Export
/-!
# Names in the descriptors of a library

Without a dictionary a declaration has the simple name of its class, in which there is no dot. So full names can be taken
apart, and what is referred to in descriptors is found by following them.
-/

namespace ProtoRecovery

theorem Identifier.undotted_simple (name : String) : '.' ∉ (Identifier.simple name).toList := by
  intro h
  simp only [Identifier.simple, Identifier.simpleChars, Catalog.afterLast, String.toList_ofList, List.mem_reverse] at h
  have hseparator := List.mem_takeWhile_imp h
  simp [Identifier.isSeparator] at hseparator

namespace Managed

open Recovery (Reached Attempted Request Sourced outcome start)
open Schema (DeclId)

variable {lib : Library} {names : Option Identifier.Dictionary} {holder : TypeRef → Prop} {s : Recovery.State TypeRef}

theorem attempted_of_reached (hs : Reached lib.catalog names holder s) : Attempted lib.catalog names holder s := by
  induction hs with
  | start => exact .start
  | @step s s' q _ _ hq hgives ih =>
    have houtcome : (outcome (q.run lib.catalog names) s).2 = s' := congrArg Prod.snd hgives
    exact houtcome ▸ .step q ih hq

/-- Types as they stand in the end account for all names and types. -/
theorem sourced_in_view (hs : Reached lib.catalog names holder s) :
    s.schema.Shows (Sourced (lib.viewFrom s.pool (keyed_of_reached hs) holder) names) :=
  Recovery.sourced_of_reached hs fun _ _ h => h

/-- Without a dictionary there is no dot in the name of a declaration. -/
theorem undotted_of_reached (hs : Reached lib.catalog none holder s) :
    ∀ id < s.schema.size, '.' ∉ (s.schema.nameOf id).toList := by
  intro id hid
  obtain ⟨d, hd⟩ : ∃ d, s.schema.decls[id]? = some d := ⟨_, List.getElem?_eq_getElem hid⟩
  obtain ⟨t, ht⟩ := (sourced_in_view hs id d.face (by rw [Schema.faceOf?, hd]; rfl)).name
  rw [Schema.nameOf_eq hd, show d.name = _ from ht]
  exact Identifier.undotted_simple _

theorem isType_of_kind {S : Schema} {id : DeclId}
    (h : Recovery.kindOf? S id = some .message ∨ Recovery.kindOf? S id = some .enum) :
    ∃ d, S.decls[id]? = some d ∧ d.isType = true := by
  unfold Recovery.kindOf? Schema.outlineOf? at h
  cases hd : S.decls[id]? with
  | none => simp [hd] at h
  | some d =>
    refine ⟨d, rfl, ?_⟩
    cases hb : d.body <;>
      simp_all [Schema.Declaration.outline, Schema.Body.kind, Schema.Declaration.isType, Schema.Declaration.message?,
        Schema.Declaration.enum?]

theorem navigable_of_reached {targets supports : List Assembly} (hload : Library.load targets supports = .ok lib)
    (hs : Reached lib.catalog none (PlainHolder lib) s) : s.schema.Navigable where
  forest := forest_of_reached hload hs
  undotted := undotted_of_reached hs
  referred id target htarget := by
    have hkinds := Recovery.kindsAgree_of_attempted (Recovery.discerning_library lib) (attempted_of_reached hs)
    exact isType_of_kind (hkinds.reference id target htarget)

/-- After any requests that all end well, with services named for plain holders and no dictionary, every reference in a
descriptor can be followed: what is named there is found, in the file of what is referred to, by the parts of its name,
and is of the kind that is told; and a map field names an entry message in its own message. -/
theorem references_resolve {targets supports : List Assembly} (hload : Library.load targets supports = .ok lib)
    (hs : Reached lib.catalog none (PlainHolder lib) s) : s.schema.ReferencesResolve :=
  (navigable_of_reached hload hs).referencesResolve

section Sample

/-- A message with a message and an enum in it that refer to each other, also in a list and in a map, and a service. -/
def market : Assembly where
  name := "App"
  types :=
    Generated.Message.definitions
      { name := "Order", namespaceName := some "App",
        items := [
          .field ⟨"Lines", 1, ⟨"Google.Protobuf.Collections.RepeatedField\x601", [.named "App.Order+Types+Line"]⟩, false⟩,
          .field ⟨"States", 2, ⟨"Google.Protobuf.Collections.MapField\x602",
            [.named "System.String", .named "App.Order+Types+State"]⟩, false⟩] } ++
    [{ name := "Types", declaringType := some "App.Order", isAbstract := true, isSealed := true }] ++
    Generated.Message.definitions
      { name := "Line", declaringType := some "App.Order+Types",
        items := [.field ⟨"Order", 1, .named "App.Order", false⟩,
          .field ⟨"State", 2, .named "App.Order+Types+State", false⟩] } ++
    [{ name := "State", declaringType := some "App.Order+Types", isEnum := true, isValueType := true, isSealed := true,
       fields := [Generated.literal "Open" 0, Generated.literal "Done" 1] },
     { name := "Market", namespaceName := some "App", isAbstract := true, isSealed := true },
     { name := "MarketBase", declaringType := some "App.Market", isAbstract := true,
       methods := [
         { name := "Place", isPublic := true, isVirtual := true,
           returnType := ⟨"System.Threading.Tasks.Task\x601", [.named "App.Order"]⟩,
           parameters := [.named "App.Order+Types+Line", .named "Grpc.Core.ServerCallContext"],
           attributes := [⟨Recovery.generatedCodeAttribute, [.string (some Recovery.serviceGenerator)]⟩] }] }]

/-- The assembly loaded. -/
def marketLibrary : Library := .ofAssemblies [market] []

/-- The service is asked for. -/
def marketOutcome : Except Error (Option DeclId) × Recovery.State TypeRef :=
  outcome (Request.run marketLibrary.catalog none (.service (.named "App.Market") {})) (start marketLibrary.catalog)

/-- The names of types in the fields of a message. -/
def typeNames (m : Schema.MessageDescriptor) : List (Option String) := m.fields.map (·.typeName)

/-- The line is in the order, and both are named in the fields of the other and by the service. -/
theorem references_resolve_market :
    Library.load [market] [] = .ok marketLibrary ∧
      Reached marketLibrary.catalog none (PlainHolder marketLibrary) marketOutcome.2 ∧
      ((marketOutcome.2.schema.descriptors.flatMap (·.messages)).map fun m => typeNames m :: m.messages.map typeNames) =
        [[[some ".Order.Line", some ".Order.StatesEntry"], [none, some ".Order.State"],
          [some ".Order", some ".Order.State"]]] ∧
      ((marketOutcome.2.schema.descriptors.flatMap (·.services)).flatMap fun x =>
        x.methods.map fun m => (m.input, m.output)) = [(".Order.Line", ".Order")] ∧
      marketOutcome.2.schema.ReferencesResolve := by
  have hload : Library.load [market] [] = .ok marketLibrary := Generated.load_of_accessors (by decide +kernel)
  have hholder : Request.Holds marketLibrary.catalog (PlainHolder marketLibrary) (start marketLibrary.catalog)
      (.service (.named "App.Market") {}) :=
    Request.holds_service (t := .named "App.Market") (by decide +kernel) ⟨by decide +kernel, by decide +kernel⟩
  have hs : Reached marketLibrary.catalog none (PlainHolder marketLibrary) marketOutcome.2 :=
    .step (q := .service (.named "App.Market") {}) .start hholder
      (Recovery.gives_of_outcome (a := some 0) (by decide +kernel))
  exact ⟨hload, hs, by decide +kernel, by decide +kernel, references_resolve hload hs⟩

end Sample

end Managed

end ProtoRecovery
