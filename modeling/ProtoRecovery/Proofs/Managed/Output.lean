import ProtoRecovery.Proofs.Managed.Placement
import ProtoRecovery.Proofs.Recovery.Editions
import ProtoRecovery.Proofs.Recovery.Visits
import ProtoRecovery.Proofs.Schema.ClosedText
import ProtoRecovery.Proofs.Schema.Walk
/-!
# What is written of a library

A session in which every request ends well leaves a forest of well-formed messages, so all that was recovered is
written, and nothing twice; and no text lacks an edition that an enum in it needs.
-/

namespace ProtoRecovery.Managed

open Catalog (Pool)
open Recovery (Reached Request outcome start)
open Schema (DeclId)

variable {lib : Library} {names : Option Identifier.Dictionary} {holder : TypeRef → Prop} {s : Recovery.State TypeRef}

theorem wellFormed_of_reached (hs : Reached lib.catalog names holder s) :
    ∀ d ∈ s.schema.decls, ∀ m, d.message? = some m → m.WellFormed := by
  intro d hd m hm
  obtain ⟨x, hx⟩ := List.mem_iff_getElem?.1 hd
  have hface : s.schema.faceOf? x = some d.face := by rw [Schema.faceOf?, hx]; rfl
  exact Recovery.wellFormed_of_face (Recovery.presentable_of_visited hs.visited hface) hm

theorem forest_of_reached {targets supports : List Assembly} (hload : Library.load targets supports = .ok lib)
    (hs : Reached lib.catalog names (PlainHolder lib) s) : s.schema.Forest := by
  have hv := orderly_viewFrom (wellNamed_of_load hload) (keyed_of_reached hs)
  obtain ⟨types, ha⟩ := Recovery.arranged_of_built hv.toOrdered (built_in_view hs)
  exact Recovery.forest_of_arranged ha hv

/-- After any requests that all end well, with services named for plain holders, every declaration, field, choice and
method is written exactly once. -/
theorem written_once {targets supports : List Assembly} (hload : Library.load targets supports = .ok lib)
    (hs : Reached lib.catalog names (PlainHolder lib) s) : s.schema.WalksOnce :=
  (forest_of_reached hload hs).walksOnce (wellFormed_of_reached hs)

/-- After any requests that all end well, enums are closed just when no member is zero, and files and texts have an
edition just when they need one. -/
theorem editions_agree {targets supports : List Assembly} (hload : Library.load targets supports = .ok lib)
    (hs : Reached lib.catalog names (fun _ => True) s) : s.schema.EditionsAgree := by
  have hv := ordered_viewFrom (wellNamed_of_load hload) (keyed_of_reached hs) fun _ => True
  have hbuilt := built_in_view hs
  obtain ⟨types, ha⟩ := Recovery.arranged_of_built hv hbuilt
  apply Schema.editionsAgree_of_dated
  · exact Recovery.dated_of_built hbuilt
  · exact fun x e he => Recovery.told_of_built hbuilt he
  · exact fun x hx => Recovery.exists_fileOf? ha hv _ x hx rfl
  · exact fun f r hr x hx => Recovery.fileOf?_of_mem_descendants ha hr hx

section Sample

/-- A message with a choice and an enum in it, and a service. -/
def shop : Assembly where
  name := "App"
  types :=
    Generated.Message.definitions
      { name := "Order", namespaceName := some "App",
        items := [.field { name := "Code", number := 4, type := .named "System.Int32" },
          .field { name := "State", number := 3, type := .named "App.Order+Types+State" },
          .field { name := "Label", number := 2, type := .named "System.String" },
          .choice { name := "Key", cases := [("Code", 4), ("Label", 2)] }] } ++
    [{ name := "Types", declaringType := some "App.Order", isAbstract := true, isSealed := true },
     { name := "State", declaringType := some "App.Order+Types", isEnum := true, isValueType := true, isSealed := true,
       fields := [Generated.literal "Open" 1, Generated.literal "Done" 2] },
     { name := "Shop", namespaceName := some "App", isAbstract := true, isSealed := true },
     { name := "ShopBase", declaringType := some "App.Shop", isAbstract := true,
       methods := [
         { name := "Place", isPublic := true, isVirtual := true,
           returnType := ⟨"System.Threading.Tasks.Task\x601", [.named "App.Order"]⟩,
           parameters := [.named "App.Order", .named "Grpc.Core.ServerCallContext"],
           attributes := [⟨Recovery.generatedCodeAttribute, [.string (some Recovery.serviceGenerator)]⟩] }] }]

/-- The assembly loaded. -/
def shopLibrary : Library := .ofAssemblies [shop] []

/-- The service is asked for. -/
def shopOutcome : Except Error (Option DeclId) × Recovery.State TypeRef :=
  outcome (Request.run shopLibrary.catalog none (.service (.named "App.Shop") {})) (start shopLibrary.catalog)

/-- A service, its message and the enum in it are written once each. -/
theorem written_once_shop :
    Library.load [shop] [] = .ok shopLibrary ∧
      Reached shopLibrary.catalog none (PlainHolder shopLibrary) shopOutcome.2 ∧
      shopOutcome.2.schema.counts =
        { files := 2, messages := 1, fields := 3, choices := 1, enums := 1, services := 1, methods := 1 } ∧
      shopOutcome.2.schema.WalksOnce := by
  have hload : Library.load [shop] [] = .ok shopLibrary := Generated.load_of_accessors (by decide +kernel)
  have hholder : Request.Holds shopLibrary.catalog (PlainHolder shopLibrary) (start shopLibrary.catalog)
      (.service (.named "App.Shop") {}) :=
    Request.holds_service (t := .named "App.Shop") (by decide +kernel) ⟨by decide +kernel, by decide +kernel⟩
  have hs : Reached shopLibrary.catalog none (PlainHolder shopLibrary) shopOutcome.2 :=
    .step (q := .service (.named "App.Shop") {}) .start hholder
      (Recovery.gives_of_outcome (a := some 0) (by decide +kernel))
  exact ⟨hload, hs, by decide +kernel, written_once hload hs⟩

/-- The enum in the message is closed, so the file of the message has an edition and that of the service has none. -/
theorem editions_agree_shop :
    Library.load [shop] [] = .ok shopLibrary ∧ Reached shopLibrary.catalog none (fun _ => True) shopOutcome.2 ∧
      shopOutcome.2.schema.files.map (·.edition) = [none, some "2023"] ∧ shopOutcome.2.schema.isClosedEnum 2 = true ∧
      shopOutcome.2.schema.EditionsAgree := by
  have hload : Library.load [shop] [] = .ok shopLibrary := Generated.load_of_accessors (by decide +kernel)
  have hs : Reached shopLibrary.catalog none (fun _ => True) shopOutcome.2 :=
    .step (q := .service (.named "App.Shop") {}) .start (fun _ _ => trivial)
      (Recovery.gives_of_outcome (a := some 0) (by decide +kernel))
  exact ⟨hload, hs, by decide +kernel, by decide +kernel, editions_agree hload hs⟩

end Sample

end ProtoRecovery.Managed
