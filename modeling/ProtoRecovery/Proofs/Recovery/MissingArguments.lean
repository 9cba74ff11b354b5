import ProtoRecovery.Proofs.Il2cpp.AttributeErrors
import ProtoRecovery.Proofs.Managed.Ending
/-!
# Arguments that are not there

Old metadata tells which attributes a member has and keeps no arguments for them. A recovery reads arguments in two places,
for the name that an enum member had and for the generator of a method, and goes on without them in both. So it never fails
for want of them. Where all attributes can be read, as in a library, it fails only over classes that do not have the shape
of generated code.
-/

namespace ProtoRecovery.Recovery

open Identifier (Dictionary)
open Managed (Keyed Library TypeRef)
open Il2cpp (Handle Store)

variable {ρ : Type} {names : Option Dictionary}

/-- Whatever a request fails with, it is a complaint about the catalog. -/
theorem complains_request [DecidableEq ρ] (c : Catalog ρ) (names : Option Dictionary) (q : Request ρ) :
    Complains c (q.run c names) := by
  cases q with
  | type r => exact results_bind (complains_look (c.resolve r)) fun _ _ => results_pure trivial
  | message r options =>
    refine results_bind (complains_look (c.resolve r)) fun t _ => ?_
    exact results_bind (complains_recoverMessage ⟨c, names, options⟩ t) fun _ _ => results_pure trivial
  | enum r options =>
    refine results_bind (complains_look (c.resolve r)) fun t _ => ?_
    exact results_bind (complains_recoverEnum ⟨c, names, options⟩ t) fun _ _ => results_pure trivial
  | service r options =>
    refine results_bind (complains_look (c.resolve r)) fun t _ => ?_
    exact results_bind (complains_recoverService ⟨c, names, options⟩ t) fun _ _ => results_pure trivial

/-! ## Complaints about the two kinds of metadata -/

/-- A complaint is about the shape of a class or about arguments without end, unless it is about attributes. -/
theorem Complaint.cases {c : Catalog ρ} {e : Error} (h : Complaint c e) :
    (∃ type reason, e = .misfit type reason) ∨ (∃ type, e = .endlessType type) ∨ Attributed c (.error e) := by
  cases h with
  | attributes hx => exact .inr (.inr hx)
  | endless t => exact .inr (.inl ⟨_, rfl⟩)
  | _ => exact .inl ⟨_, _, rfl⟩

theorem complaint_library {lib : Library} {e : Error} (h : Complaint lib.catalog e) :
    (∃ type reason, e = .misfit type reason) ∨ ∃ type, e = .endlessType type := by
  rcases h.cases with hmisfit | hendless | hattributes
  · exact .inl hmisfit
  · exact .inr hendless
  · obtain ⟨attributes, hread⟩ := attributes_of_library hattributes
    cases hread

theorem complaint_store {st : Store} {e : Error} (h : Complaint st.catalog e) (version : Number.Binary32) :
    e ≠ .argumentsUnavailable version := by
  rintro rfl
  rcases h.cases with ⟨_, _, he⟩ | ⟨_, he⟩ | hattributes
  · cases he
  · cases he
  · cases Il2cpp.Store.attributable_of_attributed hattributes _ rfl

/-- No type of a library has arguments without end, so no request stops for them. -/
theorem bounded_request {lib : Library} {s : State TypeRef} (hs : Keyed s.pool) (q : Request TypeRef) (name : String) :
    (outcome (q.run lib.catalog names) s).1 ≠ .error (.endlessType name) := by
  have hmap : ∀ x : Except Error Schema.DeclId, x ≠ .error (.endlessType name) →
      x.map some ≠ .error (.endlessType name) := by
    rintro (e | id) hx h
    · exact hx (congrArg _ (Except.error.inj h))
    · cases h
  cases q with
  | type r => exact nofun
  | message r options =>
    rw [Request.run, outcome_lookUp]
    exact hmap _ (Managed.bounded_recoverMessage _ (Managed.keyed_resolve hs r) name)
  | enum r options =>
    rw [Request.run, outcome_lookUp]
    exact hmap _ (Managed.bounded_recoverEnum _ (Managed.keyed_resolve hs r) name)
  | service r options =>
    rw [Request.run, outcome_lookUp]
    exact hmap _ (Managed.bounded_recoverService _ (Managed.keyed_resolve hs r) name)

/-- In whatever state a request is made, it never fails for arguments that are not there. Over a library it fails only over
the shape of a class; of the state no more is asked than that references stand in the pool under their own keys, as they
do in every session. -/
theorem missing_arguments_never_fail (names : Option Dictionary) :
    (∀ (st : Store) (s : State Handle) (q : Request Handle) (version : Number.Binary32),
      (outcome (q.run st.catalog names) s).1 ≠ .error (.argumentsUnavailable version)) ∧
    ∀ (lib : Library) (s : State TypeRef) (q : Request TypeRef),
      (∀ version, (outcome (q.run lib.catalog names) s).1 ≠ .error (.argumentsUnavailable version)) ∧
        (Keyed s.pool → ∀ e, (outcome (q.run lib.catalog names) s).1 = .error e →
          ∃ type reason, e = .misfit type reason) := by
  refine ⟨fun st s q version h => ?_, fun lib s q => ⟨fun version h => ?_, fun hs e h => ?_⟩⟩
  · exact complaint_store ((complains_request st.catalog names q).error h) version rfl
  · rcases complaint_library ((complains_request lib.catalog names q).error h) with ⟨_, _, he⟩ | ⟨_, he⟩ <;> cases he
  · rcases complaint_library ((complains_request lib.catalog names q).error h) with hmisfit | ⟨type, rfl⟩
    · exact hmisfit
    · exact absurd h (bounded_request hs q type)

/-- An enum of old metadata: a member with an attribute for its name, and one without a value. -/
def legacyTables : Il2cpp.Tables where
  version := .ofInt 24
  images := [⟨"App.dll", ⟨0, 2⟩, {}⟩]
  definitions := [
    { name := "OriginalNameAttribute", namespaceName := "Google.Protobuf.Reflection" },
    { name := "Color", namespaceName := "App", isValueType := true, isEnum := true, fields := ⟨0, 2⟩ }]
  fields := [{ name := "Red", customAttribute := 0, constant := some (.i4 0) }, { name := "Blue" }]
  attributes := [⟨0, ⟨0, 1⟩⟩]
  attributeTypes := [1]
  entries := [⟨0x11, 0x56, .definition 1⟩, ⟨0x12, 0, .definition 0⟩]

/-- The tables loaded. -/
def legacyStore : Store := .ofTables legacyTables

/-- The argument of the attribute is not there, and the enum fails over the other member. Over a library that has nothing a
message fails as well, over its class. -/
theorem missing_arguments_never_fail_legacy :
    Store.load legacyTables = .ok legacyStore ∧
      ((legacyStore.catalog.fields (.definition 1)).flatMap fun f =>
        (f.attributes.toOption.getD []).map fun a => a.arguments.isOk) = [false] ∧
      (outcome (Request.run legacyStore.catalog none (.enum (.definition 1) {})) (start legacyStore.catalog)).1 =
        .error (.misfit "App.Color" (.memberNotInt32 "Blue")) ∧
      (∀ version, (outcome (Request.run legacyStore.catalog none (.enum (.definition 1) {}))
        (start legacyStore.catalog)).1 ≠ .error (.argumentsUnavailable version)) ∧
      Keyed (start (⟨[], 0, []⟩ : Library).catalog).pool ∧
      ∃ e, (outcome (Request.run (⟨[], 0, []⟩ : Library).catalog none (.message (.named "App.Order") {}))
          (start (⟨[], 0, []⟩ : Library).catalog)).1 = .error e ∧ ∃ type reason, e = .misfit type reason := by
  have hkeyed : Keyed (start (⟨[], 0, []⟩ : Library).catalog).pool := Managed.keyed_start _
  have hfails : (outcome (Request.run (⟨[], 0, []⟩ : Library).catalog none (.message (.named "App.Order") {}))
      (start (⟨[], 0, []⟩ : Library).catalog)).1 = .error (.misfit "App.Order" .notMessage) := by decide +kernel
  refine ⟨rfl, by decide +kernel, by decide +kernel, fun version => ?_, hkeyed, _, hfails, ?_⟩
  · exact (missing_arguments_never_fail none).1 _ _ _ version
  · exact ((missing_arguments_never_fail none).2 _ _ _).2 hkeyed _ hfails

end ProtoRecovery.Recovery
