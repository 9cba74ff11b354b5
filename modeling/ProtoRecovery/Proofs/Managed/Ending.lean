import ProtoRecovery.Proofs.Managed.Depth
import ProtoRecovery.Proofs.Recovery.Ending
/-!
# Recoveries from a library end

Whatever the types of a library lead to, in circles or not, a recovery from it ends: the depth that it is allowed is
more than it needs, and all the files that it gives are given in finitely many visits.
-/

namespace ProtoRecovery.Managed

open Relation (ReflTransGen)
open Recovery (Calls Ends Options Recover Request State Swept Visited depthFor outcome outcome_callsFor recoverEnum
  recoverMessage recoverService service)

variable {lib : Library} {keys : Finset String}

/-! ## Services -/

theorem serves_alone (hbound : lib.Bounded keys) : (lib.alone hbound).Serves where
  nested t r hr := by
    have hr : r ∈ if (lib.definitionOf? t).isNone then [] else
        (lib.entries.filter (·.definition.declaringType == some t.key)).map (.named ·.fullName) := hr
    split at hr
    · cases hr
    · obtain ⟨e, -, rfl⟩ := List.mem_map.1 hr
      exact modest_named _
  methods := by
    refine agree_collect hbound.admits (fun r hr => (lib.alone hbound).resolve r hr) fun e he _ m hm => ?_
    obtain ⟨hreturned, hparameters, hattributes⟩ := hbound.admits.method he hm
    exact ⟨hreturned, hparameters, hattributes⟩

theorem bounded_recoverService {names : Option Identifier.Dictionary} {options : Options} {s : State TypeRef}
    (t : TypeRef) (hs : Keyed s.pool) (name : String) :
    (outcome (recoverService ⟨lib.catalog, names, options⟩ t) s).1 ≠ .error (.endlessType name) := by
  unfold recoverService
  rw [outcome_callsFor]
  exact (Recovery.paired_service ⟨lib.catalog, names, options⟩ (deep_aloneFor t names options le_rfl) (serves_alone _)
    (same_aloneFor t hs) (enough_aloneFor t s)).bounded name

/-! ## The depth is enough -/

/-- With itself, a library is compared from one and the same state only. -/
theorem eq_of_same {hbound : lib.Bounded keys} {s s' : State TypeRef} (h : (lib.alone hbound).Same s s') : s = s' := by
  obtain ⟨hschema, hmemo, hdiagnostics, hpool, -⟩ := h
  cases s
  cases s'
  simp_all

section Depth
variable {names : Option Identifier.Dictionary} {options : Options} {s : State TypeRef}

/-- A step ends if it ends alike with all calls that go deep enough for whatever may be left to enter. -/
theorem ends_of_paired {α : Type} (t : TypeRef) (f : Calls TypeRef → Recover TypeRef α)
    (hf : ∀ calls calls', (lib.aloneFor s t).Deep (depthFor lib.catalog s t) calls calls' →
      (lib.aloneFor s t).Paired (f calls) (f calls') s s) :
    Ends ⟨lib.catalog, names, options⟩ (Recovery.callsFor ⟨lib.catalog, names, options⟩ t >>= f) f
      (depthFor lib.catalog s t) s := by
  constructor
  · rw [outcome_callsFor]
    exact (hf _ _ (deep_aloneFor t names options le_rfl)).bounded
  · intro d hd
    rw [outcome_callsFor]
    have hpaired := hf _ _ (deep_aloneFor t names options hd)
    exact Prod.ext hpaired.result (eq_of_same hpaired.same)

end Depth

/-! ## Two classes that are declared in each other -/

/-- `A` is declared in `B` and has a field of it, and `B` is declared in `A` and has a field of it. -/
def ring : Library where
  assemblies := [{ name := "App" }]
  targets := 1
  entries :=
    (List.flatMap Generated.Message.definitions
      [{ name := "A", declaringType := some "B", items := [.field { name := "Other", number := 1, type := .named "B" }] },
       { name := "B", declaringType := some "A", items := [.field { name := "Other", number := 1, type := .named "A" }] }]).map
      fun d => ⟨0, d.name, d⟩

/-- `A` has been asked for. -/
def ringVisited : State TypeRef :=
  (outcome (Request.run ring.catalog none (.message (.named "A") {})) (Recovery.start ring.catalog)).2

/-- Every recovery ends, whatever was asked before; and wherever a request gives files, that ends as well, and nothing
is visited twice for it. -/
theorem recoveries_end (lib : Library) (names : Option Identifier.Dictionary) {s : State TypeRef}
    (hs : Visited lib.catalog names s) :
    (∀ (options : Options) (t : TypeRef),
      Ends ⟨lib.catalog, names, options⟩ (recoverMessage ⟨lib.catalog, names, options⟩ t) (·.message t)
        (depthFor lib.catalog s t) s ∧
      Ends ⟨lib.catalog, names, options⟩ (recoverEnum ⟨lib.catalog, names, options⟩ t) (·.enum t)
        (depthFor lib.catalog s t) s ∧
      Ends ⟨lib.catalog, names, options⟩ (recoverService ⟨lib.catalog, names, options⟩ t)
        (service ⟨lib.catalog, names, options⟩ · t) (depthFor lib.catalog s t) s) ∧
    ∀ q : Request TypeRef, ReflTransGen (Swept lib.catalog) s (outcome (q.run lib.catalog names) s).2 := by
  refine ⟨fun options t => ?_, fun q => Recovery.swept_request hs q⟩
  have hsame : (lib.aloneFor s t).Same s s := same_aloneFor t (keyed_of_visited hs)
  have hdepth := (enough_aloneFor t s : _ ≤ depthFor lib.catalog s t)
  refine ⟨ends_of_paired t _ fun calls calls' hdeep => ?_, ends_of_paired t _ fun calls calls' hdeep => ?_,
    ends_of_paired t _ fun calls calls' hdeep => ?_⟩
  · exact hdeep.message (seen_aloneFor t s) hsame ((Nat.le_add_right ..).trans hdepth)
  · exact hdeep.enum (seen_aloneFor t s) hsame ((Nat.le_add_right ..).trans hdepth)
  · exact Recovery.paired_service ⟨lib.catalog, names, options⟩ hdeep (serves_alone _) hsame hdepth

/-- The two classes are nested in each other and get no file, and recoveries from them end. -/
theorem ring_recoveries_end :
    Visited ring.catalog none ringVisited ∧
      (ringVisited.schema.parentOf? 0 = some 1 ∧ ringVisited.schema.parentOf? 1 = some 0) ∧
      Ends ⟨ring.catalog, none, {}⟩ (recoverMessage ⟨ring.catalog, none, {}⟩ (.named "B")) (·.message (.named "B"))
        (depthFor ring.catalog ringVisited (.named "B")) ringVisited ∧
      ReflTransGen (Swept ring.catalog) ringVisited
        (outcome (Request.run ring.catalog none (.message (.named "B") {})) ringVisited).2 := by
  have hs : Visited ring.catalog none ringVisited := .step _ .start
  refine ⟨hs, by decide +kernel, ((recoveries_end ring none hs).1 {} (.named "B")).1, ?_⟩
  exact (recoveries_end ring none hs).2 (.message (.named "B") {})

end ProtoRecovery.Managed
