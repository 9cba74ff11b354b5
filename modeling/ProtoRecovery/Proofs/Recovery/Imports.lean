import ProtoRecovery.Proofs.Managed.Generated
import ProtoRecovery.Proofs.Recovery.Growth
/-!
# Which imports a recovered schema has

A file imports what one of its declarations mentions, if that declaration and what it mentions both had a
file when they met. An import can be missing only where a nested class is met before the message around it.
-/

namespace ProtoRecovery

namespace Schema

/-- Every file imports whatever its declarations mention. -/
def ImportsComplete (s : Schema) : Prop :=
  ∀ d f, s.fileOf? d = some f → ∀ leaf ∈ s.leavesOf d,
    (∀ w, leaf = .wellKnown w → .wellKnown w.file ∈ s.importsOf f) ∧
      ∀ t g, leaf = .reference t → s.fileOf? t = some g → g ≠ f → .file g ∈ s.importsOf f

/-- A declaration is in a file and mentions a type for which the file needs an import. -/
def Needs (s : Schema) (d : DeclId) (file : FileId) (i : Import) : Prop :=
  s.fileOf? d = some file ∧ ∃ leaf ∈ s.leavesOf d, s.leafImport file leaf = some i

/-- The same, where both declarations had a file when they met. -/
def NeedsOnTime (s : Schema) (d : DeclId) (file : FileId) (i : Import) : Prop := s.RecordedFrom 0 d file i

theorem leafImport_eq_some {s : Schema} {f : FileId} {leaf : FieldType} {i : Import} :
    s.leafImport f leaf = some i ↔
      (∃ w, leaf = .wellKnown w ∧ i = .wellKnown w.file) ∨
        ∃ t g, leaf = .reference t ∧ s.fileOf? t = some g ∧ g ≠ f ∧ i = .file g := by
  cases leaf with
  | wellKnown w => simp [leafImport, eq_comm]
  | reference t =>
    cases hg : s.fileOf? t with
    | none => simp [leafImport, hg]
    | some g =>
      by_cases hf : g = f
      · simp [leafImport, hg, hf]
      · simp only [leafImport, hg, if_neg hf, Option.some.injEq]
        grind
  | scalar k => simp [leafImport]
  | repeated e => simp [leafImport]
  | map k v => simp [leafImport]

theorem importsComplete_iff_needs {s : Schema} :
    s.ImportsComplete ↔ ∀ d f i, s.Needs d f i → i ∈ s.importsOf f := by
  constructor
  · rintro h d f i ⟨hd, leaf, hl, hi⟩
    rcases leafImport_eq_some.1 hi with ⟨w, rfl, rfl⟩ | ⟨t, g, rfl, hg, hne, rfl⟩
    · exact (h d f hd _ hl).1 w rfl
    · exact (h d f hd _ hl).2 t g rfl hg hne
  · intro h d f hd leaf hl
    constructor
    · rintro w rfl
      exact h d f _ ⟨hd, _, hl, leafImport_eq_some.2 (.inl ⟨w, rfl, rfl⟩)⟩
    · rintro t g rfl hg hne
      exact h d f _ ⟨hd, _, hl, leafImport_eq_some.2 (.inr ⟨t, g, rfl, hg, hne, rfl⟩)⟩

end Schema

namespace Recovery

open Schema (DeclId FileId Import)
open Managed (Library Assembly TypeRef)

variable {ρ : Type} [DecidableEq ρ] {c : Catalog ρ} {names : Option Identifier.Dictionary} {s : State ρ}

/-- The imports of a file are exactly those that its declarations needed on time. -/
theorem mem_importsOf_iff (h : Reached c names (fun _ => True) s) {f : FileId} {i : Import} :
    i ∈ s.schema.importsOf f ↔ ∃ d, s.schema.NeedsOnTime d f i := by
  have hb : Built (View.blind c) s.ledger := built_of_reached h trivial
  rw [show s.schema = s.ledger.schema from rfl, (grown_of_built hb).imports]
  simp [Schema.importsOf, Schema.NeedsOnTime]

/-- Where every nested declaration comes after the message around it, no import is left out. -/
theorem importsComplete_of_parents_first (h : Reached c names (fun _ => True) s)
    (hp : ∀ x p, s.schema.parentOf? x = some p → p < x) : s.schema.ImportsComplete := by
  have hnever : ∀ d t, ¬s.schema.WaitsFrom 0 d t := by
    rintro d t ⟨a, -, -, p, hap, hlt, -⟩
    exact absurd (hp a p hap) (Nat.lt_asymm hlt)
  rw [Schema.importsComplete_iff_needs]
  rintro d f i ⟨hd, leaf, hl, hi⟩
  exact (mem_importsOf_iff h).2 ⟨d, hd, leaf, hl, hi, hnever d d, fun t _ => hnever d t⟩

/-! ## Three classes that lead to each other -/

/-- `Outer` mentions `Other`, and `Other` mentions `Inner`, which is nested in `Outer`. -/
def roundabout : Assembly where
  name := "App"
  types := List.flatMap Managed.Generated.Message.definitions
    [{ name := "Outer", namespaceName := some "App",
       items := [.field { name := "Other", number := 1, type := .named "App.Other" }] },
     { name := "Inner", declaringType := some "App.Outer" },
     { name := "Other", namespaceName := some "App",
       items := [.field { name := "Inner", number := 1, type := .named "App.Outer+Inner" }] }]

/-- The three classes loaded. -/
def roundaboutLibrary : Library := .ofAssemblies [roundabout] []

/-- The first request of a session about them. -/
def firstRequest (name : String) : Except Error (Option DeclId) × State TypeRef :=
  outcome (Request.run roundaboutLibrary.catalog none (.message (.named name) {}))
    (start roundaboutLibrary.catalog)

theorem reached_firstRequest (name : String) {o : Option DeclId} (h : (firstRequest name).1.toOption = some o) :
    Reached roundaboutLibrary.catalog none (fun _ => True) (firstRequest name).2 :=
  .step (q := .message (.named name) {}) .start trivial (gives_of_outcome h)

/-- A session leaves no import out just when every import that a declaration needs is needed on time, by it
or by another declaration of its file. -/
theorem importsComplete_iff_needed_on_time (h : Reached c names (fun _ => True) s) :
    s.schema.ImportsComplete ↔
      ∀ d f i, s.schema.Needs d f i → ∃ d', s.schema.NeedsOnTime d' f i := by
  simp only [Schema.importsComplete_iff_needs, mem_importsOf_iff h]

/-- Asked for `Outer` first, a session misses nothing. -/
theorem imports_needed_on_time_outer_first :
    Reached roundaboutLibrary.catalog none (fun _ => True) (firstRequest "App.Outer").2 ∧
      (firstRequest "App.Outer").2.schema.ImportsComplete ∧
      ∀ d f i, (firstRequest "App.Outer").2.schema.Needs d f i →
        ∃ d', (firstRequest "App.Outer").2.schema.NeedsOnTime d' f i := by
  have hr := reached_firstRequest "App.Outer" (o := some 0) (by decide +kernel)
  have hsize : (firstRequest "App.Outer").2.schema.size = 3 := by decide +kernel
  have hparents : ∀ x < 3, ((firstRequest "App.Outer").2.schema.parentOf? x).all (· < x) = true := by
    decide +kernel
  have hc : (firstRequest "App.Outer").2.schema.ImportsComplete := by
    refine importsComplete_of_parents_first hr fun x p hp => ?_
    have hx := hparents x (hsize ▸ Schema.lt_size_of_parentOf? hp)
    simpa [hp] using hx
  exact ⟨hr, hc, (importsComplete_iff_needed_on_time hr).1 hc⟩

/-- Asked for `Inner` first, a session builds `Other` while `Outer` has no file yet, and the file of `Other`
does not import that of `Outer`. -/
theorem import_lost_inner_first :
    Library.load [roundabout] [] = .ok roundaboutLibrary ∧
      Reached roundaboutLibrary.catalog none (fun _ => True) (firstRequest "App.Outer+Inner").2 ∧
      ¬(firstRequest "App.Outer+Inner").2.schema.ImportsComplete := by
  have hfiles : (firstRequest "App.Outer+Inner").2.schema.fileOf? 2 = some 1 ∧
      (firstRequest "App.Outer+Inner").2.schema.fileOf? 0 = some 0 := by decide +kernel
  have hleaf : .reference 0 ∈ (firstRequest "App.Outer+Inner").2.schema.leavesOf 2 := by decide +kernel
  have himport : .file 0 ∉ (firstRequest "App.Outer+Inner").2.schema.importsOf 1 := by decide +kernel
  refine ⟨Managed.Generated.load_generated roundabout _ rfl,
    reached_firstRequest _ (o := some 0) (by decide +kernel), fun h => ?_⟩
  exact himport ((h 2 1 hfiles.1 _ hleaf).2 0 0 rfl hfiles.2 (by decide))

end Recovery

end ProtoRecovery
