import ProtoRecovery.Proofs.Recovery.Imports
import ProtoRecovery.Proofs.Recovery.Registry
/-!
# Every import has its reason

A session in which every request ends well leaves no import that nothing needs: a file lists each import once, is not
among its own imports, and has a declaration in it that mentions something from each file that it imports.
-/

namespace ProtoRecovery

/-- No file imports anything twice, itself, or what nothing in it mentions. -/
structure Schema.ImportsJustified (s : Schema) : Prop where
  nodup : ∀ f, (s.importsOf f).Nodup
  not_self : ∀ f, .file f ∉ s.importsOf f
  file : ∀ f g, .file g ∈ s.importsOf f →
    ∃ d t, s.fileOf? d = some f ∧ .reference t ∈ s.leavesOf d ∧ s.fileOf? t = some g
  wellKnown : ∀ f path, .wellKnown path ∈ s.importsOf f →
    ∃ d w, s.fileOf? d = some f ∧ .wellKnown w ∈ s.leavesOf d ∧ w.file = path

namespace Recovery

open Schema (FileId Import)

variable {ρ : Type} [DecidableEq ρ] {c : Catalog ρ} {names : Option Identifier.Dictionary} {s : State ρ}

omit [DecidableEq ρ] in
theorem Effect.nodup_importsOf {M : Manner ρ} {lo hi : Nat} {s' : State ρ} (h : Effect c M lo hi s s') {f : FileId}
    (hs : (s.schema.importsOf f).Nodup) : (s'.schema.importsOf f).Nodup := by
  rcases h.importsOf_cases f with hsame | ⟨i, hnew, hadded, -⟩
  · rwa [hsame]
  · rw [hadded]
    exact hs.append (List.nodup_singleton i) (by simpa using hnew)

theorem nodup_importsOf_of_visited (h : Visited c names s) (f : FileId) : (s.schema.importsOf f).Nodup := by
  refine attempted_invariant (h.attempted fun _ => trivial) (roams_anyhow c)
    (P := fun s => (s.schema.importsOf f).Nodup) ?_ fun _ _ he hs => he.nodup_importsOf hs
  simp [start, Schema.importsOf]

/-- Whatever a file imports, one of its declarations needs. -/
theorem exists_needs (h : Reached c names (fun _ => True) s) {f : FileId} {i : Import} (hi : i ∈ s.schema.importsOf f) :
    ∃ d, s.schema.Needs d f i := by
  obtain ⟨d, hd, leaf, hleaf, himport, -⟩ := (mem_importsOf_iff h).1 hi
  exact ⟨d, hd, leaf, hleaf, himport⟩

theorem imports_justified (h : Reached c names (fun _ => True) s) : s.schema.ImportsJustified where
  nodup := nodup_importsOf_of_visited h.visited
  not_self f hf := by
    obtain ⟨d, -, leaf, -, hleaf⟩ := exists_needs h hf
    rcases Schema.leafImport_eq_some.1 hleaf with ⟨w, -, hi⟩ | ⟨t, g, -, -, hne, hi⟩
    · cases hi
    · cases hi
      exact hne rfl
  file f g hg := by
    obtain ⟨d, hd, leaf, hmem, hleaf⟩ := exists_needs h hg
    rcases Schema.leafImport_eq_some.1 hleaf with ⟨w, -, hi⟩ | ⟨t, g', rfl, ht, -, hi⟩
    · cases hi
    · cases hi
      exact ⟨d, t, hd, hmem, ht⟩
  wellKnown f path hpath := by
    obtain ⟨d, hd, leaf, hmem, hleaf⟩ := exists_needs h hpath
    rcases Schema.leafImport_eq_some.1 hleaf with ⟨w, rfl, hi⟩ | ⟨t, g, -, -, -, hi⟩
    · cases hi
      exact ⟨d, w, hd, hmem, rfl⟩
    · cases hi

/-- `Outer` and `Other` mention each other's classes, so their files import each other. -/
theorem imports_justified_outer_first :
    Reached roundaboutLibrary.catalog none (fun _ => True) (firstRequest "App.Outer").2 ∧
      (firstRequest "App.Outer").2.schema.importsOf 0 = [.file 1] ∧
      (firstRequest "App.Outer").2.schema.importsOf 1 = [.file 0] ∧
      (firstRequest "App.Outer").2.schema.ImportsJustified := by
  have hreached := reached_firstRequest "App.Outer" (o := some 0) (by decide +kernel)
  exact ⟨hreached, by decide +kernel, by decide +kernel, imports_justified hreached⟩

end Recovery

end ProtoRecovery
