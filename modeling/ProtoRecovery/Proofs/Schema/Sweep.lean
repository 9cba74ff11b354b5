import ProtoRecovery.Proofs.Schema.Edition
import ProtoRecovery.Proofs.Schema.Forest
/-!
# Giving files one declaration at a time

A file is given to a declaration and to all below it from a list of pending ones: the first is put in the file, and
what is nested in it is pending next. Nothing stops that from going in circles but the way declarations get their places:
one that waits for a file has only such below it, and around it either nothing or what has a file.
-/

namespace ProtoRecovery.Schema

/-- From a list of pending declarations: the ones that are visited, in their order, and the schema in the end. What is
nested last is visited first. -/
inductive Sweep (file : FileId) : Schema → List DeclId → List DeclId → Schema → Prop
  | done (s : Schema) : Sweep file s [] [] s
  | visit {s s' : Schema} {id : DeclId} {pending visits : List DeclId} :
      Sweep file (s.assignOne file id) ((s.nestedIn id).reverse ++ pending) visits s' →
      Sweep file s (id :: pending) (id :: visits) s'

/-- All from a declaration on gets a file: that ends, with one schema only, and nothing is visited twice for it. -/
structure SweepsOnce (file : FileId) (s : Schema) (id : DeclId) (s' : Schema) : Prop where
  ends : ∃ visits, Sweep file s [id] visits s'
  once : ∀ visits s'', Sweep file s [id] visits s'' → visits.Nodup ∧ s'' = s'

variable {s s' : Schema} {file : FileId} {id root x : DeclId} {pending visits visited : List DeclId}

namespace Sweep

/-- There is at most one way to go on, so a sweep that ends is the only one. -/
theorem unique {s₁ s₂ : Schema} {visits₁ visits₂ : List DeclId} (h₁ : Sweep file s pending visits₁ s₁)
    (h₂ : Sweep file s pending visits₂ s₂) : visits₁ = visits₂ ∧ s₁ = s₂ := by
  induction h₁ generalizing visits₂ s₂ with
  | done => cases h₂ with | done => exact ⟨rfl, rfl⟩
  | visit _ ih =>
    cases h₂ with
    | visit h₂ => exact (ih h₂).imp_left (congrArg _)

theorem eq_assignAll (h : Sweep file s pending visits s') : s' = s.assignAll file visits := by
  induction h with
  | done => rfl
  | visit _ ih => exact ih

theorem mem_of_pending (h : Sweep file s pending visits s') (hx : x ∈ pending) : x ∈ visits := by
  induction h with
  | done => exact hx
  | visit _ ih =>
    rcases List.mem_cons.1 hx with rfl | hx
    · exact List.mem_cons_self
    · exact List.mem_cons_of_mem _ (ih (List.mem_append_right _ hx))

theorem mem_of_nested (h : Sweep file s pending visits s') (hid : id ∈ visits) (hx : x ∈ s.nestedIn id) :
    x ∈ visits := by
  induction h with
  | done => cases hid
  | visit hrest ih =>
    refine List.mem_cons_of_mem _ ?_
    rcases List.mem_cons.1 hid with rfl | hid
    · exact hrest.mem_of_pending (List.mem_append_left _ (List.mem_reverse.2 hx))
    · exact ih hid (by rwa [nestedIn_assignOne])

theorem mem_of_descend (h : Sweep file s pending visits s') {depth : Nat} (hid : id ∈ visits)
    (hx : x ∈ s.descend depth id) : x ∈ visits := by
  induction depth generalizing id with
  | zero => simp [descend] at hx
  | succ depth ih =>
    simp only [descend, List.mem_cons, List.mem_flatMap] at hx
    rcases hx with rfl | ⟨y, hy, hx⟩
    · exact hid
    · exact ih (h.mem_of_nested hid hy) hx

theorem sweepsOnce (h : Sweep file s [id] visits s') (hvisits : visits.Nodup) : SweepsOnce file s id s' := by
  refine ⟨⟨visits, h⟩, fun visits' s'' h' => ?_⟩
  obtain ⟨rfl, rfl⟩ := h'.unique h
  exact ⟨hvisits, rfl⟩

end Sweep

/-! ## The order does not matter -/

theorem decls_assignAll (s : Schema) (file : FileId) (ids : List DeclId) (x : DeclId) :
    (s.assignAll file ids).decls[x]? =
      if x ∈ ids then s.decls[x]?.map (fun d => { d with file := some file }) else s.decls[x]? := by
  induction ids generalizing s with
  | nil => simp [assignAll]
  | cons id ids ih =>
    have hone : (s.assignOne file id).decls[x]? =
        if x = id then s.decls[x]?.map (fun d => { d with file := some file }) else s.decls[x]? := by
      rw [← decls_modifyDecl]
      unfold assignOne
      dsimp only
      split <;> rfl
    show ((s.assignOne file id).assignAll file ids).decls[x]? = _
    rw [ih, hone]
    by_cases hx : x = id <;> by_cases hm : x ∈ ids <;> simp [hx, hm, Function.comp_def]

theorem requireEdition_twice (s : Schema) (file : FileId) :
    ((s.requireEdition file).requireEdition file).files = (s.requireEdition file).files := by
  simp only [requireEdition, modifyFile, List.modify_modify_eq]
  congr 1
  funext f
  simp

theorem files_assignAll (s : Schema) (file : FileId) (ids : List DeclId) :
    (s.assignAll file ids).files = if ids.any s.isClosedEnum then (s.requireEdition file).files else s.files := by
  induction ids generalizing s with
  | nil => rfl
  | cons id ids ih =>
    have hclosed : ids.any (s.assignOne file id).isClosedEnum = ids.any s.isClosedEnum :=
      congrArg ids.any (funext fun x => isClosedEnum_congr enumAt?_assignOne)
    have hagain : ((s.assignOne file id).requireEdition file).files = (s.requireEdition file).files := by
      have h := files_assignOne s file id
      simp only [requireEdition, modifyFile] at h ⊢
      rw [h]
      split
      · exact requireEdition_twice s file
      · rfl
    show ((s.assignOne file id).assignAll file ids).files = _
    rw [ih, hclosed, hagain, files_assignOne, List.any_cons]
    cases s.isClosedEnum id <;> cases ids.any s.isClosedEnum <;> rfl

/-- It only matters which declarations are put in a file. -/
theorem assignAll_congr {ids ids' : List DeclId} (h : ∀ x, x ∈ ids ↔ x ∈ ids') :
    s.assignAll file ids = s.assignAll file ids' := by
  have hfiles : (s.assignAll file ids).files = (s.assignAll file ids').files := by
    have hany : ids.any s.isClosedEnum = ids'.any s.isClosedEnum := by
      rw [Bool.eq_iff_iff, List.any_eq_true, List.any_eq_true]
      exact exists_congr fun x => and_congr_left' (h x)
    rw [files_assignAll, files_assignAll, hany]
  have hdecls : (s.assignAll file ids).decls = (s.assignAll file ids').decls := by
    refine List.ext_getElem? fun x => ?_
    rw [decls_assignAll, decls_assignAll, if_congr (h x) rfl rfl]
  exact (Schema.mk.injEq ..).mpr ⟨hfiles, hdecls⟩

/-! ## Sweeps end -/

theorem mem_descend_of_nested {depth : Nat} (hid : id ∈ s.descend depth root) (hx : x ∈ s.nestedIn id) :
    x ∈ s.descend (depth + 1) root := by
  induction depth generalizing root with
  | zero => simp [descend] at hid
  | succ depth ih =>
    rw [descend, List.mem_cons, List.mem_flatMap] at hid ⊢
    rcases hid with rfl | ⟨y, hy, hid⟩
    · exact .inr ⟨x, hx, by simp [descend]⟩
    · exact .inr ⟨y, hy, ih hid⟩

/-- What a sweep from one declaration has visited, and what is pending: each of them once, none with a file. Apart from
the first they were found in what has been visited. -/
structure Front (s : Schema) (root : DeclId) (visited pending : List DeclId) : Prop where
  nodup : (visited ++ pending).Nodup
  lt : ∀ x ∈ visited ++ pending, x < s.size
  waits : ∀ x ∈ visited ++ pending, s.fileOf? x = none
  found : ∀ x ∈ visited ++ pending, x = root ∨ ∃ q ∈ visited, s.parentOf? x = some q
  above : ∀ x ∈ visited, x ∈ s.descend visited.length root
  ahead : ∀ x ∈ pending, x ∈ s.descend (visited.length + 1) root

theorem Front.length_le (h : Front s root visited pending) : (visited ++ pending).length ≤ s.size := by
  have hsub : visited ++ pending ⊆ List.range s.size := fun x hx => List.mem_range.2 (h.lt x hx)
  have := (List.subperm_of_subset h.nodup hsub).length_le
  rwa [List.length_range] at this

section Links
variable (hs : s.Linked) (honce : ∀ p, (s.nestedIn p).Nodup)
  (hroot : ∀ p, s.parentOf? root = some p → s.fileOf? p ≠ none)
include hs hroot

/-- What is nested in a declaration has not been met before: it could only have been found in that very declaration. -/
theorem Front.not_mem_nested (h : Front s root visited (id :: pending)) (hx : x ∈ s.nestedIn id) :
    x ∉ visited ++ id :: pending := by
  intro hmem
  have hparent := hs.parent_of_nested id x hx
  rcases h.found x hmem with rfl | ⟨q, hq, hxq⟩
  · exact hroot id hparent (h.waits id (by simp))
  · rw [hparent] at hxq
    cases hxq
    exact (List.nodup_append.1 h.nodup).2.2 id hq id (by simp) rfl

include honce

theorem Front.visit (h : Front s root visited (id :: pending)) :
    Front s root (visited ++ [id]) ((s.nestedIn id).reverse ++ pending) := by
  have hcases : ∀ x, x ∈ (visited ++ [id]) ++ ((s.nestedIn id).reverse ++ pending) →
      x ∈ visited ++ id :: pending ∨ x ∈ s.nestedIn id := by
    intro x hx
    simp only [List.mem_append, List.mem_cons, List.mem_reverse] at hx ⊢
    tauto
  have hperm : ((visited ++ [id]) ++ ((s.nestedIn id).reverse ++ pending)).Perm
      (s.nestedIn id ++ (visited ++ id :: pending)) := by
    rw [show visited ++ id :: pending = (visited ++ [id]) ++ pending by simp]
    exact (List.perm_append_comm_assoc ..).trans ((List.reverse_perm _).append_right _)
  constructor
  · refine hperm.nodup_iff.2 (List.nodup_append.2 ⟨honce id, h.nodup, fun x hx y hy hxy => ?_⟩)
    exact h.not_mem_nested hs hroot hx (hxy ▸ hy)
  · intro x hx
    rcases hcases x hx with hx | hx
    · exact h.lt x hx
    · exact lt_size_of_parentOf? (hs.parent_of_nested id x hx)
  · intro x hx
    rcases hcases x hx with hx | hx
    · exact h.waits x hx
    · by_contra hfile
      obtain ⟨f, hf⟩ := Option.ne_none_iff_exists'.1 hfile
      have := hs.file_up x id f (hs.parent_of_nested id x hx) hf
      simp [h.waits id (by simp)] at this
  · intro x hx
    rcases hcases x hx with hx | hx
    · exact (h.found x hx).imp_right fun ⟨q, hq, hxq⟩ => ⟨q, by simp [hq], hxq⟩
    · exact .inr ⟨id, by simp, hs.parent_of_nested id x hx⟩
  · intro x hx
    rw [List.length_append, List.length_singleton]
    rcases List.mem_append.1 hx with hx | hx
    · exact mem_descend_mono (h.above x hx) (Nat.le_succ _)
    · exact List.mem_singleton.1 hx ▸ h.ahead id (by simp)
  · intro x hx
    rw [List.length_append, List.length_singleton]
    rcases List.mem_append.1 hx with hx | hx
    · exact mem_descend_of_nested (h.ahead id (by simp)) (List.mem_reverse.1 hx)
    · exact mem_descend_mono (h.ahead x (by simp [hx])) (Nat.le_succ _)

/-- The induction is on how many declarations there are that have not been visited. -/
theorem Front.exists_sweep {t : Schema} (h : Front s root visited pending)
    (ht : ∀ x, t.nestedIn x = s.nestedIn x) (file : FileId) :
    ∃ visits t', Sweep file t pending visits t' ∧ Front s root (visited ++ visits) [] := by
  obtain ⟨left, hleft⟩ : ∃ left, s.size ≤ visited.length + left := ⟨s.size, Nat.le_add_left ..⟩
  induction left generalizing t visited pending with
  | zero =>
    cases pending with
    | nil => exact ⟨[], t, .done t, by simpa using h⟩
    | cons id pending =>
      have := h.length_le
      simp only [List.length_append, List.length_cons] at this
      omega
  | succ left ih =>
    cases pending with
    | nil => exact ⟨[], t, .done t, by simpa using h⟩
    | cons id pending =>
      have hnext := h.visit hs honce hroot
      rw [← ht id] at hnext
      obtain ⟨visits, t', hsweep, hfront⟩ := ih (t := t.assignOne file id) hnext
        (fun x => (nestedIn_assignOne ..).trans (ht x)) (by simp only [List.length_append, List.length_singleton]; omega)
      exact ⟨id :: visits, t', .visit hsweep, by simpa using hfront⟩

/-- A sweep from a declaration that waits ends, visits nothing twice, and puts in the file what is found by descending. -/
theorem sweepsOnce_of_waits (hlt : root < s.size) (hwaits : s.fileOf? root = none) (file : FileId) :
    SweepsOnce file s root (s.assignFile root file) := by
  have hfront : Front s root [] [root] := by
    constructor <;> simp [hlt, hwaits, descend]
  obtain ⟨visits, s', hsweep, hend⟩ := hfront.exists_sweep hs honce hroot (fun _ => rfl) file
  simp only [List.nil_append] at hend
  have hlength : visits.length ≤ s.size := by simpa using hend.length_le
  have hmem : ∀ x, x ∈ visits ↔ x ∈ s.descendants root := by
    intro x
    refine ⟨fun hx => mem_descend_mono (hend.above x hx) hlength, fun hx => ?_⟩
    exact hsweep.mem_of_descend (hsweep.mem_of_pending (by simp)) hx
  rw [assignFile_eq, ← assignAll_congr hmem, ← hsweep.eq_assignAll]
  exact hsweep.sweepsOnce (by simpa using hend.nodup)

end Links

theorem sweepsOnce_of_nestedIn_eq_nil (hnested : s.nestedIn id = []) (hid : id < s.size) (file : FileId) :
    SweepsOnce file s id (s.assignFile id file) := by
  have hsweep : Sweep file s [id] [id] (s.assignFile id file) := by
    refine .visit ?_
    rw [hnested, assignFile_eq, descendants_of_nestedIn_eq_nil hnested hid]
    exact .done _
  exact hsweep.sweepsOnce (List.nodup_singleton id)

end ProtoRecovery.Schema
