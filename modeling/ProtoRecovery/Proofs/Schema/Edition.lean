import ProtoRecovery.Proofs.Schema.Nesting
/-!
# Editions and closed enums

A file with a closed enum in it needs an edition. The enum may be closed before it gets its file or after that;
`Dated` holds at every moment in between, and every step that builds a schema keeps it.
-/

namespace ProtoRecovery.Schema

/-- The enum at a position. -/
def enumAt? (s : Schema) (id : DeclId) : Option Enum := s.decls[id]?.bind (·.enum?)

/-- The edition of a file. -/
def editionOf? (s : Schema) (f : FileId) : Option String := s.files[f]?.bind (·.edition)

/-- Some closed enum is in a file. -/
def HasClosed (s : Schema) (f : FileId) : Prop := ∃ id, s.isClosedEnum id = true ∧ s.fileOf? id = some f

/-- Files with closed enums in them have the edition that these need, and all others have none. -/
structure Dated (s : Schema) : Prop where
  edition : ∀ f, s.HasClosed f → s.editionOf? f = some closedEnumEdition
  plain : ∀ f, ¬s.HasClosed f → s.editionOf? f = none

variable {s s' : Schema} {id x : DeclId} {f g : FileId}

theorem isClosedEnum_eq : s.isClosedEnum id = ((s.enumAt? id).map (·.isClosed)).getD false := by
  unfold isClosedEnum enumAt? Declaration.isClosedEnum
  cases s.decls[id]? <;> rfl

theorem isClosedEnum_congr (h : s'.enumAt? id = s.enumAt? id) : s'.isClosedEnum id = s.isClosedEnum id := by
  rw [isClosedEnum_eq, isClosedEnum_eq, h]

theorem lt_size_of_isClosedEnum (h : s.isClosedEnum id = true) : id < s.size := by
  by_contra hlt
  simp [isClosedEnum, List.getElem?_eq_none (not_lt.1 hlt)] at h

theorem Dated.congr (h : s.Dated) (hclosed : ∀ x, s'.isClosedEnum x = s.isClosedEnum x)
    (hfile : ∀ x, s.isClosedEnum x = true → s'.fileOf? x = s.fileOf? x)
    (hedition : ∀ f, s'.editionOf? f = s.editionOf? f) : s'.Dated := by
  have hhas : ∀ f, s'.HasClosed f ↔ s.HasClosed f := by
    intro f
    refine exists_congr fun x => ?_
    rw [hclosed]
    exact and_congr_right fun hx => by rw [hfile x hx]
  constructor
  · intro f hf
    rw [hedition]
    exact h.edition f ((hhas f).1 hf)
  · intro f hf
    rw [hedition]
    exact h.plain f (mt (hhas f).2 hf)

/-- If more files get a closed enum, and with it the edition unless they have it, everything stays as it should be. -/
theorem Dated.of_more {P : FileId → Prop} (h : s.Dated) (hhas : ∀ g, s'.HasClosed g ↔ s.HasClosed g ∨ P g)
    (hmore : ∀ g, P g → s'.editionOf? g = (s.editionOf? g).or (some closedEnumEdition))
    (hsame : ∀ g, ¬P g → s'.editionOf? g = s.editionOf? g) : s'.Dated := by
  constructor
  · intro g hg
    by_cases hP : P g
    · rw [hmore g hP]
      by_cases hold : s.HasClosed g
      · rw [h.edition g hold]
        rfl
      · rw [h.plain g hold]
        rfl
    · rw [hsame g hP]
      exact h.edition g (((hhas g).1 hg).resolve_right hP)
  · intro g hg
    rw [hhas, not_or] at hg
    rw [hsame g hg.2]
    exact h.plain g hg.1

/-! ## Steps on declarations -/

theorem enumAt?_modifyDecl_same {u : Declaration → Declaration} (hu : ∀ d, (u d).enum? = d.enum?) :
    (s.modifyDecl id u).enumAt? x = s.enumAt? x := by
  unfold enumAt?
  rw [decls_modifyDecl]
  split
  · cases s.decls[x]? with
    | none => rfl
    | some d => exact hu d
  · rfl

theorem enumAt?_declare (name : String) (b : Bool) (k : Kind) :
    (s.declare name b k.emptyBody).enumAt? x =
      if x = s.size then (if k = .enum then some {} else none) else s.enumAt? x := by
  unfold enumAt? declare
  rcases Nat.lt_trichotomy x s.size with h | h | h
  · rw [if_neg h.ne, List.getElem?_append_left h]
  · rw [if_pos h, h, size, List.getElem?_concat_length]
    cases k <;> rfl
  · have hlen : s.decls.length + 1 ≤ x := h
    rw [if_neg h.ne', List.getElem?_eq_none (by simpa using hlen), List.getElem?_eq_none h.le]

theorem enum?_addNested (d : Declaration) (c : DeclId) : (d.addNested c).enum? = d.enum? := by
  unfold Declaration.addNested
  split
  · rename_i m hb
    simp [Declaration.enum?, hb]
  · rfl

theorem dated_declare (h : s.Dated) (name : String) (b : Bool) (k : Kind) :
    (s.declare name b k.emptyBody).Dated := by
  refine h.congr (fun x => ?_) (fun x _ => fileOf?_declare ..) fun _ => rfl
  rw [isClosedEnum_eq, isClosedEnum_eq, enumAt?_declare]
  split
  · rename_i hx
    have hnone : s.enumAt? x = none := by simp [enumAt?, hx, size]
    rw [hnone]
    split <;> rfl
  · rfl

/-! ## Steps on files -/

theorem editionOf?_modifyFile {u : File → File} (hu : ∀ file, (u file).edition = file.edition) :
    (s.modifyFile f u).editionOf? g = s.editionOf? g := by
  simp only [editionOf?, modifyFile, List.getElem?_modify]
  cases s.files[g]? with
  | none => rfl
  | some file => by_cases hfg : f = g <;> simp [hfg, hu]

theorem editionOf?_requireEdition (hf : f < s.files.length) :
    (s.requireEdition f).editionOf? g =
      if g = f then (s.editionOf? g).or (some closedEnumEdition) else s.editionOf? g := by
  simp only [editionOf?, requireEdition, modifyFile, List.getElem?_modify]
  by_cases hgf : g = f
  · subst hgf
    rw [List.getElem?_eq_getElem hf]
    simp
  · simp [hgf, Ne.symm hgf]

theorem dated_addImport (h : s.Dated) (i : Import) : (s.addImport f i).Dated :=
  h.congr (fun _ => rfl) (fun _ _ => rfl) fun _ => editionOf?_modifyFile fun _ => rfl

theorem dated_addFile (h : s.Dated) {file : File} (hfile : file.edition = none) : (s.addFile file).Dated := by
  have hedition : ∀ g, (s.addFile file).editionOf? g = s.editionOf? g := by
    intro g
    simp only [editionOf?, addFile, List.getElem?_append]
    split
    · rfl
    · rename_i hg
      rw [List.getElem?_eq_none (not_lt.1 hg)]
      cases hx : [file][g - s.files.length]? with
      | none => rfl
      | some other =>
        obtain rfl := List.mem_singleton.1 (List.mem_of_getElem? hx)
        exact hfile
  exact h.congr (fun _ => rfl) (fun _ _ => rfl) hedition

/-! ## Giving files -/

@[simp] theorem enumAt?_assignOne : (s.assignOne f id).enumAt? x = s.enumAt? x := by
  have h : (s.modifyDecl id fun d => { d with file := some f }).enumAt? x = s.enumAt? x :=
    enumAt?_modifyDecl_same fun _ => rfl
  rw [← h]
  unfold assignOne
  dsimp only
  split <;> rfl

@[simp] theorem enumAt?_assignAll (ids : List DeclId) : (s.assignAll f ids).enumAt? x = s.enumAt? x := by
  induction ids generalizing s with
  | nil => rfl
  | cons id ids ih => exact (ih (s := s.assignOne f id)).trans enumAt?_assignOne

theorem fileOf?_assignOne (hid : id < s.size) :
    (s.assignOne f id).fileOf? x = if x = id then some f else s.fileOf? x := by
  rw [fileOf?_eq, fileOf?_eq, outlineOf?_assignOne]
  split
  · rename_i hx
    cases ho : s.outlineOf? x with
    | none => exact absurd (hx ▸ outlineOf?_eq_none.1 ho) (not_le.2 hid)
    | some o => rfl
  · rfl

theorem files_assignOne (s : Schema) (file : FileId) (id : DeclId) :
    (s.assignOne file id).files = if s.isClosedEnum id then (s.requireEdition file).files else s.files := by
  have hclosed : (s.modifyDecl id fun d => { d with file := some file }).isClosedEnum id = s.isClosedEnum id :=
    isClosedEnum_congr (enumAt?_modifyDecl_same fun _ => rfl)
  unfold assignOne
  dsimp only
  rw [hclosed]
  split <;> rfl

theorem editionOf?_assignOne (hf : f < s.files.length) :
    (s.assignOne f id).editionOf? g =
      if s.isClosedEnum id = true ∧ g = f then (s.editionOf? g).or (some closedEnumEdition) else s.editionOf? g := by
  rw [editionOf?, files_assignOne]
  cases s.isClosedEnum id with
  | false => simp [editionOf?]
  | true =>
    simp only [if_true, true_and]
    exact editionOf?_requireEdition hf

/-- A file that gets a closed enum gets the edition for it, and no other file loses one. -/
theorem dated_assignOne (h : s.Dated) (hid : id < s.size) (hf : f < s.files.length)
    (hfree : s.fileOf? id = none ∨ s.fileOf? id = some f) : (s.assignOne f id).Dated := by
  have hclosed : ∀ x, (s.assignOne f id).isClosedEnum x = s.isClosedEnum x :=
    fun x => isClosedEnum_congr enumAt?_assignOne
  have hhas : ∀ g, (s.assignOne f id).HasClosed g ↔ s.HasClosed g ∨ s.isClosedEnum id = true ∧ g = f := by
    intro g
    constructor
    · rintro ⟨x, hx, hxg⟩
      rw [hclosed] at hx
      rw [fileOf?_assignOne hid] at hxg
      split at hxg
      · rename_i hxid
        exact .inr ⟨hxid ▸ hx, (Option.some.inj hxg).symm⟩
      · exact .inl ⟨x, hx, hxg⟩
    · rintro (⟨x, hx, hxg⟩ | ⟨hid', rfl⟩)
      · refine ⟨x, (hclosed x).trans hx, ?_⟩
        rw [fileOf?_assignOne hid]
        split
        · -- What had a file before had this one.
          rename_i hxid
          rw [hxid] at hxg
          rcases hfree with hnone | hsome
          · rw [hnone] at hxg
            cases hxg
          · rw [← hsome, hxg]
        · exact hxg
      · refine ⟨id, (hclosed id).trans hid', ?_⟩
        rw [fileOf?_assignOne hid, if_pos rfl]
  refine h.of_more hhas (fun g hg => ?_) fun g hg => ?_
  · rw [editionOf?_assignOne hf, if_pos hg]
  · rw [editionOf?_assignOne hf, if_neg hg]

theorem dated_assignAll {ids : List DeclId} (h : s.Dated) (hf : f < s.files.length)
    (hids : ∀ x ∈ ids, x < s.size ∧ (s.fileOf? x = none ∨ s.fileOf? x = some f)) : (s.assignAll f ids).Dated := by
  induction ids generalizing s with
  | nil => exact h
  | cons id rest ih =>
    obtain ⟨hid, hfree⟩ := hids id List.mem_cons_self
    refine ih (s := s.assignOne f id) (dated_assignOne h hid hf hfree) ?_ fun x hx => ?_
    · rw [length_files_assignOne]
      exact hf
    · obtain ⟨hlt, hx⟩ := hids x (List.mem_cons_of_mem _ hx)
      rw [size_assignOne, fileOf?_assignOne hid]
      refine ⟨hlt, ?_⟩
      split
      · exact .inr rfl
      · exact hx

/-! ## Nesting -/

section Nest
variable {p c : DeclId}

theorem enumAt?_hang : (s.hang p c).enumAt? x = s.enumAt? x :=
  (enumAt?_modifyDecl_same (u := fun d => { d with parent := some p }) fun _ => rfl).trans
    (enumAt?_modifyDecl_same fun d => enum?_addNested d c)

theorem enumAt?_nest : (s.nest p c).enumAt? x = s.enumAt? x := by
  rcases nest_cases s p c with ⟨-, h⟩ | ⟨f, -, h⟩
  · rw [h, enumAt?_hang]
  · rw [h, enumAt?_assignAll, enumAt?_hang]

theorem dated_nest (h : s.Dated) (hs : s.Linked) (hc : s.Loose c) (hp : p < s.size) : (s.nest p c).Dated := by
  have hhang : (s.hang p c).Dated :=
    h.congr (fun x => isClosedEnum_congr enumAt?_hang) (fun x _ => fileOf?_hang) fun _ => rfl
  rcases nest_cases s p c with ⟨-, hn⟩ | ⟨f, hf, hn⟩
  · rw [hn]
    exact hhang
  · rw [hn]
    refine dated_assignAll hhang (hs.file_lt p f hf) fun x hx => ?_
    have hlinked := linked_hang hs hc hp
    have hin := inside_of_mem_descend hlinked hx
    refine ⟨?_, .inl ?_⟩
    · rcases Relation.ReflTransGen.cases_head hin with rfl | ⟨q, hq, -⟩
      · rw [size_hang]
        exact hc.lt
      · exact lt_size_of_parentOf? hq
    · -- All below what waits have no file either.
      cases hxf : (s.hang p c).fileOf? x with
      | none => rfl
      | some g =>
        have hcg := hin.file hlinked hxf
        rw [fileOf?_hang, hc.file] at hcg
        cases hcg

end Nest

end ProtoRecovery.Schema
