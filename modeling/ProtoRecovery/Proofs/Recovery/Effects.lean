import ProtoRecovery.Proofs.Recovery.Derivation
import ProtoRecovery.Proofs.Schema.Waiting
/-!
# What derivations do to a schema

Starting a file, importing and filling a body in, each in terms of sizes, outlines, nesting and imports.
-/

namespace ProtoRecovery.Recovery

open Schema (DeclId FileId FieldType Kind Body Import Filled)

variable {ρ : Type}

/-! ## Starting a file -/

section OpenFile
variable {c : Catalog ρ} {t : ρ} {S : Schema} {id x : Nat}

theorem openFile_eq (hn : S.nestedIn id = []) (hid : id < S.size) :
    openFile c t id S =
      ((S.addFile { assembly := some (c.assembly t), namespaceName := c.namespaceName? t }).modifyFile
        S.files.length fun f => { f with tops := f.tops ++ [id] }).assignAll S.files.length [id] := by
  unfold openFile Schema.attach
  dsimp only
  rw [Schema.assignFile_eq, Schema.descendants_of_nestedIn_eq_nil]
  · exact hn
  · exact hid

section
variable (hn : S.nestedIn id = []) (hid : id < S.size)
include hn hid

theorem size_openFile : (openFile c t id S).size = S.size := by
  rw [openFile_eq hn hid]
  simp

theorem outlineOf?_openFile :
    (openFile c t id S).outlineOf? x =
      if x = id then (S.outlineOf? x).map (·.inFile S.files.length) else S.outlineOf? x := by
  rw [openFile_eq hn hid, Schema.outlineOf?_assignAll]
  simp

theorem parentOf?_openFile : (openFile c t id S).parentOf? x = S.parentOf? x := by
  rw [Schema.parentOf?_eq, Schema.parentOf?_eq, outlineOf?_openFile hn hid]
  split
  · cases S.outlineOf? x <;> rfl
  · rfl

theorem fileOf?_openFile :
    (openFile c t id S).fileOf? x = if x = id then some S.files.length else S.fileOf? x := by
  rw [Schema.fileOf?_eq, Schema.fileOf?_eq, outlineOf?_openFile hn hid]
  split
  · rename_i hx
    cases ho : S.outlineOf? x with
    | none => exact absurd (hx ▸ Schema.outlineOf?_eq_none.1 ho) (not_le.2 hid)
    | some o => rfl
  · rfl

theorem content_openFile :
    ((openFile c t id S).outlineOf? x).map Schema.Outline.content =
      (S.outlineOf? x).map Schema.Outline.content := by
  rw [outlineOf?_openFile hn hid]
  split
  · cases S.outlineOf? x <;> rfl
  · rfl

theorem nestedIn_openFile : (openFile c t id S).nestedIn x = S.nestedIn x := by
  rw [openFile_eq hn hid]
  simp

theorem length_files_openFile : (openFile c t id S).files.length = S.files.length + 1 := by
  rw [openFile_eq hn hid]
  simp [Schema.addFile]

theorem topsOf_openFile (f : FileId) :
    (openFile c t id S).topsOf f = if f = S.files.length then [id] else S.topsOf f := by
  rw [openFile_eq hn hid, Schema.topsOf_assignAll]
  simp only [Schema.topsOf, Schema.modifyFile, Schema.addFile, List.getElem?_modify, List.getElem?_append]
  rcases Nat.lt_trichotomy f S.files.length with h | h | h
  · simp [h, h.ne, h.ne']
  · simp [h]
  · have h₁ : ¬f < S.files.length := not_lt.2 h.le
    have h₂ : f - S.files.length ≠ 0 := Nat.sub_ne_zero_of_lt h
    simp [h₁, h.ne, h.ne', h₂]

theorem importsOf_openFile (f : FileId) : (openFile c t id S).importsOf f = S.importsOf f := by
  rw [openFile_eq hn hid, Schema.importsOf_assignAll, Schema.importsOf_modifyFile, Schema.importsOf_addFile]
  · rfl
  · exact fun _ => rfl

/-- A file for what waits for one, with nothing nested in it, keeps links. -/
theorem linked_openFile (hS : S.Linked) (hloose : S.Loose id) : (openFile c t id S).Linked where
  parent_of_nested q x hx := by
    rw [nestedIn_openFile hn hid] at hx
    rw [parentOf?_openFile hn hid]
    exact hS.parent_of_nested q x hx
  parent_lt x q hq := by
    rw [parentOf?_openFile hn hid] at hq
    rw [size_openFile hn hid]
    exact hS.parent_lt x q hq
  file_up x q f hq hx := by
    rw [parentOf?_openFile hn hid] at hq
    have hxid : x ≠ id := by
      rintro rfl
      simp [hloose.parent] at hq
    rw [fileOf?_openFile hn hid, if_neg hxid] at hx
    -- Whatever has a file got it from above, and so not from what has none.
    have hqid : q ≠ id := by
      rintro rfl
      have hfile := hS.file_up x q f hq hx
      simp [hloose.file] at hfile
    rw [fileOf?_openFile hn hid, if_neg hqid]
    exact hS.file_up x q f hq hx
  file_lt x f hx := by
    rw [length_files_openFile hn hid]
    rw [fileOf?_openFile hn hid] at hx
    split at hx
    · cases hx
      exact Nat.lt_succ_self _
    · exact (hS.file_lt x f hx).trans (Nat.lt_succ_self _)

end

end OpenFile

/-! ## Importing -/

section Link
variable {S : Schema} {source target : DeclId} {path : String} {f : FileId} {i : Import}

/-- Importing changes nothing but imports. -/
structure OnlyImports (S S' : Schema) : Prop where
  decls : S'.decls = S.decls
  files : S'.files.length = S.files.length
  tops : ∀ f, S'.topsOf f = S.topsOf f

namespace OnlyImports
variable {S S' : Schema} (h : OnlyImports S S')
include h

theorem outlineOf? (x : DeclId) : S'.outlineOf? x = S.outlineOf? x := by
  unfold Schema.outlineOf?
  rw [h.decls]

theorem nestedIn (x : DeclId) : S'.nestedIn x = S.nestedIn x := by
  unfold Schema.nestedIn
  rw [h.decls]

theorem size : S'.size = S.size := by
  unfold Schema.size
  rw [h.decls]

theorem fileOf? (x : DeclId) : S'.fileOf? x = S.fileOf? x := Schema.fileOf?_congr (h.outlineOf? x)

theorem parentOf? (x : DeclId) : S'.parentOf? x = S.parentOf? x := Schema.parentOf?_congr (h.outlineOf? x)

theorem linked (hS : S.Linked) : S'.Linked :=
  hS.transfer h.size.ge h.files.ge h.parentOf? h.fileOf? h.nestedIn

end OnlyImports

theorem onlyImports_addImport (S : Schema) (file : FileId) (i : Import) : OnlyImports S (S.addImport file i) where
  decls := rfl
  files := Schema.length_files_addImport S file i
  tops f := Schema.topsOf_addImport S file i f

theorem onlyImports_linkPath : OnlyImports S (linkPath source path S) := by
  unfold linkPath
  split
  · exact onlyImports_addImport _ _ _
  · exact ⟨rfl, rfl, fun _ => rfl⟩

theorem onlyImports_linkFiles : OnlyImports S (linkFiles source target S) := by
  unfold linkFiles
  split
  · split
    · exact ⟨rfl, rfl, fun _ => rfl⟩
    · exact onlyImports_addImport _ _ _
  · exact ⟨rfl, rfl, fun _ => rfl⟩

/-- What one type that is mentioned adds to the imports, if both files are there. -/
theorem mem_importsOf_linkPath (hS : S.Linked) {w : Schema.WellKnown} :
    i ∈ (linkPath source w.file S).importsOf f ↔
      i ∈ S.importsOf f ∨ (S.fileOf? source = some f ∧ S.leafImport f (.wellKnown w) = some i) := by
  unfold linkPath
  cases hf : S.fileOf? source with
  | none => simp
  | some g =>
    dsimp only
    rw [Schema.mem_importsOf_addImport S g (hS.file_lt source g hf)]
    simp only [Schema.leafImport, Option.some.injEq]
    grind

theorem mem_importsOf_linkFiles (hS : S.Linked) :
    i ∈ (linkFiles source target S).importsOf f ↔
      i ∈ S.importsOf f ∨ (S.fileOf? source = some f ∧ S.leafImport f (.reference target) = some i) := by
  unfold linkFiles
  cases hf : S.fileOf? source with
  | none => simp
  | some g =>
    cases ht : S.fileOf? target with
    | none => simp [Schema.leafImport, ht]
    | some h =>
      dsimp only
      split
      · simp only [Schema.leafImport, ht, Option.some.injEq]
        grind
      · rw [Schema.mem_importsOf_addImport S g (hS.file_lt source g hf)]
        simp only [Schema.leafImport, ht, Option.some.injEq]
        grind

end Link

/-! ## Filling a body in -/

/-- The kind of a declaration. -/
def kindOf? (S : Schema) (id : DeclId) : Option Kind := (S.outlineOf? id).map (·.kind)

section Finish
variable {S S' : Schema} {id : DeclId} {k : Kind} {leaves : List FieldType}

/-- Another body of the same kind, with the same declarations nested in it, fills a declaration in. -/
theorem filled_modifyDecl {f : Schema.Declaration → Schema.Declaration} {d : Schema.Declaration} {b : Body}
    (hd : S.decls[id]? = some d) (hf : f d = { d with body := b }) (hk : b.kind = d.body.kind)
    (hn : { d with body := b }.nested = d.nested) (hl : ∀ leaf, leaf ∈ b.leaves ↔ leaf ∈ leaves) :
    Filled id leaves S (S.modifyDecl id f) := by
  have hid : (S.modifyDecl id f).decls[id]? = some { d with body := b } := by
    simp [Schema.decls_modifyDecl, hd, hf]
  have hother : ∀ x, x ≠ id → (S.modifyDecl id f).decls[x]? = S.decls[x]? := by
    intro x hx
    simp [Schema.decls_modifyDecl, hx]
  refine ⟨by simp, ?_, ?_, ?_, ?_, ?_, ?_, fun _ => rfl, fun _ => rfl, rfl⟩
  · intro x hx
    simp [Schema.outlineOf?, hother x hx]
  · intro x
    by_cases hx : x = id
    · simp [Schema.fileOf?, hx, hid, hd]
    · simp [Schema.fileOf?, hother x hx]
  · intro x
    by_cases hx : x = id
    · simp [Schema.parentOf?, hx, hid, hd]
    · simp [Schema.parentOf?, hother x hx]
  · simp [Schema.outlineOf?, hid, hd, Schema.Declaration.outline, hk]
  · intro leaf
    rw [← hl]
    simp [Schema.leavesOf, Schema.outlineOf?, hid, Schema.Declaration.outline, Body.leaves]
  · intro x
    by_cases hx : x = id
    · simp [Schema.nestedIn, hx, hid, hd, hn]
    · simp [Schema.nestedIn, hother x hx]

theorem filled_requireEdition {file : FileId} (h : Filled id leaves S S') :
    Filled id leaves S (S'.requireEdition file) := by
  refine ⟨h.size, h.others, h.file, h.parent, h.kind, h.leaves, h.nested, ?_, ?_, ?_⟩
  · intro f
    rw [Schema.importsOf_requireEdition, h.imports]
  · intro f
    rw [Schema.topsOf_requireEdition, h.tops]
  · rw [Schema.files_requireEdition_length, h.files]

theorem exists_decl_of_kindOf? (hk : kindOf? S id = some k) : ∃ d, S.decls[id]? = some d ∧ d.body.kind = k := by
  unfold kindOf? Schema.outlineOf? at hk
  simpa [Schema.Declaration.outline] using hk

/-- An enum with its members. -/
def withMembers (members : List Schema.EnumMember) (d : Schema.Declaration) : Schema.Declaration :=
  match d.body with
  | .enum _ => { d with body := .enum { members, isClosed := !members.any (·.number == 0) } }
  | _ => d

/-- An enum gets its members, and its file is given the edition for closed enums if it is one. -/
theorem finishEnum_eq (S : Schema) (id : DeclId) (members : List Schema.EnumMember) :
    finishEnum S id members =
      match !members.any (·.number == 0), (S.modifyDecl id (withMembers members)).fileOf? id with
      | true, some file => (S.modifyDecl id (withMembers members)).requireEdition file
      | _, _ => S.modifyDecl id (withMembers members) := rfl

theorem filled_of_finish (h : Finish id k leaves S S') (hk : kindOf? S id = some k) :
    Filled id leaves S S' := by
  -- A body is only put in where one of its kind stands; `hdk` rules out the others.
  obtain ⟨d, hd, hdk⟩ := exists_decl_of_kindOf? hk
  cases h with
  | message m hm =>
    cases hb : d.body with
    | message old =>
      refine filled_modifyDecl hd (b := .message { m with nested := old.nested }) ?_ ?_ ?_ hm
      · simp [hb]
      · rw [hb]
        rfl
      · simp [Schema.Declaration.nested, Schema.Declaration.message?, hb]
    | enum e => simp [hb, Body.kind] at hdk
    | service e => simp [hb, Body.kind] at hdk
  | enum members =>
    cases hb : d.body with
    | enum e =>
      have hfill : Filled id [] S (S.modifyDecl id (withMembers members)) := by
        refine filled_modifyDecl hd (b := .enum { members, isClosed := !members.any (·.number == 0) }) ?_ ?_ ?_ ?_
        · simp [withMembers, hb]
        · rw [hb]
          rfl
        · simp [Schema.Declaration.nested, Schema.Declaration.message?, hb]
        · simp [Body.leaves, Body.types]
      rw [finishEnum_eq]
      split
      · exact filled_requireEdition hfill
      · exact hfill
    | message m => simp [hb, Body.kind] at hdk
    | service e => simp [hb, Body.kind] at hdk
  | service body hbody =>
    cases hb : d.body with
    | service old =>
      refine filled_modifyDecl hd (b := .service body) ?_ ?_ ?_ hbody
      · simp [hb]
      · rw [hb]
        rfl
      · simp [Schema.Declaration.nested, Schema.Declaration.message?, hb]
    | message m => simp [hb, Body.kind] at hdk
    | enum e => simp [hb, Body.kind] at hdk

end Finish

end ProtoRecovery.Recovery
