import ProtoRecovery.Proofs.Schema.Outline
/-!
# Nesting and the files of what is nested

A declaration gets its file from the message around it, sometimes long after it was nested there.
`Linked` is what holds of nesting and files at every moment; `nest` and `attach` keep it.
-/

namespace ProtoRecovery.Schema

open Relation (ReflTransGen)

/-- A declaration is another one, or nested in it at some depth. -/
def Inside (s : Schema) : DeclId → DeclId → Prop := ReflTransGen fun x y => s.parentOf? x = some y

/-- Nested lists agree with parents, and whoever has a file shares it with all around. -/
structure Linked (s : Schema) : Prop where
  parent_of_nested : ∀ p c, c ∈ s.nestedIn p → s.parentOf? c = some p
  parent_lt : ∀ c p, s.parentOf? c = some p → p < s.size
  file_up : ∀ c p f, s.parentOf? c = some p → s.fileOf? c = some f → s.fileOf? p = some f
  file_lt : ∀ c f, s.fileOf? c = some f → f < s.files.length

/-- A declaration that waits for its place: it has neither a file nor a parent. -/
structure Loose (s : Schema) (id : DeclId) : Prop where
  lt : id < s.size
  file : s.fileOf? id = none
  parent : s.parentOf? id = none

/-- One that waits and has nothing nested in it. -/
structure Solitary (s : Schema) (id : DeclId) : Prop extends Loose s id where
  nested : s.nestedIn id = []

/-- A change that leaves parents, files and nested lists alone keeps links. -/
theorem Linked.transfer {s s' : Schema} (hs : s.Linked) (hsize : s.size ≤ s'.size)
    (hfiles : s.files.length ≤ s'.files.length) (hparent : ∀ x, s'.parentOf? x = s.parentOf? x)
    (hfile : ∀ x, s'.fileOf? x = s.fileOf? x) (hnested : ∀ x, s'.nestedIn x = s.nestedIn x) : s'.Linked where
  parent_of_nested p c h := by
    rw [hnested] at h
    rw [hparent]
    exact hs.parent_of_nested p c h
  parent_lt c p h := by
    rw [hparent] at h
    exact lt_of_lt_of_le (hs.parent_lt c p h) hsize
  file_up c p f h hf := by
    rw [hparent] at h
    rw [hfile] at hf ⊢
    exact hs.file_up c p f h hf
  file_lt c f hf := by
    rw [hfile] at hf
    exact lt_of_lt_of_le (hs.file_lt c f hf) hfiles

theorem linked_declare {s : Schema} (hs : s.Linked) (name : String) (b : Bool) (k : Kind) :
    (s.declare name b k.emptyBody).Linked := by
  refine hs.transfer ?_ (le_refl _) (fun x => parentOf?_declare ..) (fun x => fileOf?_declare ..)
    (fun x => nestedIn_declare ..)
  rw [size_declare]
  exact Nat.le_succ _

theorem Inside.file {s : Schema} (hs : s.Linked) {x a : DeclId} (h : s.Inside x a) {f : FileId}
    (hx : s.fileOf? x = some f) : s.fileOf? a = some f := by
  induction h with
  | refl => exact hx
  | tail _ hp ih => exact hs.file_up _ _ _ hp ih

/-! ## Descendants -/

theorem inside_of_mem_descend {s : Schema} (hs : s.Linked) {depth : Nat} {x id : DeclId}
    (h : x ∈ s.descend depth id) : s.Inside x id := by
  induction depth generalizing id with
  | zero => simp [descend] at h
  | succ depth ih =>
    simp only [descend, List.mem_cons, List.mem_flatMap] at h
    rcases h with rfl | ⟨c, hc, hx⟩
    · exact .refl
    · exact (ih hx).tail (hs.parent_of_nested _ _ hc)

/-- What is found below a declaration is found below something that lists it. -/
theorem exists_lister_of_mem_descend {s : Schema} {depth : Nat} {x id : DeclId}
    (h : x ∈ s.descend depth id) (hx : x ≠ id) : ∃ q ∈ s.descend depth id, x ∈ s.nestedIn q := by
  induction depth generalizing id with
  | zero => simp [descend] at h
  | succ depth ih =>
    simp only [descend, List.mem_cons, List.mem_flatMap] at h ⊢
    rcases h with rfl | ⟨c, hc, hxc⟩
    · exact absurd rfl hx
    · by_cases he : x = c
      · subst he
        exact ⟨id, .inl rfl, hc⟩
      · obtain ⟨q, hq, hxq⟩ := ih hxc he
        exact ⟨q, .inr ⟨c, hc, hq⟩, hxq⟩

theorem descend_of_nestedIn_eq_nil {s : Schema} {id : DeclId} (h : s.nestedIn id = []) (depth : Nat) :
    s.descend (depth + 1) id = [id] := by
  simp [descend, h]

theorem descendants_of_nestedIn_eq_nil {s : Schema} {id : Nat} (h : s.nestedIn id = [])
    (hid : id < s.size) : s.descendants id = [id] := by
  obtain ⟨n, hn⟩ : ∃ n, s.size = n + 1 := ⟨s.size - 1, by omega⟩
  rw [descendants, hn, descend_of_nestedIn_eq_nil h]

/-! ## Giving files -/

/-- An outline in a file. -/
def Outline.inFile (o : Outline) (file : FileId) : Outline := { o with file := some file }

section Assign
variable (s : Schema) (file : FileId) (ids : List DeclId) (id x : DeclId)

theorem files_requireEdition_length : (s.requireEdition file).files.length = s.files.length :=
  length_files_modifyFile s file _

@[simp] theorem size_assignOne : (s.assignOne file id).size = s.size := by
  unfold assignOne
  dsimp only
  split <;> simp [requireEdition]

@[simp] theorem outlineOf?_assignOne :
    (s.assignOne file id).outlineOf? x =
      if x = id then (s.outlineOf? x).map (·.inFile file) else s.outlineOf? x := by
  have h := outlineOf?_modifyDecl s id x (fun d => { d with file := some file }) (·.inFile file) (fun _ => rfl)
  rw [← h]
  unfold assignOne
  dsimp only
  split <;> rfl

@[simp] theorem nestedIn_assignOne : (s.assignOne file id).nestedIn x = s.nestedIn x := by
  have h := nestedIn_modifyDecl_same s id x (fun d => { d with file := some file }) (fun _ => rfl)
  rw [← h]
  unfold assignOne
  dsimp only
  split <;> rfl

@[simp] theorem length_files_assignOne : (s.assignOne file id).files.length = s.files.length := by
  unfold assignOne
  dsimp only
  split <;> simp [requireEdition]

@[simp] theorem importsOf_assignOne (g : FileId) : (s.assignOne file id).importsOf g = s.importsOf g := by
  unfold assignOne
  dsimp only
  split
  · rw [importsOf_requireEdition, importsOf_modifyDecl]
  · rw [importsOf_modifyDecl]

@[simp] theorem topsOf_assignOne (g : FileId) : (s.assignOne file id).topsOf g = s.topsOf g := by
  unfold assignOne
  dsimp only
  split
  · rw [topsOf_requireEdition, topsOf_modifyDecl]
  · rw [topsOf_modifyDecl]

/-- Puts declarations in a file one after the other. -/
def assignAll : Schema := ids.foldl (·.assignOne file) s

@[simp] theorem size_assignAll : (s.assignAll file ids).size = s.size := by
  induction ids generalizing s with
  | nil => rfl
  | cons id ids ih => exact (ih (s.assignOne file id)).trans (size_assignOne s file id)

@[simp] theorem length_files_assignAll : (s.assignAll file ids).files.length = s.files.length := by
  induction ids generalizing s with
  | nil => rfl
  | cons id ids ih => exact (ih (s.assignOne file id)).trans (length_files_assignOne s file id)

@[simp] theorem nestedIn_assignAll : (s.assignAll file ids).nestedIn x = s.nestedIn x := by
  induction ids generalizing s with
  | nil => rfl
  | cons id ids ih => exact (ih (s.assignOne file id)).trans (nestedIn_assignOne s file id x)

@[simp] theorem importsOf_assignAll (g : FileId) : (s.assignAll file ids).importsOf g = s.importsOf g := by
  induction ids generalizing s with
  | nil => rfl
  | cons id ids ih => exact (ih (s.assignOne file id)).trans (importsOf_assignOne s file id g)

@[simp] theorem topsOf_assignAll (g : FileId) : (s.assignAll file ids).topsOf g = s.topsOf g := by
  induction ids generalizing s with
  | nil => rfl
  | cons id ids ih => exact (ih (s.assignOne file id)).trans (topsOf_assignOne s file id g)

theorem outlineOf?_assignAll :
    (s.assignAll file ids).outlineOf? x =
      if x ∈ ids then (s.outlineOf? x).map (·.inFile file) else s.outlineOf? x := by
  induction ids generalizing s with
  | nil => simp [assignAll]
  | cons id ids ih =>
    show ((s.assignOne file id).assignAll file ids).outlineOf? x = _
    rw [ih, outlineOf?_assignOne]
    by_cases hx : x = id
    · by_cases hm : x ∈ ids
      · rw [if_pos hm, if_pos hx, if_pos (List.mem_cons.2 (.inl hx)), Option.map_map]
        rfl
      · rw [if_neg hm, if_pos hx, if_pos (List.mem_cons.2 (.inl hx))]
    · simp [hx]

theorem assignFile_eq : s.assignFile id file = s.assignAll file (s.descendants id) := rfl

end Assign

section Assigned
variable {s : Schema} {file : FileId} {ids : List DeclId} {x : DeclId}

theorem parentOf?_assignAll : (s.assignAll file ids).parentOf? x = s.parentOf? x := by
  rw [parentOf?_eq, parentOf?_eq, outlineOf?_assignAll]
  split
  · cases s.outlineOf? x <;> rfl
  · rfl

theorem fileOf?_assignAll_of_mem (hx : x ∈ ids) (hlt : x < s.size) :
    (s.assignAll file ids).fileOf? x = some file := by
  rw [fileOf?_eq, outlineOf?_assignAll, if_pos hx]
  cases h : s.outlineOf? x with
  | none => exact absurd (outlineOf?_eq_none.1 h) (not_le.2 hlt)
  | some o => rfl

theorem fileOf?_assignAll_of_not_mem (hx : x ∉ ids) : (s.assignAll file ids).fileOf? x = s.fileOf? x := by
  rw [fileOf?_eq, fileOf?_eq, outlineOf?_assignAll, if_neg hx]

end Assigned

/-! ## Nesting -/

/-- Nests a declaration without looking at files. -/
def hang (s : Schema) (parent child : DeclId) : Schema :=
  (s.modifyDecl parent (·.addNested child)).modifyDecl child fun d => { d with parent := some parent }

theorem outline_addNested (d : Declaration) (child : DeclId) : (d.addNested child).outline = d.outline := by
  unfold Declaration.addNested
  split
  · rename_i m hb
    simp [Declaration.outline, hb, Body.types, Body.kind]
  · rfl

theorem mem_nested_addNested {d : Declaration} {child y : DeclId} (h : y ∈ (d.addNested child).nested) :
    y ∈ d.nested ∨ y = child := by
  unfold Declaration.addNested at h
  split at h
  · rename_i m hb
    simpa [Declaration.nested, Declaration.message?, hb] using h
  · exact .inl h

section Hang
variable {s : Schema} {p c x y : DeclId}

@[simp] theorem size_hang : (s.hang p c).size = s.size := by simp [hang]

theorem outlineOf?_hang :
    (s.hang p c).outlineOf? x =
      if x = c then (s.outlineOf? x).map fun o => { o with parent := some p } else s.outlineOf? x := by
  have hp : (s.modifyDecl p (·.addNested c)).outlineOf? x = s.outlineOf? x := by
    rw [outlineOf?_modifyDecl s p x _ id fun d => outline_addNested d c]
    simp
  rw [hang, outlineOf?_modifyDecl _ c x _ (fun o => { o with parent := some p }) fun _ => rfl, hp]

theorem fileOf?_hang : (s.hang p c).fileOf? x = s.fileOf? x := by
  rw [fileOf?_eq, fileOf?_eq, outlineOf?_hang]
  split
  · cases s.outlineOf? x <;> rfl
  · rfl

theorem parentOf?_hang (hc : c < s.size) :
    (s.hang p c).parentOf? x = if x = c then some p else s.parentOf? x := by
  rw [parentOf?_eq, parentOf?_eq, outlineOf?_hang]
  split
  · rename_i hx
    cases ho : s.outlineOf? x with
    | none => exact absurd (hx ▸ outlineOf?_eq_none.1 ho) (not_le.2 hc)
    | some o => rfl
  · rfl

/-- Only the first half of hanging a declaration up changes what is nested. -/
theorem nestedIn_hang_eq : (s.hang p c).nestedIn x = (s.modifyDecl p (·.addNested c)).nestedIn x := by
  rw [hang, nestedIn_modifyDecl_same]
  exact fun _ => rfl

theorem nestedIn_hang (hp : (s.outlineOf? p).map (·.kind) = some .message) :
    (s.hang p c).nestedIn x = if x = p then s.nestedIn x ++ [c] else s.nestedIn x := by
  rw [nestedIn_hang_eq, nestedIn, decls_modifyDecl]
  split
  · rename_i hx
    subst hx
    obtain ⟨d, hd, hk⟩ : ∃ d, s.decls[x]? = some d ∧ d.body.kind = .message := by
      simpa [outlineOf?, Declaration.outline] using hp
    cases hb : d.body with
    | message m =>
      simp [nestedIn, hd, Declaration.addNested, Declaration.nested, Declaration.message?, hb]
    | enum e => simp [hb, Body.kind] at hk
    | service e => simp [hb, Body.kind] at hk
  · rfl

/-- Only messages list what is nested in them. -/
theorem nestedIn_hang_of_ne (hp : (s.outlineOf? p).map (·.kind) ≠ some .message) :
    (s.hang p c).nestedIn x = s.nestedIn x := by
  rw [nestedIn_hang_eq, nestedIn, nestedIn, decls_modifyDecl]
  split
  · rename_i hx
    subst hx
    cases hd : s.decls[x]? with
    | none => rfl
    | some d =>
      have hk : d.body.kind ≠ .message := by simpa [outlineOf?, hd, Declaration.outline] using hp
      have hadd : d.addNested c = d := by
        unfold Declaration.addNested
        split
        · rename_i m hb
          simp [hb, Body.kind] at hk
        · rfl
      rw [Option.map_some, hadd]
  · rfl

theorem mem_nestedIn_hang (h : y ∈ (s.hang p c).nestedIn x) : y ∈ s.nestedIn x ∨ (x = p ∧ y = c) := by
  rw [nestedIn_hang_eq, nestedIn, decls_modifyDecl] at h
  split at h
  · rename_i hx
    subst hx
    cases hd : s.decls[x]? with
    | none => simp [hd] at h
    | some d =>
      have hy : y ∈ (d.addNested c).nested := by simpa [hd] using h
      rcases mem_nested_addNested hy with hy | hy
      · exact .inl (by simpa [nestedIn, hd] using hy)
      · exact .inr ⟨rfl, hy⟩
  · exact .inl h

theorem linked_hang (hs : s.Linked) (hc : s.Loose c) (hp : p < s.size) : (s.hang p c).Linked where
  parent_of_nested q y h := by
    rw [parentOf?_hang hc.lt]
    rcases mem_nestedIn_hang h with h | ⟨rfl, rfl⟩
    · have hy := hs.parent_of_nested q y h
      rw [if_neg, hy]
      rintro rfl
      simp [hc.parent] at hy
    · simp
  parent_lt y q h := by
    rw [parentOf?_hang hc.lt] at h
    rw [size_hang]
    split at h
    · cases h
      exact hp
    · exact hs.parent_lt y q h
  file_up y q f h hf := by
    rw [fileOf?_hang] at hf ⊢
    rw [parentOf?_hang hc.lt] at h
    split at h
    · rename_i hy
      subst hy
      simp [hc.file] at hf
    · exact hs.file_up y q f h hf
  file_lt y f hf := by
    rw [fileOf?_hang] at hf
    exact hs.file_lt y f hf

end Hang

/-- Putting all below a declaration without a file into the file of its parent keeps links. -/
theorem linked_assignAll_descendants {s : Schema} {p c : DeclId} {f : FileId} (hs : s.Linked)
    (hc : s.parentOf? c = some p) (hcf : s.fileOf? c = none) (hp : s.fileOf? p = some f) :
    (s.assignAll f (s.descendants c)).Linked where
  parent_of_nested q y h := by
    rw [nestedIn_assignAll] at h
    rw [parentOf?_assignAll]
    exact hs.parent_of_nested q y h
  parent_lt y q h := by
    rw [parentOf?_assignAll] at h
    rw [size_assignAll]
    exact hs.parent_lt y q h
  file_up y q g h hg := by
    rw [parentOf?_assignAll] at h
    have hq := hs.parent_lt y q h
    by_cases hy : y ∈ s.descendants c
    · rw [fileOf?_assignAll_of_mem hy (lt_size_of_parentOf? h)] at hg
      cases hg
      -- The parent is on the list too, except for the first on it, whose parent has the file already.
      by_cases hqm : q ∈ s.descendants c
      · exact fileOf?_assignAll_of_mem hqm hq
      · rw [fileOf?_assignAll_of_not_mem hqm]
        by_cases hyc : y = c
        · subst hyc
          rw [hc] at h
          cases h
          exact hp
        · obtain ⟨r, hr, hyr⟩ := exists_lister_of_mem_descend hy hyc
          have := hs.parent_of_nested r y hyr
          rw [h] at this
          cases this
          exact absurd hr hqm
    · rw [fileOf?_assignAll_of_not_mem hy] at hg
      have hqg := hs.file_up y q g h hg
      by_cases hqm : q ∈ s.descendants c
      -- A parent on the list had no file, since all that have one share it with what is around them.
      · have := (inside_of_mem_descend hs hqm).file hs hqg
        rw [hcf] at this
        cases this
      · rw [fileOf?_assignAll_of_not_mem hqm, hqg]
  file_lt y g hg := by
    rw [length_files_assignAll]
    by_cases hy : y ∈ s.descendants c
    · have hlt : y < s.size := by
        have := lt_size_of_fileOf? hg
        rwa [size_assignAll] at this
      rw [fileOf?_assignAll_of_mem hy hlt] at hg
      cases hg
      exact hs.file_lt p f hp
    · rw [fileOf?_assignAll_of_not_mem hy] at hg
      exact hs.file_lt y g hg

section Nest
variable {s : Schema} {p c x : DeclId}

theorem nest_eq :
    s.nest p c =
      match (s.hang p c).fileOf? p with
      | some f => (s.hang p c).assignFile c f
      | none => s.hang p c := rfl

theorem nest_of_file {f : FileId} (hp : s.fileOf? p = some f) :
    s.nest p c = (s.hang p c).assignAll f ((s.hang p c).descendants c) := by
  rw [nest_eq, fileOf?_hang, hp]
  rfl

theorem nest_of_no_file (hp : s.fileOf? p = none) : s.nest p c = s.hang p c := by
  rw [nest_eq, fileOf?_hang, hp]

/-- What `nest` does, whether or not there is a file to hand on. -/
theorem nest_cases (s : Schema) (p c : DeclId) :
    (s.fileOf? p = none ∧ s.nest p c = s.hang p c) ∨
      ∃ f, s.fileOf? p = some f ∧ s.nest p c = (s.hang p c).assignAll f ((s.hang p c).descendants c) := by
  cases hp : s.fileOf? p with
  | none => exact .inl ⟨rfl, nest_of_no_file hp⟩
  | some f => exact .inr ⟨f, rfl, nest_of_file hp⟩

@[simp] theorem size_nest : (s.nest p c).size = s.size := by
  rcases nest_cases s p c with ⟨-, h⟩ | ⟨f, -, h⟩ <;> simp [h]

@[simp] theorem length_files_nest : (s.nest p c).files.length = s.files.length := by
  rcases nest_cases s p c with ⟨-, h⟩ | ⟨f, -, h⟩ <;> simp [h, hang]

@[simp] theorem importsOf_nest (g : FileId) : (s.nest p c).importsOf g = s.importsOf g := by
  rcases nest_cases s p c with ⟨-, h⟩ | ⟨f, -, h⟩ <;> simp [h, hang, importsOf_modifyDecl]

theorem parentOf?_nest (hc : c < s.size) :
    (s.nest p c).parentOf? x = if x = c then some p else s.parentOf? x := by
  rcases nest_cases s p c with ⟨-, h⟩ | ⟨f, -, h⟩
  · rw [h, parentOf?_hang hc]
  · rw [h, parentOf?_assignAll, parentOf?_hang hc]

theorem linked_nest (hs : s.Linked) (hc : s.Loose c) (hp : p < s.size) : (s.nest p c).Linked := by
  rcases nest_cases s p c with ⟨-, h⟩ | ⟨f, hf, h⟩
  · rw [h]
    exact linked_hang hs hc hp
  · rw [h]
    refine linked_assignAll_descendants (linked_hang hs hc hp) (p := p) ?_ ?_ ?_
    · rw [parentOf?_hang hc.lt, if_pos rfl]
    · rw [fileOf?_hang, hc.file]
    · rw [fileOf?_hang, hf]

theorem nestedIn_nest (hp : (s.outlineOf? p).map (·.kind) = some .message) :
    (s.nest p c).nestedIn x = if x = p then s.nestedIn x ++ [c] else s.nestedIn x := by
  rcases nest_cases s p c with ⟨-, h⟩ | ⟨f, -, h⟩
  · rw [h, nestedIn_hang hp]
  · rw [h, nestedIn_assignAll, nestedIn_hang hp]

theorem nestedIn_nest_of_ne (hp : (s.outlineOf? p).map (·.kind) ≠ some .message) :
    (s.nest p c).nestedIn x = s.nestedIn x := by
  rcases nest_cases s p c with ⟨-, h⟩ | ⟨f, -, h⟩
  · rw [h, nestedIn_hang_of_ne hp]
  · rw [h, nestedIn_assignAll, nestedIn_hang_of_ne hp]

@[simp] theorem topsOf_nest (f : FileId) : (s.nest p c).topsOf f = s.topsOf f := by
  rcases nest_cases s p c with ⟨-, h⟩ | ⟨g, -, h⟩
  · rw [h]
    rfl
  · rw [h, topsOf_assignAll]
    rfl

/-- The types and the kind of an outline. -/
def Outline.content (o : Outline) : List FieldType × Kind := (o.types, o.kind)

theorem leavesOf_content {s s' : Schema} {x : DeclId}
    (h : (s'.outlineOf? x).map Outline.content = (s.outlineOf? x).map Outline.content) :
    s'.leavesOf x = s.leavesOf x := by
  unfold leavesOf
  cases h₁ : s'.outlineOf? x <;> cases h₂ : s.outlineOf? x <;> simp_all [Outline.content]

theorem content_nest :
    ((s.nest p c).outlineOf? x).map Outline.content = (s.outlineOf? x).map Outline.content := by
  have hh : ((s.hang p c).outlineOf? x).map Outline.content = (s.outlineOf? x).map Outline.content := by
    rw [outlineOf?_hang]
    split <;> cases s.outlineOf? x <;> rfl
  rcases nest_cases s p c with ⟨-, h⟩ | ⟨f, hf, h⟩
  · rw [h, hh]
  · rw [h, ← hh, outlineOf?_assignAll]
    split <;> cases (s.hang p c).outlineOf? x <;> rfl

/-- Who has a file keeps it. -/
theorem fileOf?_nest_of_some {f : FileId} (hs : s.Linked) (hc : s.Loose c) (hp : p < s.size)
    (hx : s.fileOf? x = some f) : (s.nest p c).fileOf? x = some f := by
  rcases nest_cases s p c with ⟨-, h⟩ | ⟨g, hg, h⟩
  · rw [h, fileOf?_hang, hx]
  · rw [h, fileOf?_assignAll_of_not_mem, fileOf?_hang, hx]
    intro hm
    have hf : (s.hang p c).fileOf? x = some f := fileOf?_hang.trans hx
    -- Whatever is put in a file now was inside a declaration without one.
    have := (inside_of_mem_descend (linked_hang hs hc hp) hm).file (linked_hang hs hc hp) hf
    rw [fileOf?_hang, hc.file] at this
    cases this

/-- Whoever has a file after nesting had it before, or got it below what was nested. -/
theorem fileOf?_nest_cases {f : FileId} (hs : s.Linked) (hc : s.Loose c) (hp : p < s.size)
    (hx : (s.nest p c).fileOf? x = some f) :
    s.fileOf? x = some f ∨ (s.fileOf? p = some f ∧ (s.nest p c).Inside x c) := by
  rcases nest_cases s p c with ⟨-, h⟩ | ⟨g, hg, h⟩
  · rw [h, fileOf?_hang] at hx
    exact .inl hx
  · by_cases hm : x ∈ (s.hang p c).descendants c
    · have hlt : x < (s.hang p c).size := by
        have := lt_size_of_fileOf? hx
        simpa using this
      rw [h, fileOf?_assignAll_of_mem hm hlt] at hx
      cases hx
      refine .inr ⟨hg, ?_⟩
      have hin := inside_of_mem_descend (linked_hang hs hc hp) hm
      rw [h]
      exact ReflTransGen.mono (fun a b hab => parentOf?_assignAll.trans hab) _ _ hin
    · rw [h, fileOf?_assignAll_of_not_mem hm, fileOf?_hang] at hx
      exact .inl hx

end Nest

end ProtoRecovery.Schema
