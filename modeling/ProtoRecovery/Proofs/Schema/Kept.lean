import ProtoRecovery.Proofs.Schema.Nesting
/-!
# What building steps leave alone

Schemas only grow. What a declaration declares, its face, changes where a body is filled in; its place changes where
it is put somewhere. `Kept lo hi` says that the places of the first `lo` declarations and the faces of the first `hi`
are as before; what is nested in a declaration, or imported into a file, is only added to.
-/

namespace ProtoRecovery.Schema

/-! ## Faces -/

/-- A body without what is nested in it. -/
def Body.bare : Body → Body
  | .message m => .message { m with nested := [] }
  | b => b

/-- What is declared, wherever that is. -/
structure Face where
  name : String
  isDeprecated : Bool
  body : Body
deriving DecidableEq

/-- The face of a declaration. -/
def Declaration.face (d : Declaration) : Face := ⟨d.name, d.isDeprecated, d.body.bare⟩

/-- The face of the declaration at a position. -/
def faceOf? (s : Schema) (id : DeclId) : Option Face := s.decls[id]?.map (·.face)

theorem body_face_of_message? {d : Declaration} {m : Message} (h : d.message? = some m) :
    d.face.body = .message { m with nested := [] } := congrArg Body.bare (body_of_message? h)

theorem faceOf?_eq_none {s : Schema} {id : DeclId} : s.faceOf? id = none ↔ s.size ≤ id := by
  simp [faceOf?, size]

@[simp] theorem bare_emptyBody (k : Kind) : k.emptyBody.bare = k.emptyBody := by cases k <;> rfl

theorem face_addNested (d : Declaration) (child : DeclId) : (d.addNested child).face = d.face := by
  unfold Declaration.addNested
  split
  · rename_i m hb
    simp [Declaration.face, hb, Body.bare]
  · rfl

theorem nested_addNested (d : Declaration) (child : DeclId) : d.nested <+: (d.addNested child).nested := by
  unfold Declaration.addNested
  split
  · rename_i m hb
    simp [Declaration.nested, Declaration.message?, hb]
  · exact List.prefix_rfl

theorem faceOf?_declare (s : Schema) (name : String) (b : Bool) (k : Kind) (x : DeclId) :
    (s.declare name b k.emptyBody).faceOf? x =
      if x = s.size then some ⟨name, b, k.emptyBody⟩ else s.faceOf? x := by
  rcases Nat.lt_trichotomy x s.size with h | h | h
  · rw [if_neg h.ne, faceOf?, faceOf?, declare, List.getElem?_append_left h]
  · rw [if_pos h, faceOf?, declare, h, size, List.getElem?_concat_length]
    simp [Declaration.face]
  · rw [if_neg h.ne', faceOf?_eq_none.2 h.le, faceOf?_eq_none, size_declare]
    omega

/-! ## Files and declarations that stay -/

/-- A file stays what it is, with imports added and an edition if it had none. -/
structure File.Kept (f f' : File) : Prop where
  assembly : f'.assembly = f.assembly
  namespaceName : f'.namespaceName = f.namespaceName
  tops : f'.tops = f.tops
  imports : f.imports <+: f'.imports
  edition : ∀ e, f.edition = some e → f'.edition = some e

theorem File.Kept.refl (f : File) : f.Kept f := ⟨rfl, rfl, rfl, List.prefix_rfl, fun _ => id⟩

theorem File.Kept.trans {f g h : File} (h₁ : f.Kept g) (h₂ : g.Kept h) : f.Kept h where
  assembly := h₂.assembly.trans h₁.assembly
  namespaceName := h₂.namespaceName.trans h₁.namespaceName
  tops := h₂.tops.trans h₁.tops
  imports := h₁.imports.trans h₂.imports
  edition e he := h₂.edition e (h₁.edition e he)

/-- A declaration stays what it is and where it is, as far as these are fixed. -/
structure Declaration.Kept (place face : Prop) (d d' : Declaration) : Prop where
  face : face → d'.face = d.face
  file : place → d'.file = d.file
  parent : place → d'.parent = d.parent
  nested : d.nested <+: d'.nested

theorem Declaration.Kept.refl {place face : Prop} (d : Declaration) : d.Kept place face d :=
  ⟨fun _ => rfl, fun _ => rfl, fun _ => rfl, List.prefix_rfl⟩

theorem Declaration.Kept.trans {place face : Prop} {d e f : Declaration} (h₁ : d.Kept place face e)
    (h₂ : e.Kept place face f) : d.Kept place face f where
  face h := (h₂.face h).trans (h₁.face h)
  file h := (h₂.file h).trans (h₁.file h)
  parent h := (h₂.parent h).trans (h₁.parent h)
  nested := h₁.nested.trans h₂.nested

/-- Every file stays, and every declaration: in its place if it is one of the first `lo`, with its face if it is one
of the first `hi`. -/
structure Kept (lo hi : Nat) (s s' : Schema) : Prop where
  decl : ∀ (i : DeclId) (d : Declaration), s.decls[i]? = some d →
    ∃ d', s'.decls[i]? = some d' ∧ d.Kept (i < lo) (i < hi) d'
  file : ∀ (i : FileId) (f : File), s.files[i]? = some f → ∃ f', s'.files[i]? = some f' ∧ f.Kept f'

section Kept
variable {lo hi : Nat} {s s' s'' : Schema} {id p c x : DeclId} {file : FileId}

theorem Kept.refl (s : Schema) : Kept lo hi s s :=
  ⟨fun _ d hd => ⟨d, hd, .refl d⟩, fun _ f hf => ⟨f, hf, .refl f⟩⟩

theorem Kept.trans (h₁ : Kept lo hi s s') (h₂ : Kept lo hi s' s'') : Kept lo hi s s'' where
  decl i d hd := by
    obtain ⟨d₁, hd₁, hk₁⟩ := h₁.decl i d hd
    obtain ⟨d₂, hd₂, hk₂⟩ := h₂.decl i d₁ hd₁
    exact ⟨d₂, hd₂, hk₁.trans hk₂⟩
  file i f hf := by
    obtain ⟨f₁, hf₁, hk₁⟩ := h₁.file i f hf
    obtain ⟨f₂, hf₂, hk₂⟩ := h₂.file i f₁ hf₁
    exact ⟨f₂, hf₂, hk₁.trans hk₂⟩

theorem Kept.mono {lo' hi' : Nat} (h : Kept lo hi s s') (hlo : lo' ≤ lo) (hhi : hi' ≤ hi) : Kept lo' hi' s s' where
  decl i d hd := by
    obtain ⟨d', hd', hk⟩ := h.decl i d hd
    exact ⟨d', hd', fun h => hk.face (h.trans_le hhi), fun h => hk.file (h.trans_le hlo),
      fun h => hk.parent (h.trans_le hlo), hk.nested⟩
  file := h.file

theorem Kept.faceOf? (h : Kept lo hi s s') (hx : x < s.size) (hhi : x < hi) : s'.faceOf? x = s.faceOf? x := by
  have hd := List.getElem?_eq_getElem (l := s.decls) hx
  obtain ⟨d', hd', hk⟩ := h.decl _ _ hd
  rw [Schema.faceOf?, Schema.faceOf?, hd, hd', Option.map_some, Option.map_some, hk.face hhi]

/-- Where every face is kept and none is new, all are the same. -/
theorem Kept.faceOf?_eq (h : Kept lo s.size s s') (hsize : s'.size = s.size) (x : DeclId) :
    s'.faceOf? x = s.faceOf? x := by
  by_cases hx : x < s.size
  · exact h.faceOf? hx hx
  · rw [faceOf?_eq_none.2 (not_lt.1 hx), faceOf?_eq_none, hsize]
    exact not_lt.1 hx

/-! ## Steps -/

theorem kept_modifyDecl {f : Declaration → Declaration} (hf : ∀ d : Declaration, d.Kept (id < lo) (id < hi) (f d)) :
    Kept lo hi s (s.modifyDecl id f) where
  decl i d hd := by
    rw [decls_modifyDecl]
    split
    · rename_i hi
      subst hi
      exact ⟨f d, by rw [hd]; rfl, hf d⟩
    · exact ⟨d, hd, .refl d⟩
  file i f hf := ⟨f, hf, .refl f⟩

theorem kept_modifyFile {g : File → File} (hg : ∀ f : File, f.Kept (g f)) : Kept lo hi s (s.modifyFile file g) where
  decl i d hd := ⟨d, hd, .refl d⟩
  file i f hf := by
    simp only [modifyFile, List.getElem?_modify]
    split
    · exact ⟨g f, by rw [hf]; rfl, hg f⟩
    · exact ⟨f, by simp [hf], .refl f⟩

theorem kept_declare (name : String) (b : Bool) (body : Body) : Kept lo hi s (s.declare name b body) where
  decl i d hd := by
    refine ⟨d, ?_, .refl d⟩
    rw [declare, List.getElem?_append_left (List.getElem?_eq_some_iff.1 hd).1, hd]
  file i f hf := ⟨f, hf, .refl f⟩

theorem kept_requireEdition : Kept lo hi s (s.requireEdition file) := by
  refine kept_modifyFile fun f => ⟨rfl, rfl, rfl, List.prefix_rfl, fun e he => ?_⟩
  simp [he]

theorem kept_addImport (i : Import) : Kept lo hi s (s.addImport file i) := by
  refine kept_modifyFile fun f => ⟨rfl, rfl, rfl, ?_, fun e he => he⟩
  dsimp only
  split
  · exact List.prefix_rfl
  · exact List.prefix_append ..

theorem kept_assignOne (hid : lo ≤ id) : Kept lo hi s (s.assignOne file id) := by
  have hdecl : Kept lo hi s (s.modifyDecl id fun d => { d with file := some file }) :=
    kept_modifyDecl fun d => ⟨fun _ => rfl, fun h => absurd h (not_lt.2 hid), fun _ => rfl, List.prefix_rfl⟩
  unfold assignOne
  dsimp only
  split
  · exact hdecl.trans kept_requireEdition
  · exact hdecl

theorem kept_assignAll {ids : List DeclId} (h : ∀ x ∈ ids, lo ≤ x) : Kept lo hi s (s.assignAll file ids) := by
  induction ids generalizing s with
  | nil => exact .refl s
  | cons id rest ih =>
    exact (kept_assignOne (h id (by simp))).trans (ih fun x hx => h x (by simp [hx]))

/-- Nothing before a position is nested in what comes after it. -/
def Above (lo : Nat) (s : Schema) : Prop := ∀ p x, lo ≤ p → x ∈ s.nestedIn p → lo ≤ x

theorem above_zero (s : Schema) : Above 0 s := fun _ _ _ _ => Nat.zero_le _

theorem above_size (s : Schema) : Above s.size s := by
  intro p x hp hx
  rw [nestedIn, List.getElem?_eq_none hp] at hx
  simp at hx

theorem Above.of_nestedIn (h : Above lo s) (hn : ∀ p, s'.nestedIn p = s.nestedIn p) : Above lo s' :=
  fun p x hp hx => h p x hp (hn p ▸ hx)

theorem Above.le_of_mem_descend (h : Above lo s) {depth : Nat} (hid : lo ≤ id) (hx : x ∈ s.descend depth id) :
    lo ≤ x := by
  induction depth generalizing id with
  | zero => simp [descend] at hx
  | succ depth ih =>
    rcases List.mem_cons.1 hx with rfl | hx
    · exact hid
    · obtain ⟨y, hy, hx⟩ := List.mem_flatMap.1 hx
      exact ih (h id y hid hy) hx

theorem above_hang (h : Above lo s) (hc : lo ≤ c) : Above lo (s.hang p c) := by
  intro q x hq hx
  rcases mem_nestedIn_hang hx with hx | ⟨-, rfl⟩
  · exact h q x hq hx
  · exact hc

theorem above_nest (h : Above lo s) (hc : lo ≤ c) : Above lo (s.nest p c) := by
  rcases nest_cases s p c with ⟨-, he⟩ | ⟨f, -, he⟩
  · exact he ▸ above_hang h hc
  · exact (above_hang h hc).of_nestedIn fun q => by rw [he, nestedIn_assignAll]

theorem kept_nest (h : Above lo s) (hc : lo ≤ c) : Kept lo hi s (s.nest p c) := by
  have hhang : Kept lo hi s (s.hang p c) := by
    have hparent : Kept lo hi s (s.modifyDecl p (·.addNested c)) := by
      refine kept_modifyDecl fun d => ⟨fun _ => face_addNested d c, fun _ => ?_, fun _ => ?_, nested_addNested d c⟩
      · exact congrArg Outline.file (outline_addNested d c)
      · exact congrArg Outline.parent (outline_addNested d c)
    refine hparent.trans (kept_modifyDecl fun d => ?_)
    exact ⟨fun _ => rfl, fun _ => rfl, fun h => absurd h (not_lt.2 hc), List.prefix_rfl⟩
  rcases nest_cases s p c with ⟨-, he⟩ | ⟨f, -, he⟩
  · exact he ▸ hhang
  · rw [he]
    exact hhang.trans (kept_assignAll fun x hx => (above_hang h hc).le_of_mem_descend hc hx)

/-- A declaration is put in a new file. -/
theorem kept_attach_addFile {f : File} (h : Above lo s) (hid : lo ≤ id) :
    Kept lo hi s ((s.addFile f).attach id s.files.length) := by
  have hfile : Kept lo hi s
      ((s.addFile f).modifyFile s.files.length fun f => { f with tops := f.tops ++ [id] }) := by
    refine ⟨fun i d hd => ⟨d, hd, .refl d⟩, fun i g hg => ⟨g, ?_, .refl g⟩⟩
    have hlt := (List.getElem?_eq_some_iff.1 hg).1
    simp only [modifyFile, addFile, List.getElem?_modify, if_neg hlt.ne', List.getElem?_append_left hlt, hg,
      Option.map_eq_map, Option.map_some]
  unfold attach
  rw [assignFile_eq]
  have habove : Above lo ((s.addFile f).modifyFile s.files.length fun f => { f with tops := f.tops ++ [id] }) :=
    h.of_nestedIn fun _ => rfl
  exact hfile.trans (kept_assignAll fun x hx => habove.le_of_mem_descend hid hx)

theorem nestedIn_attach_addFile {f : File} :
    ((s.addFile f).attach id s.files.length).nestedIn x = s.nestedIn x := by
  unfold attach
  rw [assignFile_eq, nestedIn_assignAll, nestedIn_modifyFile, nestedIn_addFile]

theorem size_attach_addFile {f : File} : ((s.addFile f).attach id s.files.length).size = s.size := by
  unfold attach
  rw [assignFile_eq, size_assignAll, size_modifyFile, size_addFile]

theorem faceOf?_nest : (s.nest p c).faceOf? x = s.faceOf? x :=
  (kept_nest (above_zero s) (Nat.zero_le c)).faceOf?_eq size_nest x

theorem faceOf?_attach_addFile {f : File} : ((s.addFile f).attach id s.files.length).faceOf? x = s.faceOf? x :=
  (kept_attach_addFile (above_zero s) (Nat.zero_le id)).faceOf?_eq size_attach_addFile x

/-- Changing one declaration gives it another face. -/
theorem faceOf?_modifyDecl {f : Declaration → Declaration} :
    (s.modifyDecl id f).faceOf? x = if x = id then (s.decls[x]?).map fun d => (f d).face else s.faceOf? x := by
  rw [faceOf?, decls_modifyDecl]
  split
  · rw [Option.map_map]
    rfl
  · rfl

end Kept

end ProtoRecovery.Schema
