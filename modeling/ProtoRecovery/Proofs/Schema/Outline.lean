import Mathlib
import ProtoRecovery.Schema.Basic
/-!
# What building steps change

The outline of a declaration is its file, its parent, its kind and the types it mentions: all that later
steps rely on, apart from what is nested in it. Every step that builds a schema has one lemma for each
of size, outlines, nesting and imports.
-/

namespace ProtoRecovery.Schema

/-! ## Types that a declaration mentions -/

/-- The types inside a type that are neither lists nor maps. -/
def FieldType.leaves : FieldType → List FieldType
  | .repeated element => element.leaves
  | .map key value => key.leaves ++ value.leaves
  | type => [type]

/-- The types of fields, requests and responses in a body. -/
def Body.types : Body → List FieldType
  | .message m => m.fields.map (·.type)
  | .enum _ => []
  | .service s => s.methods.flatMap fun m => [m.request, m.response]

/-- The types in a body, without lists and maps around them. -/
def Body.leaves (b : Body) : List FieldType := b.types.flatMap FieldType.leaves

/-- What a body declares, without the rest. -/
inductive Kind where
  | message
  | enum
  | service
deriving DecidableEq, Repr

/-- The kind of a body. -/
def Body.kind : Body → Kind
  | .message _ => .message
  | .enum _ => .enum
  | .service _ => .service

/-- The body of a declaration that nothing is known of yet. -/
def Kind.emptyBody : Kind → Body
  | .message => .message {}
  | .enum => .enum {}
  | .service => .service {}

@[simp] theorem types_emptyBody (k : Kind) : k.emptyBody.types = [] := by cases k <;> rfl

@[simp] theorem kind_emptyBody (k : Kind) : k.emptyBody.kind = k := by cases k <;> rfl

theorem body_of_message? {d : Declaration} {m : Message} (h : d.message? = some m) : d.body = .message m := by
  unfold Declaration.message? at h
  split at h <;> simp_all

/-- A declaration without its name and what is nested in it. -/
structure Outline where
  file : Option FileId
  parent : Option DeclId
  types : List FieldType
  kind : Kind
deriving DecidableEq, Repr

/-- The outline of a declaration. -/
def Declaration.outline (d : Declaration) : Outline := ⟨d.file, d.parent, d.body.types, d.body.kind⟩

/-- The outline of the declaration at a position. -/
def outlineOf? (s : Schema) (id : DeclId) : Option Outline := s.decls[id]?.map (·.outline)

/-- The types that a declaration mentions, without lists and maps around them. -/
def leavesOf (s : Schema) (id : DeclId) : List FieldType :=
  ((s.outlineOf? id).map fun o => o.types.flatMap FieldType.leaves).getD []

/-- What a file imports. -/
def importsOf (s : Schema) (file : FileId) : List Import := ((s.files[file]?).map (·.imports)).getD []

section Views
variable {s s' : Schema} {id : DeclId}

theorem fileOf?_eq : s.fileOf? id = (s.outlineOf? id).bind (·.file) := by
  unfold fileOf? outlineOf?
  cases s.decls[id]? <;> rfl

theorem parentOf?_eq : s.parentOf? id = (s.outlineOf? id).bind (·.parent) := by
  unfold parentOf? outlineOf?
  cases s.decls[id]? <;> rfl

theorem outlineOf?_eq_none : s.outlineOf? id = none ↔ s.size ≤ id := by
  simp [outlineOf?, size]

theorem lt_size_of_fileOf? {file : FileId} (h : s.fileOf? id = some file) : id < s.size := by
  by_contra hn
  rw [fileOf?_eq, outlineOf?_eq_none.2 (not_lt.1 hn)] at h
  cases h

theorem lt_size_of_parentOf? {p : DeclId} (h : s.parentOf? id = some p) : id < s.size := by
  by_contra hn
  rw [parentOf?_eq, outlineOf?_eq_none.2 (not_lt.1 hn)] at h
  cases h

theorem fileOf?_congr (h : s'.outlineOf? id = s.outlineOf? id) : s'.fileOf? id = s.fileOf? id := by
  rw [fileOf?_eq, fileOf?_eq, h]

theorem parentOf?_congr (h : s'.outlineOf? id = s.outlineOf? id) : s'.parentOf? id = s.parentOf? id := by
  rw [parentOf?_eq, parentOf?_eq, h]

theorem leavesOf_congr (h : s'.outlineOf? id = s.outlineOf? id) : s'.leavesOf id = s.leavesOf id := by
  rw [leavesOf, leavesOf, h]

end Views

/-! ## Steps on files -/

section Files
variable (s : Schema) (file : FileId) (id : DeclId)

@[simp] theorem size_modifyFile (f : File → File) : (s.modifyFile file f).size = s.size := rfl

@[simp] theorem outlineOf?_modifyFile (f : File → File) :
    (s.modifyFile file f).outlineOf? id = s.outlineOf? id := rfl

@[simp] theorem nestedIn_modifyFile (f : File → File) : (s.modifyFile file f).nestedIn id = s.nestedIn id :=
  rfl

@[simp] theorem size_addFile (f : File) : (s.addFile f).size = s.size := rfl

@[simp] theorem outlineOf?_addFile (f : File) : (s.addFile f).outlineOf? id = s.outlineOf? id := rfl

@[simp] theorem nestedIn_addFile (f : File) : (s.addFile f).nestedIn id = s.nestedIn id := rfl

@[simp] theorem length_files_modifyFile (f : File → File) :
    (s.modifyFile file f).files.length = s.files.length := by
  simp [modifyFile]

theorem importsOf_modifyFile (f : File → File) (hf : ∀ x, (f x).imports = x.imports) (other : FileId) :
    (s.modifyFile file f).importsOf other = s.importsOf other := by
  simp only [importsOf, modifyFile, List.getElem?_modify]
  split
  · cases s.files[other]? <;> simp [hf]
  · simp

theorem importsOf_requireEdition (other : FileId) :
    (s.requireEdition file).importsOf other = s.importsOf other := by
  rw [requireEdition, importsOf_modifyFile]
  exact fun _ => rfl

theorem topsOf_modifyFile (f : File → File) (hf : ∀ x, (f x).tops = x.tops) (other : FileId) :
    (s.modifyFile file f).topsOf other = s.topsOf other := by
  simp only [topsOf, modifyFile, List.getElem?_modify]
  split
  · cases s.files[other]? <;> simp [hf]
  · simp

theorem topsOf_requireEdition (other : FileId) : (s.requireEdition file).topsOf other = s.topsOf other := by
  rw [requireEdition, topsOf_modifyFile]
  exact fun _ => rfl

theorem topsOf_addImport (i : Import) (other : FileId) :
    (s.addImport file i).topsOf other = s.topsOf other := by
  rw [addImport, topsOf_modifyFile]
  exact fun _ => rfl

theorem importsOf_addFile {f : File} (hf : f.imports = []) (other : FileId) :
    (s.addFile f).importsOf other = s.importsOf other := by
  simp only [importsOf, addFile, List.getElem?_append]
  split
  · rfl
  · rename_i h
    rw [List.getElem?_eq_none (not_lt.1 h)]
    cases hx : [f][other - s.files.length]? with
    | none => rfl
    | some g =>
      obtain rfl : g = f := by simpa using List.mem_of_getElem? hx
      simp [hf]

theorem mem_importsOf_addImport {i j : Import} {other : FileId} (h : file < s.files.length) :
    j ∈ (s.addImport file i).importsOf other ↔ j ∈ s.importsOf other ∨ (other = file ∧ j = i) := by
  simp only [importsOf, addImport, modifyFile, List.getElem?_modify]
  by_cases ho : file = other
  · subst ho
    simp only [List.getElem?_eq_getElem h, Option.map_eq_map, Option.map_some, Option.getD_some, if_true,
      true_and]
    by_cases hc : (s.files[file]).imports.contains i
    · simp only [hc, if_true]
      constructor
      · exact .inl
      · rintro (hj | rfl)
        · exact hj
        · simpa using hc
    · simp only [hc]
      simp
  · simp [ho, Ne.symm ho]

@[simp] theorem length_files_addImport (i : Import) : (s.addImport file i).files.length = s.files.length :=
  length_files_modifyFile s file _

end Files

/-! ## Steps on declarations -/

section Decls
variable (s : Schema) (id other : DeclId)

theorem decls_modifyDecl (f : Declaration → Declaration) :
    (s.modifyDecl id f).decls[other]? = if other = id then s.decls[other]?.map f else s.decls[other]? := by
  simp only [modifyDecl, List.getElem?_modify, eq_comm (a := id)]
  split <;> simp

@[simp] theorem size_modifyDecl (f : Declaration → Declaration) : (s.modifyDecl id f).size = s.size := by
  simp [size, modifyDecl]

theorem outlineOf?_modifyDecl (f : Declaration → Declaration) (g : Outline → Outline)
    (hg : ∀ d, (f d).outline = g d.outline) :
    (s.modifyDecl id f).outlineOf? other =
      if other = id then (s.outlineOf? other).map g else s.outlineOf? other := by
  simp only [outlineOf?, decls_modifyDecl]
  split
  · cases s.decls[other]? <;> simp [hg]
  · rfl

theorem nestedIn_modifyDecl_same (f : Declaration → Declaration) (hf : ∀ d, (f d).nested = d.nested) :
    (s.modifyDecl id f).nestedIn other = s.nestedIn other := by
  simp only [nestedIn, decls_modifyDecl]
  split
  · cases s.decls[other]? <;> simp [hf]
  · rfl

@[simp] theorem files_modifyDecl (f : Declaration → Declaration) : (s.modifyDecl id f).files = s.files := rfl

theorem importsOf_modifyDecl (f : Declaration → Declaration) (file : FileId) :
    (s.modifyDecl id f).importsOf file = s.importsOf file := rfl

theorem topsOf_modifyDecl (f : Declaration → Declaration) (file : FileId) :
    (s.modifyDecl id f).topsOf file = s.topsOf file := rfl

@[simp] theorem size_declare (name : String) (b : Bool) (body : Body) :
    (s.declare name b body).size = s.size + 1 := by
  simp [size, declare]

theorem outlineOf?_declare (name : String) (b : Bool) (body : Body) :
    (s.declare name b body).outlineOf? other =
      if other = s.size then some ⟨none, none, body.types, body.kind⟩ else s.outlineOf? other := by
  rcases Nat.lt_trichotomy other s.size with h | h | h
  · rw [if_neg h.ne, outlineOf?, outlineOf?, declare, List.getElem?_append_left h]
  · rw [if_pos h, outlineOf?, declare, h, size, List.getElem?_concat_length]
    rfl
  · rw [if_neg h.ne', outlineOf?_eq_none.2 h.le, outlineOf?_eq_none, size_declare]
    omega

theorem fileOf?_declare (name : String) (b : Bool) (body : Body) :
    (s.declare name b body).fileOf? other = s.fileOf? other := by
  rw [fileOf?_eq, fileOf?_eq, outlineOf?_declare]
  split
  · rename_i h
    rw [outlineOf?_eq_none.2 h.ge]
    rfl
  · rfl

theorem parentOf?_declare (name : String) (b : Bool) (body : Body) :
    (s.declare name b body).parentOf? other = s.parentOf? other := by
  rw [parentOf?_eq, parentOf?_eq, outlineOf?_declare]
  split
  · rename_i h
    rw [outlineOf?_eq_none.2 h.ge]
    rfl
  · rfl

theorem leavesOf_declare (name : String) (b : Bool) (k : Kind) :
    (s.declare name b k.emptyBody).leavesOf other = s.leavesOf other := by
  rw [leavesOf, leavesOf, outlineOf?_declare]
  split
  · rename_i h
    rw [outlineOf?_eq_none.2 h.ge]
    simp
  · rfl

theorem nested_emptyBody (name : String) (b : Bool) (k : Kind) :
    Declaration.nested { name, isDeprecated := b, body := k.emptyBody } = [] := by
  cases k <;> rfl

theorem nestedIn_declare (name : String) (b : Bool) (k : Kind) :
    (s.declare name b k.emptyBody).nestedIn other = s.nestedIn other := by
  simp only [nestedIn, declare, List.getElem?_append]
  split
  · rfl
  · rename_i h
    rw [List.getElem?_eq_none (not_lt.1 h)]
    cases hx : [({ name, isDeprecated := b, body := k.emptyBody } : Declaration)][other - s.decls.length]? with
    | none => rfl
    | some d =>
      obtain rfl := List.mem_singleton.1 (List.mem_of_getElem? hx)
      simp [nested_emptyBody]

end Decls

end ProtoRecovery.Schema
