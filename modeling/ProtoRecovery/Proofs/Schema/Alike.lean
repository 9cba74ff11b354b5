import ProtoRecovery.Proofs.Schema.Edition
import ProtoRecovery.Proofs.Schema.Forest
import ProtoRecovery.Proofs.Schema.Kept
/-!
# Schemas that differ in order

Two schemas may hold the same declarations in another order. `Alike σ` says so: `σ` gives the new position of each
declaration, and everything else is the same, apart from the order of what is nested and the imports.
-/

namespace ProtoRecovery.Schema

open Relation (ReflTransGen)

/-! ## Other positions -/

section Rename
variable (σ : DeclId → DeclId)

/-- A type with other positions for declarations. -/
def FieldType.rename : FieldType → FieldType
  | .repeated element => .repeated element.rename
  | .map key value => .map key.rename value.rename
  | .reference target => .reference (σ target)
  | .scalar k => .scalar k
  | .wellKnown w => .wellKnown w

/-- A field with other positions for declarations. -/
def Field.rename (f : Field) : Field := { f with type := f.type.rename σ }

/-- A message with other positions for declarations. -/
def Message.rename (m : Message) : Message :=
  { m with fields := m.fields.map (·.rename σ), nested := m.nested.map σ }

/-- A method with other positions for declarations. -/
def Method.rename (m : Method) : Method :=
  { m with request := m.request.rename σ, response := m.response.rename σ }

/-- A body with other positions for declarations. -/
def Body.rename : Body → Body
  | .message m => .message (m.rename σ)
  | .enum e => .enum e
  | .service s => .service ⟨s.methods.map (·.rename σ)⟩

/-- A face with other positions for declarations. -/
def Face.rename (f : Face) : Face := { f with body := f.body.rename σ }

end Rename

@[simp] theorem isCollection_rename {σ : DeclId → DeclId} (type : FieldType) :
    (type.rename σ).isCollection = type.isCollection := by
  cases type <;> rfl

/-! ## Other types -/

section Retype
variable {g : FieldType → FieldType}

/-- A field with another type. -/
def Field.retype (g : FieldType → FieldType) (f : Field) : Field := { f with type := g f.type }

/-- A message whose fields have other types. -/
def Message.retype (g : FieldType → FieldType) (m : Message) : Message := { m with fields := m.fields.map (·.retype g) }

@[simp] theorem number_retype (f : Field) : (f.retype g).number = f.number := rfl

theorem field?_retype (m : Message) (n : Int) : (m.retype g).field? n = (m.field? n).map (·.retype g) := by
  simp [Message.field?, Message.retype, List.find?_map, Function.comp_def]

theorem insertAscending_retype (f : Field) (fs : List Field) :
    Message.insertAscending (f.retype g) (fs.map (·.retype g)) =
      (Message.insertAscending f fs).map (·.retype g) := by
  induction fs with
  | nil => rfl
  | cons h rest ih =>
    simp only [List.map_cons, Message.insertAscending, number_retype, ih]
    split
    · rfl
    · split <;> rfl

theorem insert_retype (m : Message) (f : Field) : (m.retype g).insert (f.retype g) = (m.insert f).retype g := by
  simp [Message.insert, Message.retype, insertAscending_retype]

theorem insert_rename {σ : DeclId → DeclId} (m : Message) (f : Field) :
    (m.rename σ).insert (f.rename σ) = (m.insert f).rename σ := by
  have hfields : Message.insertAscending (f.rename σ) (m.fields.map (·.rename σ)) = _ := insertAscending_retype f m.fields
  simp only [Message.insert, Message.rename, hfields]
  rfl

end Retype

/-! ## The same up to order -/

/-- What is known of a file apart from what it holds and imports. -/
structure Head where
  assembly : Option String
  namespaceName : Option String
  edition : Option String
deriving DecidableEq

/-- The head of a file. -/
def File.head (f : File) : Head := ⟨f.assembly, f.namespaceName, f.edition⟩

/-- The head of the file that a declaration is in. -/
def headOf? (s : Schema) (id : DeclId) : Option Head := (s.fileOf? id).bind fun f => s.files[f]?.map (·.head)

/-- The same declarations in the same places, each at another position. -/
structure Alike (σ : DeclId → DeclId) (s s' : Schema) : Prop where
  bijective : Set.BijOn σ {i | i < s.size} {i | i < s'.size}
  face : ∀ i < s.size, s'.faceOf? (σ i) = (s.faceOf? i).map (·.rename σ)
  parent : ∀ i < s.size, s'.parentOf? (σ i) = (s.parentOf? i).map σ
  nested : ∀ i < s.size, (s'.nestedIn (σ i)).Perm ((s.nestedIn i).map σ)
  together : ∀ i < s.size, ∀ j < s.size, s'.fileOf? (σ i) = s'.fileOf? (σ j) ↔ s.fileOf? i = s.fileOf? j
  head : ∀ i < s.size, s'.headOf? (σ i) = s.headOf? i

section Forest
variable {s s' : Schema} {σ : DeclId → DeclId}

/-- No file holds more than one declaration directly. -/
def OneTop (s : Schema) : Prop := ∀ f d e, d ∈ s.topsOf f → e ∈ s.topsOf f → d = e

section Parents
variable (h : s.Forest) (h' : s'.Forest) (hσ : Set.BijOn σ {i | i < s.size} {i | i < s'.size})
  (hparent : ∀ i < s.size, s'.parentOf? (σ i) = (s.parentOf? i).map σ)
include hparent

theorem inside_rename {d r : DeclId} (hin : s.Inside d r) : s'.Inside (σ d) (σ r) := by
  induction hin using ReflTransGen.head_induction_on with
  | refl => exact .refl
  | @head x y hp _ ih =>
    have hx : x < s.size := lt_size_of_parentOf? hp
    refine .head ?_ ih
    rw [hparent x hx, hp]
    rfl

include h h' hσ

theorem nested_perm_of_parents {i : DeclId} (hi : i < s.size) : (s'.nestedIn (σ i)).Perm ((s.nestedIn i).map σ) := by
  have hlt : ∀ d ∈ s.nestedIn i, d < s.size := fun d hd => lt_size_of_parentOf? ((h.mem_nestedIn d i).1 hd)
  have hnodup : ((s.nestedIn i).map σ).Nodup := by
    refine (h.nodup_nestedIn i).map_on fun d hd e he hde => ?_
    exact hσ.injOn (hlt d hd) (hlt e he) hde
  refine (List.perm_ext_iff_of_nodup (h'.nodup_nestedIn _) hnodup).2 fun d => ?_
  rw [h'.mem_nestedIn, List.mem_map]
  constructor
  · intro hd
    obtain ⟨e, he, rfl⟩ := hσ.surjOn (lt_size_of_parentOf? hd)
    rw [hparent e he] at hd
    obtain ⟨p, hp, hpi⟩ := Option.map_eq_some_iff.1 hd
    obtain rfl := hσ.injOn (h.parent_lt hp) hi hpi
    exact ⟨e, (h.mem_nestedIn e p).2 hp, rfl⟩
  · rintro ⟨e, he, rfl⟩
    rw [hparent e (hlt e he), (h.mem_nestedIn e i).1 he]
    rfl

/-- Declarations share a file just when they are inside the same one at the top. -/
theorem together_of_parents (hone : s.OneTop) (hone' : s'.OneTop) {i j : DeclId} (hi : i < s.size) (hj : j < s.size) :
    s'.fileOf? (σ i) = s'.fileOf? (σ j) ↔ s.fileOf? i = s.fileOf? j := by
  obtain ⟨r, f, hr, hir, hroot, hf, hfile⟩ := h.exists_top i hi
  obtain ⟨q, g, hq, hjq, hroot', hg, hfile'⟩ := h.exists_top j hj
  have hmoved : ∀ {x y : DeclId}, s.Inside x y → s'.fileOf? (σ x) = s'.fileOf? (σ y) :=
    fun hxy => h'.file_of_inside (inside_rename hparent hxy)
  rw [hmoved hir, hmoved hjq]
  constructor
  · -- What is at the top stays there, so two of one file are the same.
    intro heq
    have htop : ∀ x < s.size, s.parentOf? x = none → ∃ k, σ x ∈ s'.topsOf k ∧ s'.fileOf? (σ x) = some k := by
      intro x hx hx'
      obtain ⟨k, hk⟩ := (h'.mem_topsOf (σ x) (hσ.mapsTo hx)).2 (by rw [hparent x hx, hx']; rfl)
      exact ⟨k, hk, h'.top_file _ _ hk⟩
    obtain ⟨k, hk, hrk⟩ := htop r hr hroot
    obtain ⟨l, hl, hql⟩ := htop q hq hroot'
    obtain rfl : k = l := by
      rw [hrk, hql] at heq
      exact Option.some.inj heq
    obtain rfl := hσ.injOn hr hq (hone' k _ _ hk hl)
    rw [h.file_of_inside hir, h.file_of_inside hjq]
  · intro heq
    rw [hfile, hfile'] at heq
    cases heq
    rw [hone f r q hf hg]

end Parents

/-! ## Heads -/

/-- A face of an enum that refuses other values. -/
def Face.isClosed (f : Face) : Bool :=
  match f.body with
  | .enum e => e.isClosed
  | _ => false

theorem isClosedEnum_eq_face (i : DeclId) : s.isClosedEnum i = ((s.faceOf? i).map (·.isClosed)).getD false := by
  unfold isClosedEnum faceOf?
  cases s.decls[i]? with
  | none => rfl
  | some d =>
    cases hb : d.body <;> simp [Declaration.isClosedEnum, Declaration.enum?, Declaration.face, Face.isClosed, Body.bare, hb]

theorem isClosed_rename (f : Face) : (f.rename σ).isClosed = f.isClosed := by
  obtain ⟨name, isDeprecated, body⟩ := f
  cases body <;> rfl

/-- Where the classes in the file of a declaration come from. -/
def placeOf? (s : Schema) (id : DeclId) : Option (Option String × Option String) :=
  (s.fileOf? id).bind fun f => s.files[f]?.map fun x => (x.assembly, x.namespaceName)

theorem headOf?_congr {i j : DeclId} {f f' : FileId} (hf : s.fileOf? i = some f) (hf' : s'.fileOf? j = some f')
    (hplace : s'.placeOf? j = s.placeOf? i) (hedition : s'.editionOf? f' = s.editionOf? f) :
    s'.headOf? j = s.headOf? i := by
  unfold headOf?
  unfold placeOf? at hplace
  unfold editionOf? at hedition
  rw [hf, hf', Option.bind_some, Option.bind_some] at hplace ⊢
  cases hfile : s.files[f]? with
  | none =>
    rw [hfile, Option.map_none, Option.map_eq_none_iff] at hplace
    rw [hplace]
  | some x =>
    rw [hfile] at hplace hedition
    obtain ⟨y, hy, hxy⟩ := Option.map_eq_some_iff.1 hplace
    rw [hy] at hedition ⊢
    obtain ⟨hassembly, hnamespace⟩ := Prod.mk.inj hxy
    have hedition : y.edition = x.edition := hedition
    simp only [Option.map_some, File.head, hassembly, hnamespace, hedition]

section Heads
variable (hσ : Set.BijOn σ {i | i < s.size} {i | i < s'.size})
  (hface : ∀ i < s.size, s'.faceOf? (σ i) = (s.faceOf? i).map (·.rename σ))
  (htogether : ∀ i < s.size, ∀ j < s.size, s'.fileOf? (σ i) = s'.fileOf? (σ j) ↔ s.fileOf? i = s.fileOf? j)
include hface

theorem isClosedEnum_rename {i : DeclId} (hi : i < s.size) : s'.isClosedEnum (σ i) = s.isClosedEnum i := by
  rw [isClosedEnum_eq_face, isClosedEnum_eq_face, hface i hi, Option.map_map]
  simp only [Function.comp_def, isClosed_rename]

include hσ htogether

/-- Closed enums are in the same files. -/
theorem hasClosed_rename {i : DeclId} {f f' : FileId} (hi : i < s.size) (hf : s.fileOf? i = some f)
    (hf' : s'.fileOf? (σ i) = some f') : s'.HasClosed f' ↔ s.HasClosed f := by
  have hlt : ∀ {t : Schema} {x : DeclId} {g : FileId}, t.fileOf? x = some g → x < t.size := by
    intro t x g hx
    unfold fileOf? at hx
    obtain ⟨d, hd, -⟩ := Option.bind_eq_some_iff.1 hx
    exact (List.getElem?_eq_some_iff.1 hd).1
  constructor
  · rintro ⟨x, hclosed, hx⟩
    obtain ⟨y, hy, rfl⟩ := hσ.surjOn (hlt hx)
    refine ⟨y, (isClosedEnum_rename hface hy).symm.trans hclosed, ?_⟩
    rw [(htogether y hy i hi).1 (hx.trans hf'.symm), hf]
  · rintro ⟨y, hclosed, hy⟩
    refine ⟨σ y, (isClosedEnum_rename hface (hlt hy)).trans hclosed, ?_⟩
    rw [(htogether y (hlt hy) i hi).2 (hy.trans hf.symm), hf']

end Heads

/-- Forests with the same faces and parents are alike, if their trees come from the same places. -/
theorem alike_of_forests (h : s.Forest) (h' : s'.Forest) (hσ : Set.BijOn σ {i | i < s.size} {i | i < s'.size})
    (hface : ∀ i < s.size, s'.faceOf? (σ i) = (s.faceOf? i).map (·.rename σ))
    (hparent : ∀ i < s.size, s'.parentOf? (σ i) = (s.parentOf? i).map σ) (hone : s.OneTop) (hone' : s'.OneTop)
    (hdated : s.Dated) (hdated' : s'.Dated)
    (hplace : ∀ i < s.size, s.parentOf? i = none → s'.placeOf? (σ i) = s.placeOf? i) : Alike σ s s' := by
  have htogether : ∀ i < s.size, ∀ j < s.size, s'.fileOf? (σ i) = s'.fileOf? (σ j) ↔ s.fileOf? i = s.fileOf? j :=
    fun i hi j hj => together_of_parents h h' hσ hparent hone hone' hi hj
  refine ⟨hσ, hface, hparent, fun i hi => nested_perm_of_parents h h' hσ hparent hi, htogether, fun i hi => ?_⟩
  obtain ⟨r, f, hr, hir, hroot, -, hfile⟩ := h.exists_top i hi
  obtain ⟨f', hf'⟩ := h'.filed (σ i) (hσ.mapsTo hi)
  -- The place of a file is that of its tree, and its edition goes by the closed enums in it.
  have hplaces : s'.placeOf? (σ i) = s.placeOf? i := by
    have hin : s'.Inside (σ i) (σ r) := inside_rename hparent hir
    unfold placeOf?
    rw [h'.file_of_inside hin, h.file_of_inside hir]
    exact hplace r hr hroot
  have hedition : s'.editionOf? f' = s.editionOf? f := by
    by_cases hclosed : s.HasClosed f
    · rw [hdated.edition f hclosed, hdated'.edition f' ((hasClosed_rename hσ hface htogether hi hfile hf').2 hclosed)]
    · rw [hdated.plain f hclosed, hdated'.plain f' fun hc => hclosed ((hasClosed_rename hσ hface htogether hi hfile hf').1 hc)]
  exact headOf?_congr hfile hf' hplaces hedition

end Forest

end ProtoRecovery.Schema
