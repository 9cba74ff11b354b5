import ProtoRecovery.Proofs.Recovery.Growth
import ProtoRecovery.Proofs.Recovery.Trace
import ProtoRecovery.Proofs.Schema.Alike
/-!
# What files are for

A file is opened for one class and named for the place of that class. Nothing else is ever put at the top of it, and
nothing changes its name, so between requests every file still holds the one declaration that it was opened for.
-/

namespace ProtoRecovery

namespace Schema

/-- What a file is for: where its classes come from, and what it holds directly. -/
structure FileLabel where
  assembly : Option String
  namespaceName : Option String
  tops : List DeclId

/-- The label of a file. -/
def File.label (f : File) : FileLabel := ⟨f.assembly, f.namespaceName, f.tops⟩

/-- The labels of all files, in order. -/
def labels (s : Schema) : List FileLabel := s.files.map (·.label)

section Labels
variable {s : Schema} {id parent child : DeclId} {file : FileId}

theorem labels_modifyFile {f : File → File} (h : ∀ x, (f x).label = x.label) :
    (s.modifyFile file f).labels = s.labels := by
  unfold labels modifyFile
  apply List.ext_getElem?
  intro i
  simp only [List.getElem?_map, List.getElem?_modify]
  split
  · cases s.files[i]? with
    | none => rfl
    | some x => exact congrArg some (h x)
  · cases s.files[i]? <;> rfl

theorem labels_assignAll {ids : List DeclId} : (s.assignAll file ids).labels = s.labels := by
  unfold assignAll
  induction ids generalizing s with
  | nil => rfl
  | cons x rest ih =>
    rw [List.foldl_cons, ih]
    unfold assignOne
    dsimp only
    split
    · exact labels_modifyFile fun _ => rfl
    · rfl

theorem labels_nest : (s.nest parent child).labels = s.labels := by
  unfold nest
  dsimp only
  split
  · exact labels_assignAll
  · rfl

theorem labels_addImport {i : Import} : (s.addImport file i).labels = s.labels := labels_modifyFile fun _ => rfl

theorem modify_concat_length {α : Type} (l : List α) (a : α) (f : α → α) :
    (l ++ [a]).modify l.length f = l ++ [f a] := by
  induction l with
  | nil => rfl
  | cons x rest ih => simp [ih]

/-- A new file holds what it was opened for. -/
theorem labels_attach_addFile {f : File} :
    ((s.addFile f).attach id s.files.length).labels = s.labels ++ [⟨f.assembly, f.namespaceName, f.tops ++ [id]⟩] := by
  refine labels_assignAll.trans ?_
  show ((s.files ++ [f]).modify s.files.length fun f => { f with tops := f.tops ++ [id] }).map (·.label) = _
  rw [modify_concat_length, List.map_append]
  rfl

end Labels

end Schema

namespace Recovery

open Schema (DeclId FileLabel)

variable {ρ : Type} {c : Catalog ρ} {v : View c} {L L' : Ledger}

section Steps
variable {S S' : Schema} {id source target : DeclId} {t : ρ}

theorem labels_openFile :
    (openFile c t id S).labels = S.labels ++ [⟨some (c.assembly t), c.namespaceName? t, [id]⟩] :=
  Schema.labels_attach_addFile

theorem labels_linkPath {path : String} : (linkPath source path S).labels = S.labels := by
  unfold linkPath
  split
  · exact Schema.labels_addImport
  · rfl

theorem labels_linkFiles : (linkFiles source target S).labels = S.labels := by
  unfold linkFiles
  split
  · split
    · rfl
    · exact Schema.labels_addImport
  · rfl

theorem labels_finish {k : Schema.Kind} {leaves : List Schema.FieldType} (h : Finish id k leaves S S') :
    S'.labels = S.labels := by
  cases h with
  | message => rfl
  | enum members =>
    unfold finishEnum
    dsimp only
    split
    · exact Schema.labels_modifyFile fun _ => rfl
    · rfl
  | service => rfl

end Steps

/-- Every file was opened for a class that is noted, and holds its declaration and no other. -/
def Shelved (v : View c) (L : Ledger) : Prop :=
  ∀ x ∈ L.schema.labels, ∃ d t, v.stands t ∧ L.memo.lookup (c.fullName t) = some d ∧
    x = ⟨some (c.assembly t), c.namespaceName? t, [d]⟩

theorem Shelved.of_labels (h : Shelved v L) (hlabels : L'.schema.labels = L.schema.labels) (hmemo : L.memo <+: L'.memo) :
    Shelved v L' := by
  intro x hx
  rw [hlabels] at hx
  obtain ⟨d, t, ht, hd, hx⟩ := h x hx
  exact ⟨d, t, ht, lookup_of_prefix hmemo hd, hx⟩

/-- What a derivation does to files. -/
def Shelves (v : View c) : Goal ρ → Ledger → Ledger → Prop
  | .place _ t id, L, L' => v.stands t → L.memo.lookup (c.fullName t) = some id → Shelved v L → Shelved v L'
  | _, L, L' => Shelved v L → Shelved v L'

theorem shelves_of_done {goal : Goal ρ} (h : Done v goal L L') : Shelves v goal L L' := by
  induction h with
  | known => exact id
  | @made k t name isDeprecated leaves L L₁ L₂ S hfits hnew _ _ hfinish ihp ihm =>
    intro hL
    have hfound : (L.declared (c.fullName t) name isDeprecated k).memo.lookup (c.fullName t) = some L.schema.size := by
      show (L.memo ++ [(c.fullName t, L.schema.size)]).lookup (c.fullName t) = _
      rw [List.lookup_append, hnew]
      simp
    have hplaced := ihp hfits.stands hfound (hL.of_labels rfl (List.prefix_append ..))
    exact (ihm hplaced).of_labels (labels_finish hfinish) List.prefix_rfl
  | nested _ _ _ ih => exact fun _ _ hL => (ih hL).of_labels Schema.labels_nest List.prefix_rfl
  | @filed k t id L _ =>
    intro ht hid hL x hx
    rw [show (L.changed (openFile c t id)).schema.labels = _ from labels_openFile] at hx
    rcases List.mem_append.1 hx with hx | hx
    · exact hL x hx
    · exact ⟨id, t, ht, hid, List.mem_singleton.1 hx⟩
  | nothing => exact id
  | scalar => exact id
  | wellKnown => exact fun hL => hL.of_labels labels_linkPath List.prefix_rfl
  | reference _ ih => exact fun hL => (ih hL).of_labels labels_linkFiles List.prefix_rfl
  | append _ _ ih₁ ih₂ => exact fun hL => ih₂ (ih₁ hL)

/-- Between requests every file holds the declaration that it was opened for. -/
theorem shelved_of_built (h : Built v L) : Shelved v L := by
  induction h with
  | nothing => exact fun x hx => by cases hx
  | more _ hd ih => exact (shelves_of_done hd : Shelved v _ → Shelved v _) ih

section Shelved
variable (h : Shelved v L) {f : Schema.FileId}
include h

/-- A file with something at its top has the place of the class of that. -/
theorem exists_class_of_top {d : DeclId} (hd : d ∈ L.schema.topsOf f) :
    ∃ file t, L.schema.files[f]? = some file ∧ v.stands t ∧ L.memo.lookup (c.fullName t) = some d ∧ file.tops = [d] ∧
      file.assembly = some (c.assembly t) ∧ file.namespaceName = c.namespaceName? t := by
  unfold Schema.topsOf at hd
  cases hf : L.schema.files[f]? with
  | none => simp [hf] at hd
  | some file =>
    have hd : d ∈ file.tops := by simpa [hf] using hd
    obtain ⟨e, t, ht, he, hlabel⟩ := h file.label (List.mem_map_of_mem (List.mem_of_getElem? hf))
    simp only [Schema.File.label, FileLabel.mk.injEq] at hlabel
    obtain ⟨hassembly, hnamespace, htops⟩ := hlabel
    rw [htops, List.mem_singleton] at hd
    subst hd
    exact ⟨file, t, rfl, ht, he, htops, hassembly, hnamespace⟩

theorem oneTop_of_shelved : L.schema.OneTop := by
  intro f d e hd he
  obtain ⟨file, t, hf, -, -, htops, -⟩ := exists_class_of_top h hd
  have he : e ∈ file.tops := by simpa [Schema.topsOf, hf] using he
  rw [htops, List.mem_singleton] at he
  exact he.symm

end Shelved

end Recovery

end ProtoRecovery
