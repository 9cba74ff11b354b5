import ProtoRecovery.Proofs.Recovery.Placement
import ProtoRecovery.Proofs.Recovery.Trace
import ProtoRecovery.Proofs.Schema.Edition
/-!
# Enums that are recovered

An enum is open while it is being read and closed, if at all, when it is finished. Later classes leave it alone, so
between requests every enum is closed just when it has no member zero, and files have their editions by that.
-/

namespace ProtoRecovery

/-- An enum that is closed just when no member is zero. -/
def Schema.Enum.Told (e : Schema.Enum) : Prop := e.isClosed = !e.members.any (·.number == 0)

namespace Recovery

open Schema (DeclId FileId FieldType Kind EnumMember Dated)

variable {ρ : Type} {c : Catalog ρ}

/-! ## Steps -/

section Steps
variable {S : Schema} {id x source target : DeclId} {t : ρ} {path : String}

theorem enumAt?_openFile : (openFile c t id S).enumAt? x = S.enumAt? x :=
  Schema.enumAt?_assignAll _

theorem dated_openFile (h : S.Dated) (hn : S.nestedIn id = []) (hl : S.Loose id) : (openFile c t id S).Dated := by
  rw [openFile_eq hn hl.lt]
  refine Schema.dated_assignAll ?_ ?_ ?_
  · exact (Schema.dated_addFile h rfl).congr (fun _ => rfl) (fun _ _ => rfl)
      fun _ => Schema.editionOf?_modifyFile fun _ => rfl
  · simp [Schema.addFile]
  · intro x hx
    obtain rfl := List.mem_singleton.1 hx
    exact ⟨hl.lt, .inl hl.file⟩

theorem dated_linkPath (h : S.Dated) : (linkPath source path S).Dated := by
  unfold linkPath
  split
  · exact Schema.dated_addImport h _
  · exact h

theorem dated_linkFiles (h : S.Dated) : (linkFiles source target S).Dated := by
  unfold linkFiles
  split
  · split
    · exact h
    · exact Schema.dated_addImport h _
  · exact h

theorem OnlyImports.enumAt? {S' : Schema} (h : OnlyImports S S') (x : DeclId) : S'.enumAt? x = S.enumAt? x := by
  unfold Schema.enumAt?
  rw [h.decls]

section FinishEnum
variable {e : Schema.Enum} {f : FileId} (members : List EnumMember)

theorem enumAt?_finishEnum :
    (finishEnum S id members).enumAt? x =
      if x = id then (S.enumAt? x).map fun _ => { members, isClosed := !members.any (·.number == 0) }
      else S.enumAt? x := by
  unfold Schema.enumAt?
  rw [decls_finishEnum, Schema.decls_modifyDecl]
  split
  · cases hd : S.decls[x]? with
    | none => rfl
    | some d =>
      simp only [Option.map_some, Option.bind_some]
      unfold withMembers Schema.Declaration.enum?
      cases hb : d.body <;> simp [hb]
  · rfl

theorem fileOf?_withMembers : (S.modifyDecl id (withMembers members)).fileOf? x = S.fileOf? x := by
  unfold Schema.fileOf?
  rw [Schema.decls_modifyDecl]
  split
  · cases S.decls[x]? with
    | none => rfl
    | some d =>
      simp only [Option.map_some, Option.bind_some]
      unfold withMembers
      split <;> rfl
  · rfl

theorem fileOf?_finishEnum : (finishEnum S id members).fileOf? x = S.fileOf? x := by
  have hdecls : (finishEnum S id members).fileOf? x = (S.modifyDecl id (withMembers members)).fileOf? x := by
    unfold Schema.fileOf?
    rw [decls_finishEnum]
  rw [hdecls, fileOf?_withMembers]

theorem editionOf?_finishEnum (hS : S.Linked) :
    (finishEnum S id members).editionOf? f =
      if (!members.any (·.number == 0)) = true ∧ S.fileOf? id = some f then
        (S.editionOf? f).or (some Schema.closedEnumEdition)
      else S.editionOf? f := by
  have hfile : (S.modifyDecl id (withMembers members)).fileOf? id = S.fileOf? id := fileOf?_withMembers members
  rw [finishEnum_eq, hfile]
  cases hc : !members.any (·.number == 0) with
  | false => simp [Schema.editionOf?]
  | true =>
    cases hid : S.fileOf? id with
    | none => simp [Schema.editionOf?]
    | some g =>
      dsimp only
      rw [Schema.editionOf?_requireEdition (by rw [Schema.files_modifyDecl]; exact hS.file_lt id g hid)]
      simp only [Schema.editionOf?, Schema.files_modifyDecl, true_and, Option.some.injEq, eq_comm (a := f)]

/-- An enum that was open may close; its file, if it has one, is given the edition for it. -/
theorem dated_finishEnum (h : S.Dated) (hS : S.Linked) (he : S.enumAt? id = some e) (hopen : e.isClosed = false) :
    (finishEnum S id members).Dated := by
  have hclosed : ∀ x, (finishEnum S id members).isClosedEnum x =
      if x = id then !members.any (·.number == 0) else S.isClosedEnum x := by
    intro x
    rw [Schema.isClosedEnum_eq, enumAt?_finishEnum]
    split
    · rename_i hx
      rw [hx, he]
      rfl
    · exact Schema.isClosedEnum_eq.symm
  have hold : S.isClosedEnum id = false := by
    rw [Schema.isClosedEnum_eq, he]
    exact hopen
  refine h.of_more (P := fun g => (!members.any (·.number == 0)) = true ∧ S.fileOf? id = some g) (fun g => ?_)
    (fun g hg => ?_) fun g hg => ?_
  · constructor
    · rintro ⟨x, hx, hxg⟩
      rw [hclosed] at hx
      rw [fileOf?_finishEnum] at hxg
      split at hx
      · rename_i hxid
        exact .inr ⟨hx, hxid ▸ hxg⟩
      · exact .inl ⟨x, hx, hxg⟩
    · rintro (⟨x, hx, hxg⟩ | ⟨hc, hg⟩)
      · have hne : x ≠ id := by
          rintro rfl
          rw [hold] at hx
          cases hx
        exact ⟨x, (hclosed x).trans ((if_neg hne).trans hx), (fileOf?_finishEnum members).trans hxg⟩
      · exact ⟨id, (hclosed id).trans ((if_pos rfl).trans hc), (fileOf?_finishEnum members).trans hg⟩
  · rw [editionOf?_finishEnum members hS, if_pos hg]
  · rw [editionOf?_finishEnum members hS, if_neg hg]

end FinishEnum

/-- A body that is filled in says whether its enum is closed, and is no matter to any other. -/
structure Closes (id : DeclId) (S S' : Schema) : Prop where
  kept : ∀ x, x ≠ id → S'.enumAt? x = S.enumAt? x
  told : ∀ e, S'.enumAt? id = some e → e.Told
  dated : S.Dated → S.Linked → S'.Dated

theorem closes_of_finish {k : Kind} {leaves : List FieldType} {S' : Schema} (h : Finish id k leaves S S')
    (hstart : S.enumAt? id = if k = .enum then some {} else none) : Closes id S S' := by
  -- Messages and services are not enums, before or after.
  have hother : ∀ u : Schema.Declaration → Schema.Declaration, (∀ d, (u d).enum? = d.enum?) →
      (∀ d, (u d).file = d.file) → S.enumAt? id = none → Closes id S (S.modifyDecl id u) := by
    intro u hu hfile hnone
    have hsame : ∀ x, (S.modifyDecl id u).enumAt? x = S.enumAt? x := fun x => Schema.enumAt?_modifyDecl_same hu
    refine ⟨fun x _ => hsame x, fun e he => ?_, fun hdated _ => ?_⟩
    · rw [hsame, hnone] at he
      cases he
    · refine hdated.congr (fun x => Schema.isClosedEnum_congr (hsame x)) (fun x _ => ?_) fun _ => rfl
      unfold Schema.fileOf?
      rw [Schema.decls_modifyDecl]
      split
      · cases S.decls[x]? with
        | none => rfl
        | some d => exact hfile d
      · rfl
  cases h with
  | message m _ =>
    refine hother _ (fun d => ?_) (fun d => ?_) hstart
    · cases hb : d.body <;> simp [Schema.Declaration.enum?, hb]
    · split <;> rfl
  | enum members =>
    refine ⟨fun x hx => ?_, fun e he => ?_, fun hdated hS => dated_finishEnum members hdated hS hstart rfl⟩
    · rw [enumAt?_finishEnum, if_neg hx]
    · rw [enumAt?_finishEnum, if_pos rfl, hstart] at he
      cases he
      rfl
  | service body _ =>
    refine hother _ (fun d => ?_) (fun d => ?_) hstart
    · cases hb : d.body <;> simp [Schema.Declaration.enum?, hb]
    · split <;> rfl

end Steps

/-! ## Derivations -/

/-- New enums are told, old ones stay as they are, and editions stay right. -/
structure Enrolled (L L' : Ledger) : Prop where
  size_le : L.schema.size ≤ L'.schema.size
  kept : ∀ x < L.schema.size, L'.schema.enumAt? x = L.schema.enumAt? x
  told : ∀ x, L.schema.size ≤ x → ∀ e, L'.schema.enumAt? x = some e → e.Told
  dated : L.schema.Dated → L'.schema.Dated

theorem enumAt?_of_size_le {S : Schema} {x : DeclId} (h : S.size ≤ x) : S.enumAt? x = none := by
  simp [Schema.enumAt?, List.getElem?_eq_none h]

theorem Enrolled.trans {L L₁ L₂ : Ledger} (h : Enrolled L L₁) (h' : Enrolled L₁ L₂) : Enrolled L L₂ where
  size_le := h.size_le.trans h'.size_le
  kept x hx := (h'.kept x (lt_of_lt_of_le hx h.size_le)).trans (h.kept x hx)
  told x hx e he := by
    rcases lt_or_ge x L₁.schema.size with hlt | hge
    · exact h.told x hx e ((h'.kept x hlt).symm.trans he)
    · exact h'.told x hge e he
  dated hL := h'.dated (h.dated hL)

/-- Steps that leave all enums alone. -/
theorem enrolled_of_same {L L' : Ledger} (hsize : L'.schema.size = L.schema.size)
    (hsame : ∀ x, L'.schema.enumAt? x = L.schema.enumAt? x) (hdated : L.schema.Dated → L'.schema.Dated) :
    Enrolled L L' where
  size_le := hsize.ge
  kept x _ := hsame x
  told x hx e he := by
    rw [hsame, enumAt?_of_size_le hx] at he
    cases he
  dated := hdated

/-- What a derivation does to enums. -/
def Enrols : Goal ρ → Ledger → Ledger → Prop
  | .recover .., L, L' => Sound L → Enrolled L L'
  | .place k _ id, L, L' => Sound L → Fresh L.schema k id → Enrolled L L'
  | .mention source _, L, L' => Sound L → source < L.schema.size → Enrolled L L'

theorem enrols_of_done {v : View c} {goal : Goal ρ} {L L' : Ledger} (h : Done v goal L L') : Enrols goal L L' := by
  induction h with
  | known _ _ => exact fun _ => enrolled_of_same rfl (fun _ => rfl) id
  | @made k t name isDeprecated leaves L L₁ L₂ S hfits hnew hplace hmention hfinish ihp ihm =>
    intro hL
    have hfresh : Fresh (L.declared (c.fullName t) name isDeprecated k).schema k L.schema.size := fresh_declared hL
    have hp : Placed _ _ _ _ := explained_of_done hplace (sound_declared hL) hfresh
    have hlt : L.schema.size < L₁.schema.size := lt_of_lt_of_le hfresh.loose.lt hp.grown.size_le
    have hm : Mentioned _ _ _ _ := explained_of_done hmention hp.grown.sound hlt
    -- From its declaration to its body nothing happens to the enum itself.
    have he := (ihp (sound_declared hL) hfresh).trans (ihm hp.grown.sound hlt)
    have hdeclared : ∀ x, (L.declared (c.fullName t) name isDeprecated k).schema.enumAt? x =
        if x = L.schema.size then (if k = .enum then some {} else none) else L.schema.enumAt? x :=
      fun x => Schema.enumAt?_declare ..
    have hstart : L₂.schema.enumAt? L.schema.size = if k = .enum then some {} else none :=
      (he.kept _ hfresh.loose.lt).trans ((hdeclared _).trans (if_pos rfl))
    have hclose := closes_of_finish hfinish hstart
    have hkind : kindOf? L₂.schema L.schema.size = some k := by
      rw [kindOf?, hm.grown.old _ hlt]
      exact hp.kind
    constructor
    · exact (recovered_made hp hm (filled_of_finish hfinish hkind)).grown.size_le
    · intro x hx
      rw [hclose.kept x hx.ne, he.kept x (hx.trans hfresh.loose.lt), hdeclared, if_neg hx.ne]
    · intro x hx e hxe
      by_cases hid : x = L.schema.size
      · subst hid
        exact hclose.told e hxe
      · rw [hclose.kept x hid] at hxe
        refine he.told x ?_ e hxe
        rw [hfresh.last]
        exact Nat.lt_of_le_of_ne hx (Ne.symm hid)
    · intro hdated
      exact hclose.dated (he.dated (Schema.dated_declare hdated ..)) hm.grown.sound.linked
  | @nested k t owner id p L L₁ hk how hd ih =>
    intro hL hf
    have hr : Recovered _ _ _ := explained_of_done hd hL
    refine (ih hL).trans (enrolled_of_same Schema.size_nest (fun x => Schema.enumAt?_nest) fun hdated => ?_)
    exact Schema.dated_nest hdated hr.grown.sound.linked (loose_of_recovered hf hr) hr.lt
  | filed _ =>
    intro hL hf
    exact enrolled_of_same (size_openFile hf.nested hf.loose.lt) (fun x => enumAt?_openFile)
      fun hdated => dated_openFile hdated hf.nested hf.loose
  | nothing => exact fun _ _ => enrolled_of_same rfl (fun _ => rfl) id
  | scalar => exact fun _ _ => enrolled_of_same rfl (fun _ => rfl) id
  | wellKnown =>
    exact fun _ _ => enrolled_of_same onlyImports_linkPath.size onlyImports_linkPath.enumAt? dated_linkPath
  | reference _ ih =>
    intro hL _
    exact (ih hL).trans
      (enrolled_of_same onlyImports_linkFiles.size onlyImports_linkFiles.enumAt? dated_linkFiles)
  | append hfirst _ ih₁ ih₂ =>
    intro hL hs
    have hm : Mentioned _ _ _ _ := explained_of_done hfirst hL hs
    exact (ih₁ hL hs).trans (ih₂ hm.grown.sound (lt_of_lt_of_le hs hm.grown.size_le))

theorem enrolled_of_built {v : View c} {L : Ledger} (h : Built v L) : Enrolled {} L := by
  induction h with
  | nothing => exact enrolled_of_same rfl (fun _ => rfl) id
  | more hb hd ih => exact ih.trans ((enrols_of_done hd : Sound _ → Enrolled _ _) (grown_of_built hb).sound)

theorem dated_nothing : Dated {} where
  edition f := by
    rintro ⟨x, hx, -⟩
    simp [Schema.isClosedEnum] at hx
  plain _ _ := rfl

/-- Between requests every file has its edition by the closed enums in it. -/
theorem dated_of_built {v : View c} {L : Ledger} (h : Built v L) : L.schema.Dated :=
  (enrolled_of_built h).dated dated_nothing

theorem told_of_built {v : View c} {L : Ledger} (h : Built v L) {x : DeclId} {e : Schema.Enum}
    (he : L.schema.enumAt? x = some e) : e.Told :=
  (enrolled_of_built h).told x (Nat.zero_le _) e he

end Recovery

end ProtoRecovery
