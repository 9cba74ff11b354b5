import ProtoRecovery.Proofs.Schema.Edition
import ProtoRecovery.Schema.Text
/-!
# Closed enums in texts

A text without an edition is written in proto3, where enums cannot be closed. Such a text is the same as if no enum of
the schema were closed.
-/

namespace ProtoRecovery.Schema

/-! ## A schema without closed enums -/

/-- The same body, but an enum is open. -/
def Body.opened : Body → Body
  | .enum e => .enum { e with isClosed := false }
  | b => b

/-- The same declaration, but an enum is open. -/
def Declaration.opened (d : Declaration) : Declaration := { d with body := d.body.opened }

/-- The same schema, but all enums are open. -/
def opened (s : Schema) : Schema := { s with decls := s.decls.map Declaration.opened }

variable {s : Schema} {layout : Layout}

theorem getElem?_opened (id : DeclId) : s.opened.decls[id]? = s.decls[id]?.map Declaration.opened :=
  List.getElem?_map ..

@[simp] theorem size_opened : s.opened.size = s.size := List.length_map ..

@[simp] theorem nameOf_opened (id : DeclId) : s.opened.nameOf id = s.nameOf id := by
  unfold nameOf
  rw [getElem?_opened, Option.map_map]
  rfl

@[simp] theorem parentOf?_opened (id : DeclId) : s.opened.parentOf? id = s.parentOf? id := by
  unfold parentOf?
  rw [getElem?_opened]
  cases s.decls[id]? <;> rfl

/-! ## Names -/

theorem outward_opened (stop : DeclId → Bool) (depth : Nat) (o : Option DeclId) :
    s.opened.outward stop depth o = s.outward stop depth o := by
  induction depth generalizing o with
  | zero => simp [outward]
  | succ depth ih =>
    cases o with
    | none => simp [outward]
    | some id => simp [outward, ih]

theorem typeText_opened (source : DeclId) (type : FieldType) :
    s.opened.typeText source type = s.typeText source type := by
  induction type with
  | scalar | wellKnown => rfl
  | repeated element ih => rw [typeText, typeText, ih]
  | map key value ihk ihv => rw [typeText, typeText, ihk, ihv]
  | reference target => simp [typeText, qualify, outward_opened]

theorem fieldLine_opened (owner : DeclId) (inChoice : Bool) :
    s.opened.fieldLine owner inChoice = s.fieldLine owner inChoice := by
  funext f
  simp [fieldLine, typeText_opened]

theorem choiceLines_opened (owner : DeclId) (m : Message) :
    s.opened.choiceLines layout owner m = s.choiceLines layout owner m := by
  funext c
  simp [choiceLines, fieldLine_opened]

theorem methodLines_opened (owner : DeclId) : s.opened.methodLines layout owner = s.methodLines layout owner := by
  funext m
  simp [methodLines, messageText, typeText_opened]

theorem importPath_opened : s.opened.importPath = s.importPath := by
  funext i
  have hname : s.opened.nameOf = s.nameOf := funext nameOf_opened
  cases i with
  | wellKnown => rfl
  | file id =>
    unfold importPath fileName
    rw [hname]
    rfl

/-! ## Declarations and texts -/

/-- Where no enum on the way is closed, closing enums would be no matter. -/
theorem declLines_opened {depth : Nat} {id : DeclId} (h : ∀ x ∈ s.descend depth id, s.isClosedEnum x = false) :
    s.opened.declLines layout depth id = s.declLines layout depth id := by
  induction depth generalizing id with
  | zero => rfl
  | succ depth ih =>
    have hself := h id (by simp [descend])
    have hnested : ∀ c ∈ s.nestedIn id, s.opened.declLines layout depth c = s.declLines layout depth c :=
      fun c hc => ih fun x hx => h x (by simp only [descend, List.mem_cons, List.mem_flatMap]; exact .inr ⟨c, hc, hx⟩)
    unfold declLines
    rw [getElem?_opened]
    cases hd : s.decls[id]? with
    | none => rfl
    | some d =>
      obtain ⟨name, isDeprecated, file, parent, body⟩ := d
      cases body with
      | message m =>
        have hm : s.nestedIn id = m.nested := by simp [nestedIn, hd, Declaration.nested, Declaration.message?]
        have hflat : m.nested.flatMap (s.opened.declLines layout depth) = m.nested.flatMap (s.declLines layout depth) :=
          List.flatMap_congr fun c hc => hnested c (hm ▸ hc)
        simp only [Option.map_some, Declaration.opened, Body.opened, fieldLine_opened, choiceLines_opened, hflat]
      | enum e =>
        obtain ⟨members, isClosed⟩ := e
        obtain rfl : isClosed = false := by
          simpa [isClosedEnum, hd, Declaration.isClosedEnum, Declaration.enum?] using hself
        rfl
      | service service =>
        simp only [Option.map_some, Declaration.opened, Body.opened, serviceLines, methodLines_opened]

theorem bodyLines_opened {file : File} (h : ∀ r ∈ file.tops, ∀ x ∈ s.descendants r, s.isClosedEnum x = false) :
    s.opened.bodyLines layout file = s.bodyLines layout file := by
  refine List.flatMap_congr fun r hr => ?_
  rw [size_opened, declLines_opened (h r hr)]

/-! ## Preambles -/

/-- The line by which a text is in proto3. -/
def proto3Line : String := "syntax = \"proto3\";"

/-- The line by which a text has an edition. -/
def editionLine (edition : String) : String := "edition = " ++ literal edition ++ ";"

/-- The line that says in what a text is written. -/
def Preamble.versionLine (p : Preamble) : String :=
  match p.edition with
  | some edition => editionLine edition
  | none => proto3Line

theorem head?_editionLine (edition : String) : (editionLine edition).toList.head? = some 'e' := by
  simp [editionLine, String.toList_append]

theorem head?_proto3Line : proto3Line.toList.head? = some 's' := by decide

theorem versionLine_mem (layout : Layout) (p : Preamble) : p.versionLine ∈ p.lines layout := by
  unfold Preamble.lines Preamble.versionLine
  cases p.edition <;> simp [editionLine, proto3Line]

/-- No other line of a preamble looks like that one. -/
theorem eq_versionLine {p : Preamble} {line : String} (h : line ∈ p.lines layout)
    (hhead : line.toList.head? = some 'e' ∨ line.toList.head? = some 's') : line = p.versionLine := by
  have hcases : line = p.versionLine ∨ line = "" ∨ (∃ rest, line = "//" ++ rest) ∨ (∃ rest, line = "import " ++ rest) ∨
      ∃ rest, line = "option " ++ rest := by
    unfold Preamble.lines at h
    simp only [List.mem_append, List.mem_cons, List.not_mem_nil, or_false] at h
    rcases h with (((rfl | h) | rfl | h) | h) | h
    · exact .inr (.inr (.inl ⟨" Decompiled with " ++ layout.generator, by rw [← String.append_assoc]; rfl⟩))
    · obtain ⟨name, -, rfl⟩ := List.mem_map.1 h
      exact .inr (.inr (.inl ⟨" Assembly: " ++ name, by rw [← String.append_assoc]; rfl⟩))
    · exact .inr (.inl rfl)
    · left
      rw [h]
      unfold Preamble.versionLine
      cases p.edition <;> rfl
    · split at h
      · simp at h
      · rcases List.mem_cons.1 h with rfl | h
        · exact .inr (.inl rfl)
        · obtain ⟨path, -, rfl⟩ := List.mem_map.1 h
          exact .inr (.inr (.inr (.inl ⟨literal path ++ ";", by rw [String.append_assoc]⟩)))
    · split at h
      · simp only [List.mem_cons, List.not_mem_nil, or_false] at h
        rcases h with rfl | rfl
        · exact .inr (.inl rfl)
        · rename_i name _
          refine .inr (.inr (.inr (.inr ⟨"csharp_namespace" ++ (" = " ++ (literal name ++ ";")), ?_⟩)))
          simp only [optionLine, String.append_assoc]
      · simp at h
  rcases hcases with h | rfl | ⟨rest, rfl⟩ | ⟨rest, rfl⟩ | ⟨rest, rfl⟩
  · exact h
  all_goals simp [String.toList_append] at hhead

theorem editionLine_mem_iff {p : Preamble} :
    (∃ edition, editionLine edition ∈ p.lines layout) ↔ ∃ edition, p.edition = some edition := by
  constructor
  · rintro ⟨edition, h⟩
    have heq := eq_versionLine h (.inl (head?_editionLine edition))
    cases hp : p.edition with
    | some e => exact ⟨e, rfl⟩
    | none =>
      have hhead := head?_editionLine edition
      rw [heq, Preamble.versionLine, hp, head?_proto3Line] at hhead
      cases hhead
  · rintro ⟨edition, hp⟩
    have hmem := versionLine_mem layout p
    rw [Preamble.versionLine, hp] at hmem
    exact ⟨edition, hmem⟩

theorem proto3Line_mem_iff {p : Preamble} : proto3Line ∈ p.lines layout ↔ p.edition = none := by
  constructor
  · intro h
    have heq := eq_versionLine h (.inr head?_proto3Line)
    cases hp : p.edition with
    | none => rfl
    | some e =>
      have hhead := head?_proto3Line
      rw [heq, Preamble.versionLine, hp, head?_editionLine] at hhead
      cases hhead
  · intro hp
    have hmem := versionLine_mem layout p
    rwa [Preamble.versionLine, hp] at hmem

/-! ## All at once -/

/-- Enums are closed just when no member is zero, and every text has an edition just when a closed enum is in it; so what
is written in proto3 is written as if no enum were closed. -/
structure EditionsAgree (s : Schema) : Prop where
  closed : ∀ d ∈ s.decls, ∀ e, d.enum? = some e → (e.isClosed = true ↔ ∀ m ∈ e.members, m.number ≠ 0)
  edition : ∀ f file, s.files[f]? = some file →
    (file.edition = some "2023" ↔ ∃ id, s.isClosedEnum id = true ∧ s.fileOf? id = some f)
  plain : ∀ f file, s.files[f]? = some file →
    (file.edition = none ↔ ¬∃ id, s.isClosedEnum id = true ∧ s.fileOf? id = some f)
  combined_edition : ∀ layout, (∃ edition, editionLine edition ∈ (Preamble.merged s.files).lines layout) ↔
    ∃ id, s.isClosedEnum id = true
  combined_plain : ∀ layout, proto3Line ∈ (Preamble.merged s.files).lines layout ↔ ¬∃ id, s.isClosedEnum id = true
  file_text : ∀ layout, ∀ file ∈ s.files, proto3Line ∈ (Preamble.ofFile s file).lines layout →
    s.fileText layout file = s.opened.fileText layout file
  combined_text : ∀ layout, proto3Line ∈ (Preamble.merged s.files).lines layout →
    s.combinedText layout = s.opened.combinedText layout

section Agree
variable (hdated : s.Dated) (htold : ∀ x e, s.enumAt? x = some e → e.isClosed = !e.members.any (·.number == 0))
  (hfiled : ∀ x < s.size, ∃ f, s.fileOf? x = some f)
  (hbelow : ∀ f, ∀ r ∈ s.topsOf f, ∀ x ∈ s.descendants r, s.fileOf? x = some f)
include hdated

theorem edition_iff {f : FileId} {file : File} (hf : s.files[f]? = some file) :
    (file.edition = some closedEnumEdition ↔ s.HasClosed f) ∧ (file.edition = none ↔ ¬s.HasClosed f) := by
  have hedition : s.editionOf? f = file.edition := by rw [editionOf?, hf, Option.bind_some]
  by_cases hc : s.HasClosed f
  · have := hdated.edition f hc
    rw [hedition] at this
    simp [this, hc]
  · have := hdated.plain f hc
    rw [hedition] at this
    simp [this, hc]

include hfiled

theorem merged_edition_iff :
    (∃ edition, (Preamble.merged s.files).edition = some edition) ↔ ∃ id, s.isClosedEnum id = true := by
  constructor
  · rintro ⟨edition, he⟩
    obtain ⟨file, hfile, he⟩ := List.exists_of_findSome?_eq_some he
    obtain ⟨f, hf⟩ := List.mem_iff_getElem?.1 hfile
    by_contra hnone
    have hplain := (edition_iff hdated hf).2.2 fun ⟨id, hid, _⟩ => hnone ⟨id, hid⟩
    rw [hplain] at he
    cases he
  · rintro ⟨id, hid⟩
    obtain ⟨f, hf⟩ := hfiled id (lt_size_of_isClosedEnum hid)
    have hedition := hdated.edition f ⟨id, hid, hf⟩
    obtain ⟨file, hfile, he⟩ := Option.bind_eq_some_iff.1 hedition
    refine Option.isSome_iff_exists.1 (List.findSome?_isSome_iff.2 ⟨file, List.mem_of_getElem? hfile, ?_⟩)
    rw [he]
    rfl

omit hfiled
include hbelow

theorem bodyLines_of_plain {file : File} (hfile : file ∈ s.files) (he : file.edition = none) :
    s.opened.bodyLines layout file = s.bodyLines layout file := by
  obtain ⟨f, hf⟩ := List.mem_iff_getElem?.1 hfile
  refine bodyLines_opened fun r hr x hx => ?_
  cases hclosed : s.isClosedEnum x with
  | false => rfl
  | true =>
    have htop : r ∈ s.topsOf f := by
      rw [topsOf, hf]
      exact hr
    exact absurd ⟨x, hclosed, hbelow f r htop x hx⟩ ((edition_iff hdated hf).2.1 he)

include htold hfiled

theorem editionsAgree_of_dated : s.EditionsAgree where
  closed d hd e he := by
    obtain ⟨x, hx⟩ := List.mem_iff_getElem?.1 hd
    rw [htold x e (by rw [enumAt?, hx]; exact he)]
    simp
  edition _ _ hf := (edition_iff hdated hf).1
  plain _ _ hf := (edition_iff hdated hf).2
  combined_edition layout := editionLine_mem_iff.trans (merged_edition_iff hdated hfiled)
  combined_plain layout := by
    rw [proto3Line_mem_iff, ← merged_edition_iff hdated hfiled]
    cases (Preamble.merged s.files).edition <;> simp
  file_text layout file hfile hline := by
    have he : file.edition = none := proto3Line_mem_iff.1 hline
    have hpreamble : Preamble.ofFile s.opened file = Preamble.ofFile s file := by
      unfold Preamble.ofFile
      rw [importPath_opened]
    rw [fileText, fileText, hpreamble, bodyLines_of_plain hdated hbelow hfile he]
  combined_text layout hline := by
    have he : (Preamble.merged s.files).edition = none := proto3Line_mem_iff.1 hline
    have hnone : ∀ file ∈ s.files, file.edition = none := List.findSome?_eq_none_iff.1 he
    have hbody : s.files.flatMap (s.opened.bodyLines layout) = s.files.flatMap (s.bodyLines layout) :=
      List.flatMap_congr fun file hfile => bodyLines_of_plain hdated hbelow hfile (hnone file hfile)
    rw [combinedText, combinedText, ← hbody]
    rfl

end Agree

end ProtoRecovery.Schema
