import ProtoRecovery.Proofs.Schema.Indentation
/-!
# All files as one

The text of a file is its preamble and its declarations, and the text of all files is one merged preamble and the same
declarations. `MergedFrom` says what the merged preamble takes from the files.
-/

namespace ProtoRecovery.Schema

/-! ## First occurrences -/

/-- The elements whose marks are among the entries, each of them once, in the order in which the marks occur first. -/
structure Firsts {α β : Type} [DecidableEq β] (mark : α → β) (entries : List β) (xs : List α) : Prop where
  mem : ∀ x, x ∈ xs ↔ mark x ∈ entries
  order : xs.Pairwise fun a b => entries.idxOf (mark a) < entries.idxOf (mark b)

namespace Firsts

variable {α β : Type} [DecidableEq β] {mark : α → β} {entries : List β} {xs : List α}

theorem order_append (h : Firsts mark entries xs) (more : List β) :
    xs.Pairwise fun a b => (entries ++ more).idxOf (mark a) < (entries ++ more).idxOf (mark b) := by
  refine h.order.imp_of_mem fun {a b} ha hb hab => ?_
  rwa [List.idxOf_append_of_mem ((h.mem a).1 ha), List.idxOf_append_of_mem ((h.mem b).1 hb)]

/-- An entry that is no mark, or one that was there, changes nothing. -/
theorem append_old (h : Firsts mark entries xs) {entry : β} (hold : ∀ x, mark x = entry → x ∈ xs) :
    Firsts mark (entries ++ [entry]) xs where
  mem x := by
    rw [List.mem_append, List.mem_singleton, ← h.mem]
    exact ⟨.inl, fun hx => hx.elim id (hold x)⟩
  order := h.order_append [entry]

/-- A mark that was not there comes last. -/
theorem append_new (h : Firsts mark entries xs) (hmark : Function.Injective mark) {x : α} (hx : x ∉ xs) :
    Firsts mark (entries ++ [mark x]) (xs ++ [x]) where
  mem y := by
    rw [List.mem_append, List.mem_append, List.mem_singleton, List.mem_singleton, ← h.mem, hmark.eq_iff]
  order := by
    have hnew : mark x ∉ entries := fun hmem => hx ((h.mem x).2 hmem)
    refine List.pairwise_append.2 ⟨h.order_append [mark x], List.pairwise_singleton _ _, fun a ha b hb => ?_⟩
    obtain rfl := List.mem_singleton.1 hb
    have ha := (h.mem a).1 ha
    rw [List.idxOf_append_of_mem ha, List.idxOf_append_of_notMem hnew]
    exact Nat.lt_add_right _ (List.idxOf_lt_length_of_mem ha)

end Firsts

theorem firsts_eraseDups {α β : Type} [BEq α] [LawfulBEq α] [DecidableEq β] (mark : α → β)
    (unmark : β → Option α) (hmark : ∀ x entry, unmark entry = some x ↔ mark x = entry) (entries : List β) :
    Firsts mark entries (entries.filterMap unmark).eraseDups := by
  have hinjective : Function.Injective mark := fun a b hab =>
    Option.some.inj (((hmark a _).2 hab).symm.trans ((hmark b _).2 rfl))
  induction entries using List.reverseRecOn with
  | nil => exact ⟨by simp, List.Pairwise.nil⟩
  | append_singleton entries entry ih =>
    rw [List.filterMap_append]
    cases hentry : unmark entry with
    | none =>
      have hnone : [entry].filterMap unmark = [] := by simp [hentry]
      rw [hnone, List.append_nil]
      refine ih.append_old fun x hx => ?_
      rw [(hmark x entry).2 hx] at hentry
      cases hentry
    | some x =>
      have hone : [entry].filterMap unmark = [x] := by simp [hentry]
      obtain rfl := (hmark x entry).1 hentry
      rw [hone, List.eraseDups_append]
      by_cases hx : x ∈ entries.filterMap unmark
      · have hold : [x].removeAll (entries.filterMap unmark) = [] := by simp [List.removeAll, hx]
        rw [hold, List.eraseDups_nil, List.append_nil]
        exact ih.append_old fun y hy => hinjective hy ▸ List.mem_eraseDups.2 hx
      · have hnew : [x].removeAll (entries.filterMap unmark) = [x] := by simp [List.removeAll, hx]
        rw [hnew, List.eraseDups_cons, List.filter_nil, List.eraseDups_nil]
        exact ih.append_new hinjective fun hmem => hx (List.mem_eraseDups.1 hmem)

/-! ## The merged preamble -/

/-- What one preamble for all files says. -/
structure MergedFrom (files : List File) (p : Preamble) : Prop where
  /-- Each assembly once. -/
  assemblies : Firsts some (files.map (·.assembly)) p.assemblies
  /-- Each well-known file that is imported once, and no other. -/
  imports : Firsts Import.wellKnown (files.flatMap (·.imports)) p.imports
  /-- The edition of the first file that has one. -/
  edition : ∀ e, p.edition = some e ↔ ∃ before file after, files = before ++ file :: after ∧
    file.edition = some e ∧ ∀ f ∈ before, f.edition = none
  /-- The namespace that all files share. -/
  namespaceName : ∀ n, p.namespaceName = some n ↔ files ≠ [] ∧ ∀ f ∈ files, f.namespaceName = some n

theorem firsts_eraseDups_id {α : Type} [BEq α] [LawfulBEq α] [DecidableEq α] (xs : List α) :
    Firsts id xs xs.eraseDups := by
  have h := firsts_eraseDups id some (fun x entry => by simp [eq_comm]) xs
  rwa [List.filterMap_some] at h

/-- One namespace is left just when all files have the same. -/
theorem merged_namespaceName (files : List File) (n : String) :
    (Preamble.merged files).namespaceName = some n ↔ files ≠ [] ∧ ∀ f ∈ files, f.namespaceName = some n := by
  have horder := (firsts_eraseDups_id (files.map (·.namespaceName))).order
  have hall : (∀ f ∈ files, f.namespaceName = some n) ↔
      ∀ name ∈ (files.map (·.namespaceName)).eraseDups, name = some n := by
    simp
  have hempty : files = [] ↔ (files.map (·.namespaceName)).eraseDups = [] := by
    simp [List.eq_nil_iff_forall_not_mem]
  rw [hall, ne_eq, hempty]
  unfold Preamble.merged
  dsimp only
  split
  · next single hsingle => simp [hsingle]
  · next hmany =>
    refine ⟨nofun, fun ⟨hne, hsame⟩ => ?_⟩
    match hnames : (files.map (·.namespaceName)).eraseDups with
    | [] => exact absurd hnames hne
    | [single] => exact absurd hnames (hmany single)
    | a :: b :: rest =>
      -- The first two would be the same name, and no name is there twice.
      rw [hnames] at horder hsame
      have hab : a = b := (hsame a (by simp)).trans (hsame b (by simp)).symm
      simp [hab] at horder

theorem mergedFrom_merged (files : List File) : MergedFrom files (Preamble.merged files) where
  assemblies := by
    have h := firsts_eraseDups some id (fun _ _ => eq_comm) (files.map (·.assembly))
    rwa [List.filterMap_map] at h
  imports := by
    refine firsts_eraseDups Import.wellKnown Preamble.wellKnownPath? (fun path entry => ?_) (files.flatMap (·.imports))
    cases entry <;> simp [Preamble.wellKnownPath?, eq_comm]
  edition e := List.findSome?_eq_some_iff
  namespaceName := merged_namespaceName files

/-! ## Texts -/

theorem textOf_append (a b : List String) : textOf (a ++ b) = textOf a ++ textOf b := by
  simp [textOf]

theorem textOf_flatMap {α : Type} (xs : List α) (lines : α → List String) :
    textOf (xs.flatMap lines) = String.join (xs.map fun x => textOf (lines x)) := by
  induction xs with
  | nil => rfl
  | cons x xs ih => simp [textOf_append, ih]

/-- Each file has a text of its declarations that stands behind its own preamble in the text of the file, and behind one
merged preamble, with those of the other files, in the text of all of them. Where nesting ends, it is what a pen draws
that starts at the outermost level, after whatever was written before; the pen is back there in the end. -/
theorem combined_text_agrees (s : Schema) (layout : Layout) :
    ∃ body : File → String,
      (∀ file ∈ s.files, s.fileText layout file = textOf ((Preamble.ofFile s file).lines layout) ++ body file) ∧
      s.combinedText layout = textOf ((Preamble.merged s.files).lines layout) ++ String.join (s.files.map body) ∧
      MergedFrom s.files (Preamble.merged s.files) ∧
      (s.Grounded → ∀ file ∈ s.files, ∀ before p,
        s.DrawsApart layout file.tops ⟨0, before⟩ p ↔ p = ⟨0, before ++ body file⟩) := by
  refine ⟨fun file => textOf (s.bodyLines layout file), fun file _ => ?_, ?_, mergedFrom_merged s.files,
    fun h file hfile before p => ?_⟩
  · rw [fileText, textOf_append]
  · rw [combinedText, textOf_append, textOf_flatMap]
  · exact h.drawsApart_iff (h.tops_lt file hfile)

section Sample

/-- Two files of one assembly and one namespace: a message with a choice, an enum and a message inside, and a service
with a deprecated method. -/
def library : Schema where
  files := [
    { assembly := some "App", namespaceName := some "App", tops := [2],
      imports := [.file 1, .wellKnown "google/protobuf/timestamp.proto"] },
    { edition := some "2023", assembly := some "App", namespaceName := some "App", tops := [3],
      imports := [.wellKnown "google/protobuf/timestamp.proto", .file 0] }]
  decls := [
    { name := "Kind", isDeprecated := false, parent := some 2, file := some 0,
      body := .enum { members := [⟨"KIND_NONE", 0, false⟩] } },
    { name := "Page", isDeprecated := true, parent := some 2, file := some 0, body := .message {} },
    { name := "Book", isDeprecated := false, file := some 0,
      body := .message
        { fields := [⟨"page", 1, .reference 1, false, false⟩, ⟨"kind", 2, .reference 0, false, false⟩]
          choices := [⟨"part", [1]⟩]
          nested := [0, 1] } },
    { name := "Desk", isDeprecated := false, file := some 1,
      body := .service { methods := [⟨"Lend", .reference 2, .reference 2, false, true, true⟩] } }]

theorem grounded_library : library.Grounded := by
  have hall : ∀ p < library.size, ∀ c ∈ library.nestedIn p, c < p := by decide +kernel
  have hlt : ∀ c p, library.NestedIn c p → c < p := fun c p h => hall p h.lister_lt c h
  refine ⟨Subrelation.wf (hlt _ _) wellFounded_lt, fun c p h => ?_, by decide +kernel⟩
  exact (hlt c p h).trans h.lister_lt

/-- The declarations of the second file, drawn alone and behind those of the first. -/
theorem combined_text_agrees_library :
    library.Grounded ∧
      Preamble.merged library.files =
        { assemblies := ["App"], edition := some "2023", imports := ["google/protobuf/timestamp.proto"],
          namespaceName := some "App" } ∧
      ∃ first second : String,
        library.combinedText {} = textOf ((Preamble.merged library.files).lines {}) ++ (first ++ second) ∧
        library.DrawsApart {} [2] ⟨0, ""⟩ ⟨0, first⟩ ∧ library.DrawsApart {} [3] ⟨0, first⟩ ⟨0, first ++ second⟩ := by
  obtain ⟨body, -, hcombined, -, hdraws⟩ := combined_text_agrees library {}
  have hdrawn := hdraws grounded_library
  have hfirst : library.DrawsApart {} [2] ⟨0, ""⟩ ⟨0, "" ++ body library.files[0]⟩ :=
    (hdrawn library.files[0] (by simp [library]) "" _).2 rfl
  rw [String.empty_append] at hfirst
  refine ⟨grounded_library, by decide +kernel, body library.files[0], body library.files[1], ?_, hfirst, ?_⟩
  · simpa [library] using hcombined
  · exact (hdrawn library.files[1] (by simp [library]) _ _).2 rfl

end Sample

end ProtoRecovery.Schema
