import ProtoRecovery.Proofs.Schema.WrittenNames
/-!
# Preambles read back

A preamble is a title, the assemblies, the edition and then the imports and the namespace, each behind a blank line.
`Preamble.read?` takes lines in that order. A declaration starts with a blank line too, but the line after it says neither
an import nor a namespace; so whatever is declared behind a preamble, all of the preamble is read back and no line more.
-/

namespace ProtoRecovery.Schema

/-! ## Reading lines -/

/-- The text of a literal between two other texts, quotes included in these. -/
def framed? (before after line : String) : Option String := do
  let rest ← before.toList.isPrefixOf? line.toList
  let inside ← after.toList.isSuffixOf? rest
  literalValue? (String.ofList inside)

/-- The assembly that a line names. -/
def readAssembly? (line : String) : Option String := ("// Assembly: ".toList.isPrefixOf? line.toList).map String.ofList

/-- The edition that a line says, if it says one or that there is none. -/
def readEdition? (line : String) : Option (Option String) :=
  if line = "syntax = \"proto3\";" then some none else (framed? "edition = \"" "\";" line).map some

/-- The file that a line imports. -/
def readImport? : String → Option String := framed? "import \"" "\";"

/-- The namespace that a line sets. -/
def readNamespace? : String → Option String := framed? "option csharp_namespace = \"" "\";"

/-- The values of lines up to the first that has none, and the lines from that one on. -/
def rows (value? : String → Option String) : List String → List String × List String
  | [] => ([], [])
  | line :: rest =>
    match value? line with
    | none => ([], line :: rest)
    | some x => (x :: (rows value? rest).1, (rows value? rest).2)

/-- The same behind a blank line, which is left where no value is behind it. -/
def rowsBehindBlank (value? : String → Option String) (lines : List String) : List String × List String :=
  if lines.head? = some "" ∧ (rows value? lines.tail).1 ≠ [] then rows value? lines.tail else ([], lines)

/-- The preamble that lines start with, and the lines behind it. -/
def Preamble.read? (lines : List String) : Option (Preamble × List String) := do
  let (assemblies, lines) := rows readAssembly? lines.tail
  let edition ← lines.tail.head?.bind readEdition?
  let (imports, lines) := rowsBehindBlank readImport? lines.tail.tail
  let (names, lines) := rowsBehindBlank readNamespace? lines
  return (⟨assemblies, edition, imports, names.head?⟩, lines)

section Lines
variable {before after line : String} {value? : String → Option String} {lineOf : String → String} {rest : List String}

theorem framed?_literal (x : String) : framed? before after (before ++ escape x ++ after) = some x := by
  have hprefix : before.toList.isPrefixOf? (before ++ escape x ++ after).toList = some (escape x ++ after).toList := by
    simp
  have hsuffix : after.toList.isSuffixOf? (escape x ++ after).toList = some (escape x).toList := by simp
  rw [framed?, hprefix]
  show (after.toList.isSuffixOf? (escape x ++ after).toList).bind _ = _
  rw [hsuffix, Option.bind_some, String.ofList_toList, literalValue?_escape]

theorem framed?_eq_none (h : before.toList.head? ≠ line.toList.head?) (hbefore : before ≠ "") :
    framed? before after line = none := by
  have hnone : before.toList.isPrefixOf? line.toList = none := by
    rw [Option.eq_none_iff_forall_ne_some]
    intro tail htail
    rw [List.isPrefixOf?_eq_some_iff_append_eq] at htail
    refine h ?_
    rw [← htail, List.head?_append_of_ne_nil]
    simpa using hbefore
  rw [framed?, hnone]
  rfl

theorem rows_of_none (h : ∀ line ∈ rest.head?, value? line = none) : rows value? rest = ([], rest) := by
  cases rest with
  | nil => rfl
  | cons line rest => rw [rows, h line rfl]

theorem rows_map (hline : ∀ x, value? (lineOf x) = some x) (xs : List String)
    (h : ∀ line ∈ rest.head?, value? line = none) : rows value? (xs.map lineOf ++ rest) = (xs, rest) := by
  induction xs with
  | nil => exact rows_of_none h
  | cons x xs ih => rw [List.map_cons, List.cons_append, rows, hline, ih]

theorem rowsBehindBlank_of_none (h : ∀ line ∈ rest.tail.head?, value? line = none) :
    rowsBehindBlank value? rest = ([], rest) := by
  rw [rowsBehindBlank, rows_of_none h]
  simp

theorem rowsBehindBlank_map (hline : ∀ x, value? (lineOf x) = some x) {xs : List String} (hxs : xs ≠ [])
    (h : ∀ line ∈ rest.head?, value? line = none) :
    rowsBehindBlank value? ("" :: (xs.map lineOf ++ rest)) = (xs, rest) := by
  rw [rowsBehindBlank, List.tail_cons, rows_map hline xs h]
  simp [hxs]

end Lines

/-! ## The lines of a preamble -/

/-- The line that sets a namespace. -/
def namespaceLine (name : String) : String := optionLine "csharp_namespace" (literal name)

section Said
variable (x : String)

theorem readAssembly?_line : readAssembly? ("// Assembly: " ++ x) = some x := by simp [readAssembly?]

theorem readEdition?_line : readEdition? ("edition = " ++ literal x ++ ";") = some (some x) := by
  have hline : "edition = " ++ literal x ++ ";" = "edition = \"" ++ escape x ++ "\";" := by
    simp [literal, String.ext_iff]
  have hother : "edition = \"" ++ escape x ++ "\";" ≠ "syntax = \"proto3\";" := by simp [String.ext_iff]
  rw [hline, readEdition?, if_neg hother, framed?_literal, Option.map_some]

theorem readImport?_importLine : readImport? (importLine x) = some x := by
  have hline : importLine x = "import \"" ++ escape x ++ "\";" := by simp [importLine, literal, String.ext_iff]
  rw [hline, readImport?, framed?_literal]

theorem readNamespace?_namespaceLine : readNamespace? (namespaceLine x) = some x := by
  have hline : namespaceLine x = "option csharp_namespace = \"" ++ escape x ++ "\";" := by
    simp [namespaceLine, optionLine, literal, String.ext_iff]
  rw [hline, readNamespace?, framed?_literal]

end Said

namespace Preamble

variable (p : Preamble)

/-- The line that says which edition a file is in. -/
def editionLine : String :=
  match p.edition with
  | some edition => "edition = " ++ literal edition ++ ";"
  | none => "syntax = \"proto3\";"

/-- The imports, behind a blank line. -/
def importLines : List String := if p.imports.isEmpty then [] else "" :: p.imports.map importLine

/-- The namespace, behind a blank line. -/
def namespaceLines : List String :=
  match p.namespaceName with
  | some name => ["", namespaceLine name]
  | none => []

theorem lines_eq (layout : Layout) :
    p.lines layout = ("// Decompiled with " ++ layout.generator) ::
      (p.assemblies.map ("// Assembly: " ++ ·) ++ "" :: p.editionLine :: (p.importLines ++ p.namespaceLines)) := by
  unfold lines editionLine importLines namespaceLines
  simp only [List.append_assoc, List.cons_append, List.nil_append]
  rfl

theorem readEdition?_editionLine : readEdition? p.editionLine = some p.edition := by
  unfold editionLine
  cases p.edition with
  | none => rfl
  | some edition => exact readEdition?_line edition

end Preamble

/-! ## What comes behind -/

/-- Lines that cannot be taken for a preamble's: if there are any, the first is blank, and the next neither imports a file
nor sets a namespace. -/
def Behind (lines : List String) : Prop :=
  ∀ line ∈ lines.head?, line = "" ∧ ∀ next ∈ lines.tail.head?, readImport? next = none ∧ readNamespace? next = none

section Behind
variable {body : List String} (h : Behind body) (p : Preamble)
include h

theorem Behind.next {next : String} (hnext : next ∈ body.tail.head?) :
    readImport? next = none ∧ readNamespace? next = none := by
  cases body with
  | nil => cases hnext
  | cons line body => exact (h line rfl).2 next hnext

theorem rows_namespaceLines :
    rowsBehindBlank readNamespace? (p.namespaceLines ++ body) = (p.namespaceName.toList, body) := by
  unfold Preamble.namespaceLines
  cases p.namespaceName with
  | none => exact rowsBehindBlank_of_none fun next hnext => (h.next hnext).2
  | some name =>
    show rowsBehindBlank readNamespace? ("" :: ([name].map namespaceLine ++ body)) = ([name], body)
    refine rowsBehindBlank_map readNamespace?_namespaceLine (List.cons_ne_nil name []) fun line hline => ?_
    obtain ⟨rfl, -⟩ := h line hline
    rfl

theorem behind_imports : ∀ line ∈ (p.namespaceLines ++ body).head?, line = "" ∧
    ∀ next ∈ (p.namespaceLines ++ body).tail.head?, readImport? next = none := by
  unfold Preamble.namespaceLines
  cases p.namespaceName with
  | none => exact fun line hline => ⟨(h line hline).1, fun next hnext => (h.next hnext).1⟩
  | some name =>
    rintro _ ⟨⟩
    refine ⟨rfl, ?_⟩
    rintro _ ⟨⟩
    exact framed?_eq_none (by simp [namespaceLine, optionLine]) (by decide)

theorem rows_importLines :
    rowsBehindBlank readImport? (p.importLines ++ (p.namespaceLines ++ body)) = (p.imports, p.namespaceLines ++ body) := by
  have hbehind := behind_imports h p
  unfold Preamble.importLines
  cases himports : p.imports with
  | nil =>
    refine rowsBehindBlank_of_none fun next hnext => ?_
    cases hlines : p.namespaceLines ++ body with
    | nil => simp [hlines] at hnext
    | cons line lines =>
      rw [hlines] at hbehind
      exact (hbehind line rfl).2 next (by simpa [hlines] using hnext)
  | cons path paths =>
    refine rowsBehindBlank_map readImport?_importLine (List.cons_ne_nil path paths) fun line hline => ?_
    obtain ⟨rfl, -⟩ := hbehind line hline
    rfl

/-- All that a preamble says is read back from its lines, and what stands behind it is left. -/
theorem read?_lines (layout : Layout) : Preamble.read? (p.lines layout ++ body) = some (p, body) := by
  have hassemblies : rows readAssembly? (p.assemblies.map ("// Assembly: " ++ ·) ++
      "" :: p.editionLine :: (p.importLines ++ (p.namespaceLines ++ body))) =
      (p.assemblies, "" :: p.editionLine :: (p.importLines ++ (p.namespaceLines ++ body))) := by
    refine rows_map readAssembly?_line p.assemblies ?_
    rintro _ ⟨⟩
    rfl
  have hlines : (p.lines layout ++ body).tail = p.assemblies.map ("// Assembly: " ++ ·) ++
      "" :: p.editionLine :: (p.importLines ++ (p.namespaceLines ++ body)) := by
    simp [p.lines_eq]
  rw [Preamble.read?, hlines, hassemblies]
  simp [p.readEdition?_editionLine, rows_importLines h, rows_namespaceLines h]

end Behind

/-- Different preambles have different lines. -/
theorem Preamble.lines_injective (layout : Layout) : Function.Injective (Preamble.lines layout) := by
  intro p q h
  have hnone : Behind [] := nofun
  have hp := read?_lines hnone p layout
  rw [h, read?_lines hnone q layout] at hp
  exact (Prod.mk.inj (Option.some.inj hp)).1.symm

/-! ## Whole texts -/

/-- A declaration starts with what it declares. -/
theorem head_declLines {s : Schema} {layout : Layout} {depth : Nat} {id : DeclId} {line : String}
    (h : line ∈ (s.declLines layout depth id).head?) :
    ∃ word ∈ ["message ", "enum ", "service "], ∃ rest, line = word ++ rest := by
  cases depth with
  | zero => cases h
  | succ depth =>
    unfold declLines at h
    split at h
    · cases h
    · split at h
      all_goals
        obtain rfl := Option.some.inj h
        exact ⟨_, by simp, _, String.append_assoc ..⟩

theorem behind_declarations (s : Schema) (layout : Layout) (ids : List DeclId) :
    Behind (ids.flatMap fun id => "" :: s.declLines layout s.size id) := by
  cases ids with
  | nil => exact nofun
  | cons id ids =>
    rw [List.flatMap_cons]
    rintro _ ⟨⟩
    refine ⟨rfl, fun next hnext => ?_⟩
    have hblank : readImport? "" = none ∧ readNamespace? "" = none := ⟨rfl, rfl⟩
    rw [List.cons_append, List.tail_cons, List.head?_append] at hnext
    cases hhead : (s.declLines layout s.size id).head? with
    | none =>
      -- Nothing is declared at this position, so the next blank line follows.
      rw [hhead, Option.none_or] at hnext
      cases ids with
      | nil => cases hnext
      | cons other ids =>
        obtain rfl := Option.some.inj hnext
        exact hblank
    | some head =>
      rw [hhead, Option.some_or] at hnext
      obtain rfl := Option.some.inj hnext
      obtain ⟨word, hword, rest, rfl⟩ := head_declLines hhead
      simp only [List.mem_cons, List.not_mem_nil, or_false] at hword
      rcases hword with rfl | rfl | rfl
      all_goals exact ⟨framed?_eq_none (by simp) (by decide), framed?_eq_none (by simp) (by decide)⟩

/-- From the lines of a file its preamble is read back, and from those of all files the merged one: assemblies, edition,
imports and namespace, and behind them the declarations. -/
theorem preamble_read_back (s : Schema) (layout : Layout) :
    (∀ file, Preamble.read? ((Preamble.ofFile s file).lines layout ++ s.bodyLines layout file) =
      some (Preamble.ofFile s file, s.bodyLines layout file)) ∧
    Preamble.read? ((Preamble.merged s.files).lines layout ++ s.files.flatMap (s.bodyLines layout)) =
      some (Preamble.merged s.files, s.files.flatMap (s.bodyLines layout)) := by
  refine ⟨fun file => read?_lines (behind_declarations s layout file.tops) _ layout, read?_lines ?_ _ layout⟩
  have hall : s.files.flatMap (s.bodyLines layout) =
      (s.files.flatMap (·.tops)).flatMap fun id => "" :: s.declLines layout s.size id := by
    rw [List.flatMap_assoc]
    rfl
  rw [hall]
  exact behind_declarations s layout _

end ProtoRecovery.Schema
