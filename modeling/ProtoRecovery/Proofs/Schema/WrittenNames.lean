import Mathlib.Data.List.Nodup
import Mathlib.Data.List.Perm.Subperm
import Mathlib.Data.Nat.Find
import Mathlib.Logic.Function.Iterate
import Mathlib.Order.Bounds.Defs
import ProtoRecovery.Proofs.Schema.Literals
import ProtoRecovery.Schema.Output
/-!
# The names of written files

Files are written in order, each under its name with the fewest underscores in front that make it new; the loop that
adds them always ends. An import names a file without regard to those. `mem_distinctNames_iff` says which names are
taken, in terms of the names alone, as for a table in which every key goes to the first free place from its own on: a
name is taken when more files than there are underscores to be had start out from it or from less of them.
-/

namespace ProtoRecovery.Schema

/-! ## Underscores in front -/

/-- One underscore in front. -/
def underscore (name : String) : String := "_" ++ name

theorem underscore_injective : Function.Injective underscore := fun a b h => by
  simpa [underscore, String.ext_iff] using h

theorem length_underscore_iterate (k : Nat) (name : String) :
    (underscore^[k] name).length = k + name.length := by
  induction k generalizing name with
  | zero => simp
  | succ k ih =>
    rw [Function.iterate_succ_apply, ih, underscore, String.length_append, show "_".length = 1 from rfl]
    omega

theorem underscore_iterate_inj {i j : Nat} {name : String} (h : underscore^[i] name = underscore^[j] name) :
    i = j := by
  have := congrArg String.length h
  rw [length_underscore_iterate, length_underscore_iterate] at this
  omega

/-- The longer of two rows of underscores holds the shorter one. -/
theorem underscore_iterate_cancel {i j : Nat} {a b : String} (h : underscore^[i] a = underscore^[j] b) (hij : i ≤ j) :
    a = underscore^[j - i] b := by
  apply underscore_injective.iterate i
  rw [← Function.iterate_add_apply, Nat.add_sub_cancel' hij, h]

/-- A name with at most so many underscores in front. -/
def variants (most : Nat) (name : String) : List String := (List.range (most + 1)).map (underscore^[·] name)

theorem mem_variants {most : Nat} {name e : String} : e ∈ variants most name ↔ ∃ i ≤ most, underscore^[i] name = e := by
  simp only [variants, List.mem_map, List.mem_range, Nat.lt_succ_iff]

theorem nodup_variants (most : Nat) (name : String) : (variants most name).Nodup :=
  List.Nodup.map (fun _ _ h => underscore_iterate_inj h) List.nodup_range

theorem length_variants (most : Nat) (name : String) : (variants most name).length = most + 1 := by simp [variants]

/-! ## Fresh names -/

theorem freshName_cases (used : List String) (limit : Nat) (name : String) :
    ∃ i ≤ limit, freshName used limit name = underscore^[i] name ∧ (∀ j < i, underscore^[j] name ∈ used) ∧
      (underscore^[i] name ∈ used → i = limit) := by
  induction limit generalizing name with
  | zero => exact ⟨0, (Nat.le_refl _), rfl, by simp, fun _ => rfl⟩
  | succ limit ih =>
    rw [freshName]
    split
    · next hused =>
      obtain ⟨i, hi, heq, hbelow, hlast⟩ := ih (underscore name)
      refine ⟨i + 1, by omega, heq, fun j hj => ?_, fun h => by rw [hlast h]⟩
      cases j with
      | zero => simpa using hused
      | succ j => exact hbelow j (by omega)
    · next hfree => exact ⟨0, by omega, rfl, by simp, fun h => absurd h (by simpa using hfree)⟩

/-- The names before a fresh one are all used, and it is not: there are not as many used ones as underscores to try. -/
theorem freshName_spec (used : List String) {limit : Nat} (hlimit : used.length ≤ limit) (name : String) :
    ∃ i, freshName used limit name = underscore^[i] name ∧ underscore^[i] name ∉ used ∧
      ∀ j < i, underscore^[j] name ∈ used := by
  obtain ⟨i, hi, heq, hbelow, hlast⟩ := freshName_cases used limit name
  refine ⟨i, heq, fun hused => ?_, hbelow⟩
  obtain rfl := hlast hused
  have hsub : variants i name ⊆ used := by
    intro e he
    obtain ⟨j, hj, rfl⟩ := mem_variants.1 he
    rcases Nat.lt_or_eq_of_le hj with hj | rfl
    exacts [hbelow j hj, hused]
  have := (List.subperm_of_subset (nodup_variants i name) hsub).length_le
  rw [length_variants] at this
  omega

theorem freshName_eq_self_iff {used : List String} {limit : Nat} (hlimit : used.length ≤ limit) {name : String} :
    freshName used limit name = name ↔ name ∉ used := by
  obtain ⟨i, heq, hfresh, hbelow⟩ := freshName_spec used hlimit name
  constructor
  · intro h
    rwa [← heq, h] at hfresh
  · intro h
    cases i with
    | zero => exact heq
    | succ i => exact absurd (hbelow 0 (by omega)) h

/-! ## Names told apart -/

/-- A name and what it became: everything up to that is taken. -/
def Moved (taken : List String) (name fresh : String) : Prop :=
  ∃ i, fresh = underscore^[i] name ∧ ∀ j ≤ i, underscore^[j] name ∈ taken

theorem moved_distinctNames (used names : List String) :
    List.Forall₂ (Moved (used ++ distinctNames used names)) names (distinctNames used names) := by
  induction names generalizing used with
  | nil => exact .nil
  | cons name rest ih =>
    obtain ⟨i, heq, -, hbelow⟩ := freshName_spec used (Nat.le_refl _) name
    refine .cons ⟨i, heq, fun j hj => ?_⟩ ?_
    · rcases Nat.lt_or_eq_of_le hj with hj | rfl
      · exact List.mem_append_left _ (hbelow j hj)
      · simp [distinctNames, heq]
    · simpa [distinctNames] using ih (used ++ [freshName used used.length name])

theorem nodup_distinctNames {used : List String} (hused : used.Nodup) (names : List String) :
    (used ++ distinctNames used names).Nodup := by
  induction names generalizing used with
  | nil => simpa [distinctNames] using hused
  | cons name rest ih =>
    obtain ⟨i, heq, hfresh, -⟩ := freshName_spec used (Nat.le_refl _) name
    have hnew : (used ++ [freshName used used.length name]).Nodup := by
      rw [List.nodup_append]
      refine ⟨hused, by simp, ?_⟩
      rintro a ha b hb rfl
      obtain rfl := List.mem_singleton.1 hb
      exact hfresh (heq ▸ ha)
    simpa [distinctNames] using ih hnew

@[simp] theorem length_distinctNames (used names : List String) :
    (distinctNames used names).length = names.length := by
  induction names generalizing used with
  | nil => rfl
  | cons name rest ih => simp [distinctNames, ih]

theorem take_distinctNames (used names : List String) (n : Nat) :
    (distinctNames used names).take n = distinctNames used (names.take n) := by
  induction names generalizing used n with
  | nil => simp [distinctNames]
  | cons name rest ih =>
    cases n with
    | zero => simp [distinctNames]
    | succ n => simp [distinctNames, ih]

theorem getElem?_distinctNames (used names : List String) (n : Nat) :
    (distinctNames used names)[n]? = names[n]?.map
      (freshName (used ++ distinctNames used (names.take n)) (used.length + n)) := by
  induction names generalizing used n with
  | nil => simp [distinctNames]
  | cons name rest ih =>
    cases n with
    | zero => simp [distinctNames]
    | succ n =>
      simp only [distinctNames, List.getElem?_cons_succ, ih, List.take_succ_cons, List.append_assoc,
        List.singleton_append, List.length_append, List.length_singleton]
      congr 2
      omega

/-! ## The fewest underscores -/

/-- The loop that puts an underscore in front of a name as long as it is used, with no bound on their number: the name
that it ends with. -/
inductive LoopEnds (used : List String) : (name result : String) → Prop
  | free {name : String} : name ∉ used → LoopEnds used name name
  | again {name result : String} : name ∈ used → LoopEnds used (underscore name) result → LoopEnds used name result

theorem LoopEnds.unique {used : List String} {name a b : String} (ha : LoopEnds used name a) (hb : LoopEnds used name b) :
    a = b := by
  induction ha with
  | free hfree =>
    cases hb with
    | free => rfl
    | again hused => exact absurd hused hfree
  | again hused _ ih =>
    cases hb with
    | free hfree => exact absurd hused hfree
    | again _ hb => exact ih hb

theorem loopEnds_iterate {used : List String} {i : Nat} {name : String} (hfree : underscore^[i] name ∉ used)
    (hbelow : ∀ j < i, underscore^[j] name ∈ used) : LoopEnds used name (underscore^[i] name) := by
  induction i generalizing name with
  | zero => exact .free hfree
  | succ i ih =>
    apply LoopEnds.again (hbelow 0 (Nat.succ_pos i))
    rw [Function.iterate_succ_apply] at hfree ⊢
    exact ih hfree fun j hj => hbelow (j + 1) (Nat.succ_lt_succ hj)

/-- A bound of one underscore for each used name does not cut the loop short. -/
theorem loopEnds_freshName (used : List String) {limit : Nat} (hlimit : used.length ≤ limit) (name : String) :
    LoopEnds used name (freshName used limit name) := by
  obtain ⟨i, heq, hfree, hbelow⟩ := freshName_spec used hlimit name
  rw [heq]
  exact loopEnds_iterate hfree hbelow

/-- No two names come out alike, and each comes out with the fewest underscores in front that make it differ from all
that came out before it. The loop that adds them ends, and with just that. -/
theorem distinctNames_fewest (names : List String) :
    (distinctNames [] names).length = names.length ∧ (distinctNames [] names).Nodup ∧
      ∀ i name, names[i]? = some name → ∃ n,
        (distinctNames [] names)[i]? = some (underscore^[n] name) ∧
        IsLeast {k | underscore^[k] name ∉ (distinctNames [] names).take i} n ∧
        ∀ result, LoopEnds ((distinctNames [] names).take i) name result ↔ result = underscore^[n] name := by
  refine ⟨length_distinctNames [] names, by simpa using nodup_distinctNames List.nodup_nil names, fun i name hname => ?_⟩
  have hlength : ((distinctNames [] names).take i).length ≤ i := List.length_take_le _ _
  obtain ⟨n, hfresh, hfree, hbelow⟩ := freshName_spec ((distinctNames [] names).take i) hlength name
  have hends := loopEnds_freshName ((distinctNames [] names).take i) hlength name
  rw [hfresh] at hends
  refine ⟨n, ?_, ⟨hfree, fun k hk => ?_⟩, fun result => ⟨fun h => h.unique hends, ?_⟩⟩
  · rw [getElem?_distinctNames, hname, ← take_distinctNames]
    simp [hfresh]
  · by_contra hlt
    exact hk (hbelow k (Nat.lt_of_not_le hlt))
  · rintro rfl
    exact hends

/-- The third name starts with an underscore and so competes with the second, which got one; the last has to pass
them all. -/
theorem distinctNames_fewest_competing :
    distinctNames [] ["Foo.proto", "Foo.proto", "_Foo.proto", "Bar.proto", "Foo.proto"] =
        ["Foo.proto", "_Foo.proto", "__Foo.proto", "Bar.proto", "___Foo.proto"] ∧
      ∃ n, underscore^[n] "Foo.proto" = "___Foo.proto" ∧
        IsLeast {k | underscore^[k] "Foo.proto" ∉ ["Foo.proto", "_Foo.proto", "__Foo.proto", "Bar.proto"]} n := by
  have hnames : distinctNames [] ["Foo.proto", "Foo.proto", "_Foo.proto", "Bar.proto", "Foo.proto"] =
      ["Foo.proto", "_Foo.proto", "__Foo.proto", "Bar.proto", "___Foo.proto"] := by decide +kernel
  obtain ⟨-, -, h⟩ := distinctNames_fewest ["Foo.proto", "Foo.proto", "_Foo.proto", "Bar.proto", "Foo.proto"]
  obtain ⟨n, hlast, hleast, -⟩ := h 4 "Foo.proto" rfl
  rw [hnames] at hlast hleast
  exact ⟨hnames, n, (Option.some.inj hlast).symm, hleast⟩

/-! ## Which names are taken -/

theorem countP_le_of_forall₂ {α β : Type} {p : α → Bool} {q : β → Bool} {r : α → β → Prop} {xs : List α}
    {ys : List β} (h : List.Forall₂ r xs ys) (hpq : ∀ x y, r x y → p x → q y) : xs.countP p ≤ ys.countP q := by
  induction h with
  | nil => simp
  | @cons x y xs ys hxy _ ih =>
    rw [List.countP_cons, List.countP_cons]
    have := hpq x y hxy
    by_cases hx : p x
    · simp [hx, this hx, ih]
    · simp only [hx, Bool.false_eq_true, if_false]
      omega

/-- More names than there are underscores in front of this one start out from it or from less of them. -/
def Crowded (names : List String) (name : String) : Prop :=
  ∃ j core, name = underscore^[j] core ∧ j < names.countP (· ∈ variants j core)

theorem mem_of_crowded {names : List String} {name : String} (h : Crowded names name) :
    name ∈ distinctNames [] names := by
  obtain ⟨j, core, rfl, hmany⟩ := h
  by_contra hfree
  -- None of those names gets past the free one, so all of them go to the places before it.
  let before := (List.range j).map (underscore^[·] core)
  have hbefore : names.countP (· ∈ variants j core) ≤ (distinctNames [] names).countP (· ∈ before) := by
    refine countP_le_of_forall₂ (moved_distinctNames [] names) ?_
    rintro start fresh ⟨i, rfl, hbelow⟩ hstart
    obtain ⟨k, hk, rfl⟩ := mem_variants.1 (of_decide_eq_true hstart)
    have hstop : i < j - k := by
      by_contra hpast
      have hplace : underscore^[j - k] (underscore^[k] core) = underscore^[j] core := by
        rw [← Function.iterate_add_apply, Nat.sub_add_cancel hk]
      exact hfree (by simpa [hplace] using hbelow _ (Nat.le_of_not_lt hpast))
    refine decide_eq_true (List.mem_map.2 ⟨i + k, List.mem_range.2 (by omega), ?_⟩)
    exact Function.iterate_add_apply ..
  have hroom : (distinctNames [] names).countP (· ∈ before) ≤ j := by
    rw [List.countP_eq_length_filter]
    have hnodup : (distinctNames [] names).Nodup := by simpa using nodup_distinctNames List.nodup_nil names
    have hsub : (distinctNames [] names).filter (· ∈ before) ⊆ before := fun e he => by
      simpa using (List.mem_filter.1 he).2
    simpa [before] using (List.subperm_of_subset (hnodup.filter _) hsub).length_le
  omega

/-- All of a row of underscores that ends with a name is taken. -/
def RowTaken (taken : List String) (name : String) (j : Nat) : Prop :=
  ∃ core, name = underscore^[j] core ∧ ∀ e ∈ variants j core, e ∈ taken

theorem crowded_of_mem {names : List String} {name : String} (h : name ∈ distinctNames [] names) :
    Crowded names name := by
  classical
  -- The longest such row: whatever came to one of its places started inside it.
  have hzero : RowTaken (distinctNames [] names) name 0 := ⟨name, rfl, by simpa [variants] using h⟩
  have hbound : ∀ j, RowTaken (distinctNames [] names) name j → j ≤ name.length := by
    rintro j ⟨core, rfl, -⟩
    rw [length_underscore_iterate]
    omega
  let j := Nat.findGreatest (RowTaken (distinctNames [] names) name) name.length
  obtain ⟨core, hname, htaken⟩ : RowTaken (distinctNames [] names) name j :=
    Nat.findGreatest_spec (Nat.zero_le _) hzero
  have hlongest : ¬ RowTaken (distinctNames [] names) name (j + 1) := fun hrow =>
    absurd (Nat.le_findGreatest (hbound _ hrow) hrow) (by omega)
  have hinside : (distinctNames [] names).countP (· ∈ variants j core) ≤ names.countP (· ∈ variants j core) := by
    refine countP_le_of_forall₂ (moved_distinctNames [] names).flip ?_
    rintro fresh start ⟨i, rfl, hbelow⟩ hfresh
    obtain ⟨k, hk, heq⟩ := mem_variants.1 (of_decide_eq_true hfresh)
    refine decide_eq_true (mem_variants.2 ?_)
    rcases Nat.lt_or_ge k i with hki | hik
    · -- Had it come from further back, the row would be longer.
      have hcore : core = underscore (underscore^[i - k - 1] start) := by
        rw [← Function.iterate_succ_apply' underscore, show (i - k - 1).succ = i - k by omega]
        exact underscore_iterate_cancel heq (by omega)
      refine absurd ⟨underscore^[i - k - 1] start, ?_, fun e he => ?_⟩ hlongest
      · rw [Function.iterate_succ_apply, ← hcore, hname]
      · obtain ⟨a, ha, rfl⟩ := mem_variants.1 he
        cases a with
        | zero => exact hbelow _ (by omega)
        | succ a =>
          rw [Function.iterate_succ_apply, ← hcore]
          exact htaken _ (mem_variants.2 ⟨a, by omega, rfl⟩)
    · exact ⟨k - i, by omega, (underscore_iterate_cancel heq.symm hik).symm⟩
  have hall : j + 1 ≤ (distinctNames [] names).countP (· ∈ variants j core) := by
    rw [List.countP_eq_length_filter, ← length_variants j core]
    refine (List.subperm_of_subset (nodup_variants j core) fun e he => ?_).length_le
    exact List.mem_filter.2 ⟨htaken e he, decide_eq_true he⟩
  exact ⟨j, core, hname, by omega⟩

/-- Which names are taken, in terms of the names that were to be told apart. -/
theorem mem_distinctNames_iff {names : List String} {name : String} :
    name ∈ distinctNames [] names ↔ Crowded names name :=
  ⟨crowded_of_mem, mem_of_crowded⟩

/-! ## Import lines -/

/-- The line of an import. -/
def importLine (path : String) : String := "import " ++ literal path ++ ";"

theorem importLine_injective : Function.Injective importLine := fun a b h => by
  have hescaped : escape a = escape b := by simpa [importLine, literal, String.ext_iff] using h
  exact escape_injective hescaped

/-- The import lines of a file stand together in its preamble, in order. -/
theorem importLines_infix (layout : Layout) (p : Preamble) : p.imports.map importLine <:+: p.lines layout := by
  unfold Preamble.lines
  refine List.IsInfix.trans ?_ (List.prefix_append _ _).isInfix
  refine List.IsInfix.trans ?_ (List.suffix_append _ _).isInfix
  split
  · next hnone => simp [List.isEmpty_iff.1 hnone]
  · exact (List.suffix_cons _ _).isInfix

/-! ## What is written -/

section Writing

open Storage (Device)

variable (s : Schema)

/-- On every device, writing the files of a schema is writing these lines to these paths, one after the other. -/
def WritesAs (directory : String) (layout : Layout) (written : List (String × List String)) : Prop :=
  ∀ {m : Type → Type} [Monad m] [LawfulMonad m] (device : Device m),
    s.writeFiles device directory layout = do
      makeDirectories device directory
      written.mapM fun (path, lines) => do
        writeText device path (textOf lines)
        return path

/-- What is written of a schema, file by file. -/
def written (directory : String) (layout : Layout) : List (String × List String) :=
  (s.files.zip s.outputNames).map fun (file, name) =>
    (Storage.Path.join directory name, (Preamble.ofFile s file).lines layout ++ s.bodyLines layout file)

theorem writesAs_written (directory : String) (layout : Layout) :
    s.WritesAs directory layout (s.written directory layout) := by
  intro m _ _ device
  simp only [writeFiles, written, List.mapM_map, Function.comp_def, fileText]

/-- So many files before this one bear its name, or its name with fewer underscores in front, that it is taken. -/
def NameTaken (g : FileId) : Prop := Crowded ((List.range g).map s.fileName) (s.fileName g)

variable {s}

theorem fileNames_take {g : FileId} (hg : g < s.files.length) :
    ((List.range s.files.length).map s.fileName).take g = (List.range g).map s.fileName := by
  rw [← List.map_take, List.take_range, Nat.min_eq_left (Nat.le_of_lt hg)]

theorem getElem?_outputNames {g : FileId} (hg : g < s.files.length) :
    s.outputNames[g]? = some (freshName (s.outputNames.take g) g (s.fileName g)) := by
  rw [outputNames, getElem?_distinctNames, take_distinctNames]
  simp [hg]

theorem mem_take_outputNames {g : FileId} (hg : g < s.files.length) :
    s.fileName g ∈ s.outputNames.take g ↔ s.NameTaken g := by
  rw [outputNames, take_distinctNames, fileNames_take hg, mem_distinctNames_iff, NameTaken]

/-- A file is written under its own name unless that is taken. -/
theorem outputName_eq_fileName_iff {g : FileId} (hg : g < s.files.length) :
    freshName (s.outputNames.take g) g (s.fileName g) = s.fileName g ↔ ¬ s.NameTaken g := by
  rw [freshName_eq_self_iff (List.length_take_le _ _), mem_take_outputNames hg]

/-- If the name is taken, a file before bears it. -/
theorem exists_outputName_of_taken {g : FileId} (hg : g < s.files.length) (htaken : s.NameTaken g) :
    ∃ h < g, s.outputNames[h]? = some (s.fileName g) := by
  obtain ⟨h, hlt, heq⟩ := List.mem_iff_getElem.1 ((mem_take_outputNames hg).2 htaken)
  exact ⟨h, Nat.lt_of_lt_of_le hlt (List.length_take_le _ _), by rw [← heq, List.getElem_take, List.getElem?_eq_getElem]⟩

theorem getElem?_written {directory : String} {layout : Layout} {f : FileId} {file : File} {name : String}
    (hfile : s.files[f]? = some file) (hname : s.outputNames[f]? = some name) :
    (s.written directory layout)[f]? = some (Storage.Path.join directory name,
      (Preamble.ofFile s file).lines layout ++ s.bodyLines layout file) := by
  simp [written, List.zip, List.getElem?_zipWith, hfile, hname]

/-- The line that imports a file names what that file is written as just when its name is not taken by then; otherwise
it names a file that was written before. -/
theorem import_names_its_file_iff (directory : String) (layout : Layout) {f g : FileId} {file : File}
    (hfile : s.files[f]? = some file) (himport : .file g ∈ file.imports) (hg : g < s.files.length) :
    s.WritesAs directory layout (s.written directory layout) ∧
    ∃ name lines,
      s.outputNames[g]? = some name ∧
      (s.written directory layout)[g]?.map Prod.fst = some (Storage.Path.join directory name) ∧
      (s.written directory layout)[f]?.map Prod.snd = some lines ∧
      (file.imports.map fun i => importLine (s.importPath i)) <:+: lines ∧
      importLine (s.importPath (.file g)) ∈ lines ∧
      (importLine (s.importPath (.file g)) = importLine name ↔ ¬ s.NameTaken g) ∧
      (s.NameTaken g →
        ∃ h < g, ∃ other, s.outputNames[h]? = some other ∧ importLine (s.importPath (.file g)) = importLine other) := by
  have hf : f < s.files.length := (List.getElem?_eq_some_iff.1 hfile).1
  have hwritten : (s.written directory layout)[f]?.map Prod.snd =
      some ((Preamble.ofFile s file).lines layout ++ s.bodyLines layout file) := by
    rw [getElem?_written hfile (getElem?_outputNames hf), Option.map_some]
  have hpath : (s.written directory layout)[g]?.map Prod.fst =
      some (Storage.Path.join directory (freshName (s.outputNames.take g) g (s.fileName g))) := by
    rw [getElem?_written (List.getElem?_eq_getElem hg) (getElem?_outputNames hg), Option.map_some]
  have hlines : (file.imports.map fun i => importLine (s.importPath i)) <:+:
      (Preamble.ofFile s file).lines layout ++ s.bodyLines layout file := by
    refine List.IsInfix.trans ?_ (List.prefix_append _ _).isInfix
    simpa [Preamble.ofFile, Function.comp_def] using importLines_infix layout (Preamble.ofFile s file)
  refine ⟨s.writesAs_written directory layout, _, _, getElem?_outputNames hg, hpath, hwritten, hlines,
    hlines.subset (List.mem_map_of_mem himport), ?_, fun htaken => ?_⟩
  · rw [importLine_injective.eq_iff, importPath, eq_comm, outputName_eq_fileName_iff hg]
  · obtain ⟨h, hlt, hname⟩ := exists_outputName_of_taken hg htaken
    exact ⟨h, hlt, _, hname, rfl⟩

end Writing

section Sample

/-- Two files of one name, and a third that imports both. -/
def twoFoos : Schema where
  files := [{ tops := [0] }, { tops := [1] }, { tops := [2], imports := [.file 0, .file 1] }]
  decls := ["Foo", "Foo", "Bar"].map fun name => { name, isDeprecated := false, body := .message {} }

/-- The import of the first of them names it. -/
theorem import_names_first_foo :
    twoFoos.files[2]? = some { tops := [2], imports := [.file 0, .file 1] } ∧ 0 < twoFoos.files.length ∧
      ¬ twoFoos.NameTaken 0 ∧
      ∃ name lines,
        twoFoos.outputNames[0]? = some name ∧
        (twoFoos.written "out" {})[0]?.map Prod.fst = some (Storage.Path.join "out" name) ∧
        (twoFoos.written "out" {})[2]?.map Prod.snd = some lines ∧ importLine name ∈ lines := by
  have htaken : ¬ twoFoos.NameTaken 0 := by
    rintro ⟨j, core, -, hmany⟩
    simp at hmany
  obtain ⟨-, name, lines, hname, hpath, hlines, -, hline, hiff, -⟩ :=
    import_names_its_file_iff (s := twoFoos) "out" {} (f := 2) (g := 0) rfl (by decide) (by decide)
  exact ⟨rfl, by decide, htaken, name, lines, hname, hpath, hlines, hiff.2 htaken ▸ hline⟩

/-- The import of the second names the first: the second is written under another name. -/
theorem import_of_second_foo_names_first :
    twoFoos.WritesAs "out" {} (twoFoos.written "out" {}) ∧
      (twoFoos.written "out" {}).map Prod.fst = ["out/Foo.proto", "out/_Foo.proto", "out/Bar.proto"] ∧
      (twoFoos.written "out" {})[2]?.map Prod.snd = some ["// Decompiled with cilproto", "", "syntax = \"proto3\";", "",
        "import \"Foo.proto\";", "import \"Foo.proto\";", "", "message Bar \x7b", "\x7d"] ∧
      importLine "_Foo.proto" = "import \"_Foo.proto\";" :=
  ⟨twoFoos.writesAs_written "out" {}, by decide +kernel⟩

end Sample

end ProtoRecovery.Schema
