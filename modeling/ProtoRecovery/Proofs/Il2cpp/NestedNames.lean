import ProtoRecovery.Proofs.Il2cpp.Bounds
/-!
# Names of nested definitions

Each name is put together on its own, by going outwards from the definition for so many steps at most. As long as the end
is reached in time, the definition inside and the one around it see the same types further out. So the full name inside
is the one around it with a slash and a name behind it, and both are in the namespace of the outermost type. Where the
end is not reached, the way from outside gets one step further than that from inside, and the names do not agree.
-/

namespace ProtoRecovery.Il2cpp

namespace Tables

variable {t : Tables} {d outer top : TypeRow} {limit : Nat}

/-! ## The way outwards -/

/-- The type that a definition is declared in is the definition at a row. -/
def DeclaredIn (t : Tables) (d : TypeRow) (row : Nat) : Prop :=
  ∃ entry e, position? d.declaringType = some entry ∧ t.entries[entry]? = some e ∧ e.target = .definition row

/-- The definition that so many steps outwards lead to. -/
def outward? (t : Tables) : (steps : Nat) → TypeRow → Option TypeRow
  | 0, d => some d
  | steps + 1, d => (t.outer? d).bind (t.outward? steps)

/-- No more steps than these lead outwards from a definition. -/
def EndsWithin (t : Tables) (limit : Nat) (d : TypeRow) : Prop := t.outward? (limit + 1) d = none

/-- Some steps outwards lead to a definition that is declared in no type. -/
def Outermost (t : Tables) (d top : TypeRow) : Prop := ∃ steps, t.outward? steps d = some top ∧ top.declaringType < 0

instance : Decidable (t.EndsWithin limit d) := inferInstanceAs (Decidable (_ = none))

theorem nested_of_declaredIn {row : Nat} (h : t.DeclaredIn d row) : 0 ≤ d.declaringType := by
  obtain ⟨entry, -, hentry, -⟩ := h
  by_contra hneg
  rw [position?, if_pos (Int.not_le.1 hneg)] at hentry
  cases hentry

theorem outer?_of_declaredIn {row : Nat} (h : t.DeclaredIn d row) : t.outer? d = t.definitions[row]? := by
  obtain ⟨entry, e, hentry, he, htarget⟩ := h
  simp [outer?, hentry, he, htarget]

theorem mem_of_outer? (h : t.outer? d = some outer) : outer ∈ t.definitions := by
  unfold outer? at h
  obtain ⟨entry, -, h⟩ := Option.bind_eq_some_iff.1 h
  obtain ⟨e, -, h⟩ := Option.bind_eq_some_iff.1 h
  split at h
  · exact List.mem_of_getElem? h
  · cases h

theorem mem_of_outward? {steps : Nat} (hd : d ∈ t.definitions) (h : t.outward? steps d = some top) :
    top ∈ t.definitions := by
  induction steps generalizing d with
  | zero =>
    obtain rfl := Option.some.inj h
    exact hd
  | succ steps ih =>
    obtain ⟨outer, houter, h⟩ := Option.bind_eq_some_iff.1 h
    exact ih (mem_of_outer? houter) h

theorem outward?_nested (h : t.outer? d = some outer) (steps : Nat) :
    t.outward? (steps + 1) d = t.outward? steps outer := by
  rw [outward?, h, Option.bind_some]

/-! ## Definitions met on the way -/

theorem enclosing_nested (h : t.outer? d = some outer) (limit : Nat) :
    t.enclosing (limit + 1) d = d :: t.enclosing limit outer := by
  simp only [enclosing, h]

theorem enclosing_outermost (h : t.outer? d = none) (limit : Nat) : t.enclosing limit d = [d] := by
  cases limit with
  | zero => rfl
  | succ limit => simp only [enclosing, h]

theorem enclosing_ne_nil (limit : Nat) (d : TypeRow) : t.enclosing limit d ≠ [] := by
  cases h : t.outer? d with
  | none => simp [enclosing_outermost h]
  | some outer =>
    cases limit with
    | zero => simp [enclosing]
    | succ limit => simp [enclosing_nested h]

/-- With one more step allowed, the definition there is met as well, if there is one. -/
theorem enclosing_succ (limit : Nat) (d : TypeRow) :
    t.enclosing (limit + 1) d = t.enclosing limit d ++ (t.outward? (limit + 1) d).toList := by
  induction limit generalizing d with
  | zero =>
    cases h : t.outer? d with
    | none => simp [enclosing_outermost h, outward?, h]
    | some outer => simp [enclosing, outward?, h]
  | succ limit ih =>
    cases h : t.outer? d with
    | none => simp [enclosing_outermost h, outward?, h]
    | some outer => rw [enclosing_nested h, enclosing_nested h, ih, outward?_nested h, List.cons_append]

/-- What is met from inside and from the type around, with as many steps allowed for both. -/
theorem enclosing_eq_cons (h : t.outer? d = some outer) (hends : t.EndsWithin limit d) :
    t.enclosing limit d = d :: t.enclosing limit outer := by
  cases limit with
  | zero =>
    rw [EndsWithin, outward?_nested h] at hends
    cases hends
  | succ limit =>
    rw [EndsWithin, outward?_nested h] at hends
    rw [enclosing_nested h, enclosing_succ limit outer, hends, Option.toList_none, List.append_nil]

/-- If the end is reached, then it is the last that is met. -/
theorem exists_last_of_endsWithin (hends : t.EndsWithin limit d) :
    ∃ steps top, t.outward? steps d = some top ∧ t.outer? top = none ∧ (t.enclosing limit d).getLast? = some top := by
  induction limit generalizing d with
  | zero =>
    have hnone : t.outer? d = none := by simpa [EndsWithin, outward?] using hends
    exact ⟨0, d, rfl, hnone, rfl⟩
  | succ limit ih =>
    cases h : t.outer? d with
    | none => exact ⟨0, d, rfl, h, by rw [enclosing_outermost h, List.getLast?_singleton]⟩
    | some outer =>
      have houter : t.EndsWithin limit outer := by rwa [EndsWithin, outward?_nested h] at hends
      obtain ⟨steps, top, htop, hnone, hlast⟩ := ih houter
      refine ⟨steps + 1, top, by rw [outward?_nested h, htop], hnone, ?_⟩
      rw [enclosing_nested h, List.getLast?_cons, hlast, Option.getD_some]

/-! ## Names put together -/

/-- Names of definitions, innermost first, with slashes between them. -/
def slashed (ds : List TypeRow) : String := "/".intercalate (ds.map (·.name)).reverse

/-- What a namespace puts in front of a name. -/
def leading : Option String → String
  | some space => space ++ "."
  | none => ""

theorem slashed_append {inner outer : List TypeRow} (hinner : inner ≠ []) (houter : outer ≠ []) :
    slashed (inner ++ outer) = slashed outer ++ "/" ++ slashed inner := by
  unfold slashed
  rw [List.map_append, List.reverse_append, String.intercalate_append_of_ne_nil (by simpa using houter)
    (by simpa using hinner)]

theorem slashed_singleton (d : TypeRow) : slashed [d] = d.name := String.intercalate_singleton

theorem slashed_cons (d : TypeRow) {outer : List TypeRow} (houter : outer ≠ []) :
    slashed (d :: outer) = slashed outer ++ "/" ++ d.name := by
  rw [← List.singleton_append, slashed_append (by simp) houter, slashed_singleton]

theorem fullNameOf_eq (t : Tables) (d : TypeRow) :
    t.fullNameOf d = leading (t.namespaceOf? d) ++ slashed (t.enclosing chainLimit d) := by
  unfold fullNameOf
  cases t.namespaceOf? d with
  | none => exact String.empty_append.symm
  | some space => rfl

/-- A namespace ends in a dot there, never in a slash. -/
theorem leading_ne_slash (space : Option String) (text : String) : leading space ≠ text ++ "/" := by
  intro h
  have hlast := congrArg (·.toList.getLast?) h
  cases space with
  | none => simp [leading] at hlast
  | some space => simp [leading] at hlast

theorem namespaceOf?_nested (h : t.outer? d = some outer) (hends : t.EndsWithin chainLimit d) :
    t.namespaceOf? d = t.namespaceOf? outer := by
  unfold namespaceOf?
  rw [enclosing_eq_cons h hends, List.getLast?_cons_of_ne_nil (enclosing_ne_nil _ _)]

/-- The full name of a nested definition is that of the type around it with a slash and a name behind it, just when the
way outwards ends within the steps that are followed. -/
theorem fullNameOf_nested_iff (h : t.outer? d = some outer) :
    t.fullNameOf d = t.fullNameOf outer ++ "/" ++ d.name ↔ t.EndsWithin chainLimit d := by
  constructor
  · intro heq
    obtain ⟨limit, hlimit⟩ : ∃ limit, chainLimit = limit + 1 := Nat.exists_eq_add_one.2 (by decide)
    have hne : t.enclosing limit outer ≠ [] := enclosing_ne_nil limit outer
    rw [EndsWithin, outward?_nested h, hlimit]
    cases hfar : t.outward? (limit + 1) outer with
    | none => rfl
    | some far =>
      -- From outside one more definition is met, so its name stands where the namespace would have to end.
      have hinside : slashed (t.enclosing chainLimit d) = slashed (t.enclosing limit outer) ++ "/" ++ d.name := by
        rw [hlimit, enclosing_nested h, slashed_cons d hne]
      have houtside :
          slashed (t.enclosing chainLimit outer) = far.name ++ "/" ++ slashed (t.enclosing limit outer) := by
        rw [hlimit, enclosing_succ, hfar, Option.toList_some, slashed_append hne (by simp), slashed_singleton]
      rw [fullNameOf_eq, fullNameOf_eq, hinside, houtside] at heq
      have hfront : leading (t.namespaceOf? d) = leading (t.namespaceOf? outer) ++ far.name ++ "/" := by
        simpa [← String.append_assoc] using heq
      exact absurd hfront (leading_ne_slash _ _)
  · intro hends
    rw [fullNameOf_eq, fullNameOf_eq, namespaceOf?_nested h hends, enclosing_eq_cons h hends,
      slashed_cons d (enclosing_ne_nil _ _)]
    simp only [String.append_assoc]

end Tables

namespace Store

variable {t : Tables} {s : Store} {d : TypeRow} {row outerRow : Nat}

/-! ## Names that a store has -/

theorem fullName?_definition (h : load t = .ok s) (hd : t.definitions[row]? = some d) :
    s.fullName? (.definition row) = some (t.fullNameOf d) := by
  obtain ⟨-, rfl⟩ := load_eq_ok.1 h
  simp [fullName?, ofTables, hd]

theorem namespaceName?_definition (h : load t = .ok s) (hd : t.definitions[row]? = some d) :
    s.catalog.namespaceName? (.definition row) = t.namespaceOf? d := by
  obtain ⟨-, rfl⟩ := load_eq_ok.1 h
  simp [catalog, typeRow?, rowOfHandle?, ofTables, hd]

/-- In checked tables the way outwards ends only at a definition that is declared in no type. -/
theorem exists_outermost (hs : s.Checked) (hd : d ∈ s.tables.definitions) (hends : s.tables.EndsWithin chainLimit d) :
    ∃ top, s.tables.Outermost d top ∧
      s.tables.namespaceOf? d = if top.namespaceName = "" then none else some top.namespaceName := by
  obtain ⟨steps, top, htop, hnone, hlast⟩ := Tables.exists_last_of_endsWithin hends
  have houtermost : top.declaringType < 0 := by
    by_contra hnested
    obtain ⟨outer, houter, -⟩ := found_outer? hs (Tables.mem_of_outward? hd htop) (Int.not_lt.1 hnested)
    rw [hnone] at houter
    cases houter
  refine ⟨top, ⟨steps, htop, houtermost⟩, ?_⟩
  rw [Tables.namespaceOf?, hlast, Option.map_some]
  by_cases hempty : top.namespaceName = ""
  · rw [if_pos hempty, Option.filter_some_neg (by simp [hempty])]
  · rw [if_neg hempty, Option.filter_some_pos (by simpa using hempty)]

/-- A nested definition, on a way outwards that ends within the steps that are followed, has the full name of the type
around it with a slash and its own name behind that. It is in the namespace of the type around it, which is that of the
outermost type. -/
theorem nested_names_compose (hload : load t = .ok s) (hd : t.definitions[row]? = some d)
    (hdeclared : t.DeclaredIn d outerRow) (hends : t.EndsWithin chainLimit d) :
    (∃ outerName, s.fullName? (.definition outerRow) = some outerName ∧
      s.fullName? (.definition row) = some (outerName ++ "/" ++ d.name)) ∧
    s.catalog.namespaceName? (.definition row) = s.catalog.namespaceName? (.definition outerRow) ∧
    ∃ top, t.Outermost d top ∧ s.catalog.namespaceName? (.definition outerRow) =
      if top.namespaceName = "" then none else some top.namespaceName := by
  have hs := checked_of_load hload
  have htables := tables_of_load hload
  have hmem : d ∈ s.tables.definitions := htables ▸ List.mem_of_getElem? hd
  obtain ⟨outer, houter, -⟩ := found_outer? hs hmem (Tables.nested_of_declaredIn hdeclared)
  obtain ⟨top, htop, hspace⟩ := exists_outermost hs hmem (htables ▸ hends)
  rw [htables] at houter htop hspace
  have hrow : t.definitions[outerRow]? = some outer := by rw [← Tables.outer?_of_declaredIn hdeclared, houter]
  have hsame := Tables.namespaceOf?_nested houter hends
  rw [namespaceName?_definition hload hd, namespaceName?_definition hload hrow, ← hsame]
  refine ⟨⟨t.fullNameOf outer, fullName?_definition hload hrow, ?_⟩, rfl, top, htop, hspace⟩
  rw [fullName?_definition hload hd, (Tables.fullNameOf_nested_iff houter).2 hends]

/-- A class and as many more as steps are followed, each inside the one before. Only the namespace of the first counts. -/
def deepTables : Tables where
  version := .ofInt 29
  images := [⟨"App.dll", ⟨0, chainLimit + 1⟩, {}⟩]
  definitions := { name := "Outer", namespaceName := "App" } :: (List.range chainLimit).map fun row =>
    { name := "Inner", namespaceName := "Else", declaringType := row }
  entries := (List.range chainLimit).map fun row => ⟨0x12, 0, .definition row⟩

/-- The innermost class, from which the last step that is followed leads to the outermost one. -/
theorem nested_names_compose_deep :
    ∃ s d, load deepTables = .ok s ∧ deepTables.definitions[64]? = some d ∧ deepTables.DeclaredIn d 63 ∧
      deepTables.EndsWithin chainLimit d ∧ ¬ deepTables.EndsWithin 63 d ∧
      (∃ outerName, s.fullName? (.definition 63) = some outerName ∧
        s.fullName? (.definition 64) = some (outerName ++ "/" ++ "Inner")) ∧
      s.catalog.namespaceName? (.definition 64) = s.catalog.namespaceName? (.definition 63) ∧
      s.catalog.namespaceName? (.definition 63) = some "App" := by
  let s : Store := .ofTables deepTables
  let d : TypeRow := { name := "Inner", namespaceName := "Else", declaringType := 63 }
  have hload : load deepTables = .ok s := rfl
  have hd : deepTables.definitions[64]? = some d := by decide +kernel
  have hdeclared : deepTables.DeclaredIn d 63 := ⟨63, ⟨0x12, 0, .definition 63⟩, rfl, by decide +kernel, rfl⟩
  have hends : deepTables.EndsWithin chainLimit d := by decide +kernel
  obtain ⟨hname, hspace, -⟩ := nested_names_compose hload hd hdeclared hends
  exact ⟨s, d, hload, hd, hdeclared, hends, by decide +kernel, hname, hspace, by decide +kernel⟩

end Store

end ProtoRecovery.Il2cpp
