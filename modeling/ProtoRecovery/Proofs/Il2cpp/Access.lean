import Mathlib
import ProtoRecovery.Il2cpp.Catalog
import ProtoRecovery.Proofs.Il2cpp.Validity
/-!
# Types of checked tables

Functions that follow positions give nothing if a position leads outside its table. Here they give something, for
each type that can be reached in a store: sound tables have a row at each position that is followed, and what is
found there leads on to types of the same store.
-/

namespace ProtoRecovery.Il2cpp

open Catalog (Attribute Attributes Method Property)

/-! ## Positions that lead somewhere -/

section
variable {α β : Type}

/-- Something is found, and it is as it should be. -/
def Found (x : Option α) (P : α → Prop) : Prop := ∃ a, x = some a ∧ P a

theorem found_some {a : α} {P : α → Prop} (h : P a) : Found (some a) P := ⟨a, rfl, h⟩

theorem Found.isSome {x : Option α} {P : α → Prop} (h : Found x P) : x.isSome = true := by
  obtain ⟨a, rfl, -⟩ := h
  rfl

theorem Found.getD {x : Option α} {P : α → Prop} (h : Found x P) (default : α) : P (x.getD default) := by
  obtain ⟨a, rfl, ha⟩ := h
  exact ha

theorem Found.mono {x : Option α} {P Q : α → Prop} (h : Found x P) (hPQ : ∀ a, P a → Q a) : Found x Q := by
  obtain ⟨a, rfl, ha⟩ := h
  exact found_some (hPQ a ha)

theorem Found.bind {x : Option α} {f : α → Option β} {P : α → Prop} {Q : β → Prop} (h : Found x P)
    (hf : ∀ a, P a → Found (f a) Q) : Found (x >>= f) Q := by
  obtain ⟨a, rfl, ha⟩ := h
  exact hf a ha

theorem Found.map {x : Option α} {f : α → β} {P : α → Prop} {Q : β → Prop} (h : Found x P)
    (hf : ∀ a, P a → Q (f a)) : Found (x.map f) Q := by
  obtain ⟨a, rfl, ha⟩ := h
  exact found_some (hf a ha)

theorem found_mapM {l : List α} {f : α → Option β} {P : β → Prop} (h : ∀ a ∈ l, Found (f a) P) :
    Found (l.mapM f) fun found => (∀ b ∈ found, P b) ∧ found.length = l.length := by
  induction l with
  | nil => exact found_some (by simp)
  | cons a rest ih =>
    rw [List.mapM_cons]
    refine (h a (by simp)).bind fun b hb => (ih fun c hc => h c (by simp [hc])).bind fun bs hbs => ?_
    exact found_some (by simpa [hbs.2] using ⟨hb, hbs.1⟩)

theorem found_getElem {table : List α} {i : Nat} (h : i < table.length) : Found table[i]? (· ∈ table) :=
  ⟨table[i], List.getElem?_eq_getElem h, List.getElem_mem h⟩

/-- A run inside a table has its rows. -/
theorem Run.found_rows {r : Run} {table : List α} (h : r.isWithin table.length = true) :
    Found (r.rows? table) fun rows => (∀ a ∈ rows, a ∈ table) ∧ rows.length = r.count := by
  have hle : r.start + r.count ≤ table.length := by simpa [Run.isWithin] using h
  refine ⟨(table.drop r.start).take r.count, by simp [Run.rows?, hle], ?_, by simp; omega⟩
  exact fun a ha => List.mem_of_mem_drop (List.mem_of_mem_take ha)

theorem lt_of_isWithin {n : Int} {length i : Nat} (h : isWithin n length = true) (hi : position? n = some i) :
    i < length := by
  simpa [isWithin, hi] using h

end

theorem lt_of_findToken {tokens : List UInt32} {token : UInt32} {start count place : Nat}
    (h : Blob.findToken tokens token start count = some place) : place < tokens.length := by
  unfold Blob.findToken at h
  split at h
  · obtain ⟨k, hk, rfl⟩ := Option.map_eq_some_iff.1 h
    have hlt : k < ((tokens.drop start).take count).length := by
      unfold Blob.search at hk
      dsimp only at hk
      split at hk
      · rename_i hat
        cases hk
        exact (List.getElem?_eq_some_iff.1 hat).1
      · cases hk
    rw [List.length_take, List.length_drop] at hlt
    omega
  · cases h

namespace Store

/-! ## Types that a store has -/

/-- What a store is once its tables have been checked. -/
structure Checked (s : Store) : Prop where
  tables : s.tables.Sound
  fullNames : s.fullNames.length = s.tables.definitions.length
  imageRows : s.imageRows.length = s.tables.definitions.length
  images : ∀ i, some i ∈ s.imageRows → i < s.tables.images.length

theorem load_eq_ok {t : Tables} {s : Store} :
    load t = .ok s ↔ t.check = .ok () ∧ s = .ofTables t := by
  unfold load
  cases hcheck : t.check with
  | error e => simp [bind, Except.bind]
  | ok u => simp [bind, Except.bind, pure, Except.pure, eq_comm]

theorem tables_of_load {t : Tables} {s : Store} (h : load t = .ok s) : s.tables = t :=
  congrArg Store.tables (load_eq_ok.1 h).2

theorem checked_of_load {t : Tables} {s : Store} (h : load t = .ok s) : s.Checked := by
  obtain ⟨hcheck, rfl⟩ := load_eq_ok.1 h
  refine ⟨Tables.check_eq_ok.1 hcheck, by simp [ofTables], by simp [ofTables], fun i hi => ?_⟩
  obtain ⟨row, -, hrow⟩ := List.mem_map.1 hi
  obtain ⟨⟨image, j⟩, hfind, rfl⟩ := Option.map_eq_some_iff.1 hrow
  have hmem := List.mem_reverse.1 (List.mem_of_find?_eq_some hfind)
  simpa [ofTables] using List.snd_lt_of_mem_zipIdx hmem

/-- A type stands for a row that is there, unless it is one that the tables do not define. -/
def Has (s : Store) : Handle → Prop
  | .definition row => row < s.tables.definitions.length
  | .constructed entry => entry < s.tables.entries.length
  | .placeholder _ => True

variable {s : Store} {h target : Handle} {entry row : Nat}

theorem lt_of_rowOf? (hs : s.Checked) {name : String} (h : s.rowOf? name = some row) :
    row < s.tables.definitions.length := by
  rw [← hs.fullNames]
  exact (List.findIdx?_eq_some_iff_getElem.1 h).1

theorem found_row_of_entry (hs : s.Checked) (h : entry < s.tables.entries.length) :
    Found (s.rowOfEntry? entry) fun row? => ∀ row, row? = some row → row < s.tables.definitions.length := by
  unfold rowOfEntry?
  refine (found_getElem h).bind fun e he => ?_
  have hsound := hs.tables.entries e he
  revert hsound
  cases e.target with
  | definition row => exact fun hrow => found_some (by simpa [Tables.SoundTarget] using hrow)
  | constructed row arguments => exact fun hrow => found_some (by simpa [Tables.SoundTarget] using hrow.1)
  | nothing =>
    refine fun _ => found_some fun row hrow => ?_
    obtain ⟨name, -, hname⟩ := Option.bind_eq_some_iff.1 hrow
    exact lt_of_rowOf? hs hname

theorem found_fullNames (hs : s.Checked) (h : row < s.tables.definitions.length) :
    Found s.fullNames[row]? (· ∈ s.fullNames) :=
  found_getElem (hs.fullNames ▸ h)

theorem found_key_of_entry (hs : s.Checked) (limit : Nat) (h : entry < s.tables.entries.length) :
    Found (s.keyOfEntry? limit entry) fun _ => True := by
  induction limit generalizing entry with
  | zero =>
    unfold keyOfEntry?
    refine (found_getElem h).bind fun e he => ?_
    have hsound := hs.tables.entries e he
    revert hsound
    cases e.target with
    | definition row => exact fun hrow => (found_fullNames hs hrow).mono fun _ _ => trivial
    | constructed row arguments => exact fun hrow => (found_fullNames hs hrow.1).mono fun _ _ => trivial
    | nothing => exact fun _ => found_some trivial
  | succ limit ih =>
    unfold keyOfEntry?
    refine (found_getElem h).bind fun e he => ?_
    have hsound := hs.tables.entries e he
    revert hsound
    cases e.target with
    | definition row => exact fun hrow => (found_fullNames hs hrow).mono fun _ _ => trivial
    | constructed row arguments =>
      refine fun ⟨hrow, harguments⟩ => (found_fullNames hs hrow).bind fun name _ => ?_
      exact (found_mapM fun a ha => ih (harguments a ha)).bind fun keys _ => found_some trivial
    | nothing => exact fun _ => found_some trivial

theorem found_handleOf? (hs : s.Checked) (h : entry < s.tables.entries.length) :
    Found (s.handleOf? entry) s.Has := by
  unfold handleOf?
  refine (found_getElem h).bind fun e he => ?_
  have hsound := hs.tables.entries e he
  revert hsound
  cases e.target with
  | definition row => exact fun hrow => found_some hrow
  | constructed row arguments => exact fun _ => found_some h
  | nothing =>
    refine fun _ => (found_row_of_entry hs h).bind fun row? hrow? => ?_
    cases row? with
    | some row => exact found_some (hrow? row rfl)
    | none => exact found_some trivial

theorem found_handleAt? (hs : s.Checked) {n : Int} (h : isWithin n s.tables.entries.length = true) :
    Found (s.handleAt? n) fun h? => ∀ x, h? = some x → s.Has x := by
  unfold handleAt?
  cases hn : position? n with
  | none => exact found_some (by simp)
  | some entry =>
    refine (found_handleOf? hs (lt_of_isWithin h hn)).map fun x hx y hy => ?_
    exact Option.some.inj hy ▸ hx

theorem found_rowOfHandle? (hs : s.Checked) (h : s.Has target) :
    Found (s.rowOfHandle? target) fun row? => ∀ row, row? = some row → row < s.tables.definitions.length := by
  cases target with
  | definition row => exact found_some fun _ hrow => Option.some.inj hrow ▸ h
  | constructed entry => exact found_row_of_entry hs h
  | placeholder name => exact found_some (by simp)

theorem found_typeRow? (hs : s.Checked) (hh : s.Has h) :
    Found (s.typeRow? h) fun found? => ∀ row d, found? = some (row, d) →
      row < s.tables.definitions.length ∧ d ∈ s.tables.definitions := by
  unfold typeRow?
  refine (found_rowOfHandle? hs hh).bind fun row? hrow? => ?_
  cases row? with
  | none => exact found_some (by simp)
  | some row =>
    have hrow := hrow? row rfl
    refine (found_getElem hrow).bind fun d hd => found_some ?_
    rintro _ _ ⟨⟩
    exact ⟨hrow, hd⟩

theorem definitionHas_definition (s : Store) (p : TypeRow → Bool) (row : Nat) :
    s.definitionHas p (.definition row) = (s.tables.definitions[row]?).any p := by
  cases hd : s.tables.definitions[row]? <;> simp [definitionHas, typeRow?, rowOfHandle?, hd]

/-- A function of the definition behind a type finds something if it does so for each definition, and for no
definition. -/
theorem found_of_typeRow? {α : Type} {P : α → Prop} {f : Option (Nat × TypeRow) → Option α} (hs : s.Checked)
    (hh : s.Has h) (hnone : Found (f none) P)
    (hsome : ∀ row < s.tables.definitions.length, ∀ d ∈ s.tables.definitions, s.tables.SoundDefinition d →
      Found (f (some (row, d))) P) : Found (s.typeRow? h >>= f) P := by
  refine (found_typeRow? hs hh).bind fun found? hfound => ?_
  cases found? with
  | none => exact hnone
  | some found =>
    obtain ⟨hrow, hd⟩ := hfound found.1 found.2 rfl
    exact hsome found.1 hrow found.2 hd (hs.tables.definitions _ hd)

theorem found_fullName? (hs : s.Checked) (hh : s.Has h) : Found (s.fullName? h) fun _ => True := by
  cases h with
  | definition row => exact (found_fullNames hs hh).mono fun _ _ => trivial
  | constructed entry => exact found_key_of_entry hs chainLimit hh
  | placeholder name => exact found_some trivial

theorem found_arguments? (hs : s.Checked) (hh : s.Has h) :
    Found (s.arguments? h) fun types => ∀ x ∈ types, s.Has x := by
  cases h with
  | definition row => exact found_some (by simp)
  | placeholder name => exact found_some (by simp)
  | constructed entry =>
    refine (found_getElem hh).bind fun e he => ?_
    have hsound := hs.tables.entries e he
    revert hsound
    cases e.target with
    | definition row => exact fun _ => found_some (by simp)
    | nothing => exact fun _ => found_some (by simp)
    | constructed row arguments =>
      exact fun ⟨_, harguments⟩ =>
        (found_mapM fun a ha => found_handleOf? hs (harguments a ha)).mono fun _ hfound => hfound.1

theorem found_imageOf? (hs : s.Checked) (h : row < s.tables.definitions.length) :
    Found (s.imageOf? row) fun _ => True := by
  unfold imageOf?
  refine (found_getElem (hs.imageRows ▸ h)).bind fun index? hindex => ?_
  cases index? with
  | none => exact found_some trivial
  | some index => exact (found_getElem (hs.images index hindex)).bind fun _ _ => found_some trivial

theorem found_imageName? (hs : s.Checked) (hh : s.Has h) : Found (s.imageName? h) fun _ => True := by
  unfold imageName?
  refine (found_rowOfHandle? hs hh).bind fun row? hrow? => ?_
  cases row? with
  | none => exact found_some trivial
  | some row => exact (found_imageOf? hs (hrow? row rfl)).bind fun _ _ => found_some trivial

theorem found_linked? (hs : s.Checked) {link : TypeRow → Int}
    (hlink : ∀ d ∈ s.tables.definitions, isWithin (link d) s.tables.entries.length = true) (hh : s.Has h) :
    Found (s.linked? link h) fun x? => ∀ x, x? = some x → s.Has x := by
  unfold linked?
  refine found_of_typeRow? hs hh (found_some (by simp)) fun row _ d hd _ => ?_
  exact found_handleAt? hs (hlink d hd)

theorem found_nested? (hs : s.Checked) (hh : s.Has h) :
    Found (s.nested? h) fun types => ∀ x ∈ types, s.Has x := by
  unfold nested?
  refine found_of_typeRow? hs hh (found_some (by simp)) fun row _ d _ hd => ?_
  refine (Run.found_rows hd.nested).bind fun rows hrows => found_some ?_
  intro x hx
  obtain ⟨i, hi, rfl⟩ := List.mem_map.1 hx
  exact hs.tables.nested i (hrows.1 i hi)

/-! ## Bases and interfaces -/

theorem found_implements? (hs : s.Checked) {d : TypeRow} (hd : s.tables.SoundDefinition d) (target : Nat) :
    Found (s.implements? d target) fun _ => True := by
  unfold implements?
  refine (Run.found_rows hd.interfaces).bind fun entries hentries => ?_
  refine (found_mapM fun e he => found_row_of_entry hs (hs.tables.interfaces e (hentries.1 e he))).bind ?_
  exact fun rows _ => found_some trivial

theorem found_reaches? (hs : s.Checked) (target limit : Nat) (h : row < s.tables.definitions.length) :
    Found (s.reaches? target limit row) fun _ => True := by
  induction limit generalizing row with
  | zero => exact found_some trivial
  | succ limit ih =>
    unfold reaches?
    split
    · exact found_some trivial
    · refine (found_getElem h).bind fun d hd => ?_
      have hsound := hs.tables.definitions d hd
      refine (found_implements? hs hsound target).bind fun implemented _ => ?_
      split
      · exact found_some trivial
      · split
        · exact found_some trivial
        · rename_i parent hparent
          refine (found_row_of_entry hs (lt_of_isWithin hsound.parent hparent)).bind fun above? habove => ?_
          cases above? with
          | none => exact found_some trivial
          | some above => exact ih (habove above rfl)

theorem found_isAssignable? (hs : s.Checked) (hh : s.Has h) (htarget : s.Has target) :
    Found (s.isAssignable? h target) fun _ => True := by
  unfold isAssignable?
  split
  · exact found_some trivial
  · refine (found_rowOfHandle? hs htarget).bind fun target? _ => ?_
    refine (found_rowOfHandle? hs hh).bind fun row? hrow => ?_
    cases target? with
    | none => exact found_some trivial
    | some goal =>
      cases row? with
      | none => exact found_some trivial
      | some row => exact found_reaches? hs goal chainLimit (hrow row rfl)

/-! ## Attributes -/

/-- The types of attributes, if these can be read. -/
def typesIn {ρ : Type} : Attributes ρ → List ρ
  | .ok attributes => attributes.map (·.type)
  | .error _ => []

theorem mem_of_mapM_eq_ok {α β : Type} {f : α → Except Error β} {l : List α} {bs : List β}
    (h : l.mapM f = .ok bs) : ∀ b ∈ bs, ∃ a ∈ l, f a = .ok b := by
  induction l generalizing bs with
  | nil =>
    cases h
    simp
  | cons a rest ih =>
    rw [List.mapM_cons] at h
    cases ha : f a with
    | error e => simp [ha, bind, Except.bind] at h
    | ok b =>
      cases hrest : rest.mapM f with
      | error e => simp [ha, hrest, bind, Except.bind] at h
      | ok bs' =>
        simp only [ha, hrest, bind, Except.bind, pure, Except.pure, Except.ok.injEq] at h
        subst h
        intro c hc
        rcases List.mem_cons.1 hc with rfl | hc
        · exact ⟨a, by simp, ha⟩
        · obtain ⟨x, hx, hfx⟩ := ih hrest c hc
          exact ⟨x, by simp [hx], hfx⟩

/-- Attributes have types of the store if each attribute that is read has one. -/
theorem has_of_mapM {α : Type} {f : α → Except Error (Attribute Handle)} {l : List α}
    (hf : ∀ a ∈ l, ∀ b, f a = .ok b → s.Has b.type) :
    ∀ x ∈ typesIn (l.mapM f : Except Error (List (Attribute Handle))), s.Has x := by
  cases h : l.mapM f with
  | error e => simp [typesIn]
  | ok bs =>
    intro x hx
    obtain ⟨b, hb, rfl⟩ := List.mem_map.1 hx
    obtain ⟨a, ha, hab⟩ := mem_of_mapM_eq_ok h b hb
    exact hf a ha b hab

theorem found_typesOnly? (hs : s.Checked) {entries : List Nat}
    (h : ∀ e ∈ entries, e < s.tables.entries.length) :
    Found (s.typesOnly? entries) fun attributes => ∀ x ∈ typesIn attributes, s.Has x := by
  unfold typesOnly?
  have hrows : ∀ e ∈ entries, Found ((s.tables.entries[e]?).map (e, ·)) fun found => found.2 ∈ s.tables.entries :=
    fun e he => (found_getElem (h e he)).map fun _ hrow => hrow
  refine (found_mapM hrows).bind fun types htypes => found_some ?_
  refine has_of_mapM fun found hfound b hb => ?_
  have hsound := hs.tables.entries found.2 (htypes.1 found hfound)
  revert hb hsound
  dsimp only
  cases found.2.target with
  | definition row =>
    rintro ⟨⟩ hrow
    exact hrow
  | constructed row arguments => rintro ⟨⟩
  | nothing => rintro ⟨⟩

theorem found_ofAttributeRow? (hs : s.Checked) {r : AttributeRow} (hr : r ∈ s.tables.attributes) :
    Found (s.ofAttributeRow? r) fun attributes => ∀ x ∈ typesIn attributes, s.Has x := by
  unfold ofAttributeRow?
  refine (Run.found_rows (hs.tables.attributes r hr)).bind fun entries hentries => ?_
  exact found_typesOnly? hs fun e he => hs.tables.attributeTypes e (hentries.1 e he)

theorem found_enumTag? (hs : s.Checked) (index : Int) : Found (s.enumTag? index) fun _ => True := by
  unfold enumTag?
  dsimp only
  split
  · rename_i row hentry
    obtain ⟨i, -, hi⟩ := Option.bind_eq_some_iff.1 hentry
    have hrow : row < s.tables.definitions.length := hs.tables.entries _ (List.mem_of_getElem? hi)
    refine (found_getElem hrow).bind fun d hd => ?_
    split
    · exact found_some trivial
    · rename_i entry helement
      have hlt := lt_of_isWithin (hs.tables.definitions d hd).elementType helement
      exact (found_getElem hlt).bind fun _ _ => found_some trivial
  · exact found_some trivial

theorem has_of_ofBlob (hs : s.Checked) (bytes : List UInt8) : ∀ x ∈ typesIn (s.ofBlob bytes), s.Has x := by
  unfold ofBlob
  cases Blob.decode s.enumResolver bytes with
  | error e => simp [typesIn, bind, Except.bind]
  | ok decoded =>
    refine has_of_mapM fun a _ b hb => ?_
    unfold ofBlobAttribute at hb
    split at hb
    · rename_i constructor hconstructor
      cases hb
      exact (hs.tables.methods constructor (List.mem_of_getElem? hconstructor)).declaringType
    · cases hb

theorem found_ofBlobRow? (hs : s.Checked) (token : UInt32) (h : row < s.tables.blobs.length) :
    Found (s.ofBlobRow? token row) fun attributes => ∀ x ∈ typesIn attributes, s.Has x := by
  unfold ofBlobRow?
  refine (found_getElem h).bind fun b _ => ?_
  dsimp only
  split
  · exact found_some (by simp [typesIn])
  · exact found_some (has_of_ofBlob hs _)

theorem lt_of_placeOf? {tokens : List UInt32} {owner : Owner} {place : Nat}
    (h : placeOf? tokens owner = some place) : place < tokens.length := by
  obtain ⟨image, -, hplace⟩ := Option.bind_eq_some_iff.1 h
  exact lt_of_findToken hplace

theorem found_attributesOf? (hs : s.Checked) (owner : Owner) :
    Found (s.attributesOf? owner) fun attributes => ∀ x ∈ typesIn attributes, s.Has x := by
  have hnothing : ∀ x ∈ typesIn (.ok [] : Attributes Handle), s.Has x := by simp [typesIn]
  unfold attributesOf?
  cases s.layout with
  | dataBlobs =>
    dsimp only
    split
    · exact found_some hnothing
    · rename_i row hplace
      exact found_ofBlobRow? hs owner.token (by simpa using lt_of_placeOf? hplace)
  | directIndex =>
    dsimp only
    split
    · exact found_some hnothing
    · split
      · exact found_some (by simp [typesIn])
      · rename_i row hrow
        exact found_ofAttributeRow? hs (List.mem_of_getElem? hrow)
  | typeRanges =>
    dsimp only
    split
    · exact found_some hnothing
    · rename_i index hplace
      have hlt : index < s.tables.attributes.length := by simpa using lt_of_placeOf? hplace
      exact (found_getElem hlt).bind fun row hrow => found_ofAttributeRow? hs hrow

theorem found_attributes? (hs : s.Checked) (hh : s.Has h) :
    Found (s.attributes? h) fun attributes => ∀ x ∈ typesIn attributes, s.Has x := by
  unfold attributes?
  refine found_of_typeRow? hs hh (found_some (by simp [typesIn])) fun row hrow d _ _ => ?_
  exact (found_imageOf? hs hrow).bind fun image _ => found_attributesOf? hs _

/-! ## Members -/

/-- The types that a method tells of. -/
def typesOfMethod {ρ : Type} (m : Method ρ) : List ρ := m.returnType :: m.parameters ++ typesIn m.attributes

/-- The types that a property tells of, with those of its accessors. -/
def typesOfProperty {ρ : Type} (p : Property ρ) : List ρ :=
  p.type :: typesIn p.attributes ++ (p.getter.toList ++ p.setter.toList).flatMap typesOfMethod

theorem found_field? (hs : s.Checked) (howner : row < s.tables.definitions.length) {f : FieldRow}
    (hf : f ∈ s.tables.fields) :
    Found (s.field? row f) fun field => ∀ x ∈ typesIn field.attributes, s.Has x := by
  unfold field?
  refine (found_getElem (hs.tables.fields f hf)).bind fun e _ => ?_
  refine (found_imageOf? hs howner).bind fun image _ => ?_
  exact (found_attributesOf? hs _).bind fun attributes hattributes => found_some hattributes

theorem found_fields? (hs : s.Checked) (hh : s.Has h) :
    Found (s.fields? h) fun fields => ∀ f ∈ fields, ∀ x ∈ typesIn f.attributes, s.Has x := by
  unfold fields?
  refine found_of_typeRow? hs hh (found_some (by simp)) fun row hrow d _ hd => ?_
  refine (Run.found_rows hd.fields).bind fun rows hrows => ?_
  exact (found_mapM fun f hf => found_field? hs hrow (hrows.1 f hf)).mono fun _ hfound => hfound.1

theorem found_method? (hs : s.Checked) {m : MethodRow} (hm : m ∈ s.tables.methods) :
    Found (s.method? m) fun method => (∀ x ∈ typesOfMethod method, s.Has x) ∧
      method.parameters.length = m.parameters.count := by
  have hsound := hs.tables.methods m hm
  unfold method?
  refine (Run.found_rows hsound.parameters).bind fun rows hrows => ?_
  refine (found_handleOf? hs hsound.returnType).bind fun returned hreturned => ?_
  refine (found_mapM fun p hp => found_handleOf? hs (hs.tables.parameters p (hrows.1 p hp))).bind
    fun parameters hparameters => ?_
  refine (found_imageOf? hs hsound.declaringType).bind fun image _ => ?_
  refine (found_attributesOf? hs _).bind fun attributes hattributes => found_some ⟨?_, ?_⟩
  · intro x hx
    rcases List.mem_append.1 hx with hx | hx
    · rcases List.mem_cons.1 hx with rfl | hx
      · exact hreturned
      · exact hparameters.1 x hx
    · exact hattributes x hx
  · exact hparameters.2.trans hrows.2

theorem found_methods? (hs : s.Checked) (hh : s.Has h) :
    Found (s.methods? h) fun methods => ∀ m ∈ methods, ∀ x ∈ typesOfMethod m, s.Has x := by
  unfold methods?
  refine found_of_typeRow? hs hh (found_some (by simp)) fun row _ d _ hd => ?_
  refine (Run.found_rows hd.methods).bind fun rows hrows => ?_
  have hmethod : ∀ m ∈ rows, Found (s.method? m) fun method => ∀ x ∈ typesOfMethod method, s.Has x :=
    fun m hm => (found_method? hs (hrows.1 m hm)).mono fun _ hfound => hfound.1
  exact (found_mapM hmethod).mono fun _ hfound => hfound.1

/-- An accessor is a method of the definition; of one that is there the parameters are counted. -/
theorem found_accessor? (hs : s.Checked) {d : TypeRow} (hd : s.tables.SoundDefinition d) {n : Int}
    (hn : isWithin n d.methods.count = true) :
    Found (s.accessor? d n) fun method? => (∀ m, method? = some m → ∀ x ∈ typesOfMethod m, s.Has x) ∧
      (position? n = none ↔ method? = none) ∧
      ∀ offset m row, position? n = some offset → method? = some m →
        s.tables.methods[d.methods.start + offset]? = some row → m.parameters.length = row.parameters.count := by
  unfold accessor?
  cases hoffset : position? n with
  | none => exact found_some (by simp)
  | some offset =>
    have hcount := lt_of_isWithin hn hoffset
    have hrun : d.methods.start + d.methods.count ≤ s.tables.methods.length := by
      simpa [Run.isWithin] using hd.methods
    have hlt : d.methods.start + offset < s.tables.methods.length := by omega
    refine Found.bind ⟨_, List.getElem?_eq_getElem hlt, rfl⟩ fun row hrow => ?_
    subst hrow
    refine (found_method? hs (List.getElem_mem hlt)).bind fun m hm => found_some ⟨?_, by simp, ?_⟩
    · rintro _ ⟨⟩
      exact hm.1
    · rintro _ _ row ⟨⟩ ⟨⟩ hrow
      rw [List.getElem?_eq_getElem hlt, Option.some.injEq] at hrow
      exact hrow ▸ hm.2

theorem found_property? (hs : s.Checked) (howner : row < s.tables.definitions.length) {d : TypeRow}
    (hd : s.tables.SoundDefinition d) {p : PropertyRow} (hp : s.tables.SoundProperty d p) :
    Found (s.property? row d p) fun property => ∀ x ∈ typesOfProperty property, s.Has x := by
  unfold property?
  refine (found_accessor? hs hd hp.getter).bind fun getter hgetter => ?_
  refine (found_accessor? hs hd hp.setter).bind fun setter hsetter => ?_
  have hmethods : ∀ m ∈ getter.toList ++ setter.toList, ∀ x ∈ typesOfMethod m, s.Has x := by
    intro m hm
    rcases List.mem_append.1 hm with hm | hm
    · exact hgetter.1 m (Option.mem_toList.1 hm)
    · exact hsetter.1 m (Option.mem_toList.1 hm)
  -- Without a getter the check has seen a setter that takes a value, and that value has the type.
  have htype : Found (valueType? getter setter) s.Has := by
    cases getter with
    | some g => exact found_some (hgetter.1 g rfl _ (by simp [typesOfMethod]))
    | none =>
      obtain ⟨offset, m, hoffset, hm, hvalue⟩ := hp.value (hgetter.2.1.2 rfl)
      cases setter with
      | none => simp [hsetter.2.1.2 rfl] at hoffset
      | some set =>
        have hlength := hsetter.2.2 offset set m hoffset rfl hm
        cases hparameters : set.parameters with
        | nil => simp [hparameters] at hlength; omega
        | cons x rest =>
          exact ⟨x, by simp [valueType?, hparameters], hsetter.1 set rfl x (by simp [typesOfMethod, hparameters])⟩
  refine htype.bind fun type htype => ?_
  refine (found_imageOf? hs howner).bind fun image _ => ?_
  refine (found_attributesOf? hs _).bind fun attributes hattributes => found_some fun x hx => ?_
  rcases List.mem_append.1 hx with hx | hx
  · rcases List.mem_cons.1 hx with rfl | hx
    · exact htype
    · exact hattributes x hx
  · obtain ⟨m, hm, hx⟩ := List.mem_flatMap.1 hx
    exact hmethods m hm x hx

theorem found_properties? (hs : s.Checked) (hh : s.Has h) :
    Found (s.properties? h) fun properties => ∀ p ∈ properties, ∀ x ∈ typesOfProperty p, s.Has x := by
  unfold properties?
  refine found_of_typeRow? hs hh (found_some (by simp)) fun row hrow d _ hd => ?_
  obtain ⟨rows, hrows, -⟩ := Run.found_rows hd.properties
  dsimp only
  rw [hrows]
  exact (found_mapM fun p hp => found_property? hs hrow hd (hd.property rows hrows p hp)).mono
    fun _ hfound => hfound.1

end Store

end ProtoRecovery.Il2cpp
