import Mathlib
import ProtoRecovery.Proofs.Il2cpp.Access
/-!
# Accessors stay inside the tables

Starting from the types that a store lists or finds by name, accessors lead from type to type. Wherever they lead,
every accessor of the type that is met has an answer: no position that it follows is outside of a table.
-/

namespace ProtoRecovery.Il2cpp.Store

open Catalog (Pool)

/-- The types that the accessors of a type and of its members give. -/
def neighbours (s : Store) (pool : Pool Handle) (x : Handle) : List Handle :=
  (s.catalog.declaring? x).toList ++ (s.catalog.base? x).toList ++ s.catalog.arguments x ++ s.catalog.nested x ++
    typesIn (s.catalog.attributes x) ++ (s.catalog.fields x).flatMap (typesIn ·.attributes) ++
    ((s.catalog.methods x).run pool).1.flatMap typesOfMethod ++
    ((s.catalog.properties x).run pool).1.flatMap typesOfProperty

/-- A type that some sequence of accessor calls gives. -/
inductive Obtainable (s : Store) : Handle → Prop
  | loaded {x : Handle} (h : x ∈ s.catalog.loaded) : Obtainable s x
  | named {name : String} {x : Handle} (h : s.catalog.get? name = some x) : Obtainable s x
  | found {name assembly : String} {x : Handle} (h : s.catalog.find name assembly = .ok x) : Obtainable s x
  | next {pool : Pool Handle} {x y : Handle} (hx : Obtainable s x) (h : y ∈ s.neighbours pool x) : Obtainable s y

/-- Every accessor of a type has an answer. -/
structure Answered (s : Store) (x : Handle) : Prop where
  definition : (s.typeRow? x).isSome = true
  fullName : (s.fullName? x).isSome = true
  image : (s.imageName? x).isSome = true
  declaring : (s.linked? (·.declaringType) x).isSome = true
  base : (s.linked? (·.parent) x).isSome = true
  arguments : (s.arguments? x).isSome = true
  nested : (s.nested? x).isSome = true
  attributes : (s.attributes? x).isSome = true
  fields : (s.fields? x).isSome = true
  methods : (s.methods? x).isSome = true
  properties : (s.properties? x).isSome = true
  assignable : ∀ y, s.Obtainable y → (s.isAssignable? x y).isSome = true

/-- No position that is followed leads outside of a table, whatever is asked. -/
structure Closed (s : Store) : Prop where
  answered : ∀ x, s.Obtainable x → s.Answered x
  /-- A type that the pool has in place of another is no less obtainable. -/
  pooled : ∀ (pool : Pool Handle) x, (∀ entry ∈ pool, s.Obtainable entry.2) → s.Obtainable x →
    s.Obtainable (s.catalog.resolve x pool).1 ∧ ∀ entry ∈ (s.catalog.resolve x pool).2, s.Obtainable entry.2
  enumTag : ∀ index, (s.enumTag? index).isSome = true
  typeName : ∀ entry < s.tables.entries.length, (s.entryKey? entry).isSome = true
  outer : ∀ d ∈ s.tables.definitions, 0 ≤ d.declaringType → (s.tables.outer? d).isSome = true

variable {s : Store} {x y : Handle}

theorem Checked.declaringType (hs : s.Checked) :
    ∀ d ∈ s.tables.definitions, isWithin d.declaringType s.tables.entries.length = true :=
  fun d hd => (hs.tables.definitions d hd).declaringType

theorem Checked.parent (hs : s.Checked) :
    ∀ d ∈ s.tables.definitions, isWithin d.parent s.tables.entries.length = true :=
  fun d hd => (hs.tables.definitions d hd).parent

theorem has_of_neighbours (hs : s.Checked) {pool : Pool Handle} (hx : s.Has x) (h : y ∈ s.neighbours pool x) :
    s.Has y := by
  have hmethods := (found_methods? hs hx).getD []
  have hproperties := (found_properties? hs hx).getD []
  simp only [neighbours, List.mem_append] at h
  rcases h with ((((((h | h) | h) | h) | h) | h) | h) | h
  · exact (found_linked? hs hs.declaringType hx).getD none y (Option.mem_toList.1 h)
  · exact (found_linked? hs hs.parent hx).getD none y (Option.mem_toList.1 h)
  · exact (found_arguments? hs hx).getD [] y h
  · exact (found_nested? hs hx).getD [] y h
  · exact (found_attributes? hs hx).getD (.ok []) y h
  · obtain ⟨f, hf, h⟩ := List.mem_flatMap.1 h
    exact (found_fields? hs hx).getD [] f hf y h
  · obtain ⟨m, hm, h⟩ := List.mem_flatMap.1 h
    exact hmethods m hm y h
  · obtain ⟨p, hp, h⟩ := List.mem_flatMap.1 h
    exact hproperties p hp y h

/-- Accessors never lead out of a store. -/
theorem Obtainable.has (hs : s.Checked) (h : s.Obtainable x) : s.Has x := by
  induction h with
  | loaded h =>
    obtain ⟨row, hrow, rfl⟩ := List.mem_map.1 h
    exact List.mem_range.1 hrow
  | named h =>
    obtain ⟨row, hrow, rfl⟩ := Option.map_eq_some_iff.1 h
    exact lt_of_rowOf? hs hrow
  | @found name assembly x h =>
    simp only [catalog] at h
    split at h
    · rename_i row hrow
      cases h
      exact lt_of_rowOf? hs hrow
    · cases h
  | next _ h ih => exact has_of_neighbours hs ih h

theorem answered_of_has (hs : s.Checked) (hx : s.Has x) : s.Answered x where
  definition := (found_typeRow? hs hx).isSome
  fullName := (found_fullName? hs hx).isSome
  image := (found_imageName? hs hx).isSome
  declaring := (found_linked? hs hs.declaringType hx).isSome
  base := (found_linked? hs hs.parent hx).isSome
  arguments := (found_arguments? hs hx).isSome
  nested := (found_nested? hs hx).isSome
  attributes := (found_attributes? hs hx).isSome
  fields := (found_fields? hs hx).isSome
  methods := (found_methods? hs hx).isSome
  properties := (found_properties? hs hx).isSome
  assignable _ hy := (found_isAssignable? hs hx (hy.has hs)).isSome

theorem obtainable_resolve {pool : Pool Handle} (hpool : ∀ entry ∈ pool, s.Obtainable entry.2)
    (hx : s.Obtainable x) : s.Obtainable (s.catalog.resolve x pool).1 ∧
      ∀ entry ∈ (s.catalog.resolve x pool).2, s.Obtainable entry.2 := by
  unfold Catalog.resolve
  split
  · exact ⟨hx, hpool⟩
  · split
    · rename_i key hkey _ first hfirst
      obtain ⟨l₁, l₂, rfl, -⟩ := List.lookup_eq_some_iff.1 hfirst
      exact ⟨hpool (key, first) (by simp), hpool⟩
    · refine ⟨hx, fun entry hentry => ?_⟩
      rcases List.mem_cons.1 hentry with rfl | hentry
      · exact hx
      · exact hpool entry hentry

/-- The class around a nested one is a definition. -/
theorem found_outer? (hs : s.Checked) {d : TypeRow} (hd : d ∈ s.tables.definitions) (h : 0 ≤ d.declaringType) :
    Found (s.tables.outer? d) fun _ => True := by
  have hsound := hs.tables.definitions d hd
  have hposition : position? d.declaringType = some d.declaringType.toNat := by
    rw [position?, if_neg (by omega)]
  have hclass := hsound.declaringClass _ hposition
  have hlt := lt_of_isWithin hsound.declaringType hposition
  unfold Tables.outer?
  unfold Tables.isDefinition at hclass
  rw [hposition]
  refine Found.bind (found_some rfl) ?_
  rintro _ rfl
  rw [List.getElem?_eq_getElem hlt] at hclass ⊢
  refine Found.bind (found_some rfl) ?_
  rintro _ rfl
  have hentry := hs.tables.entries _ (List.getElem_mem hlt)
  revert hclass hentry
  generalize s.tables.entries[d.declaringType.toNat] = e
  obtain ⟨code, flags, target⟩ := e
  cases target with
  | definition row => exact fun _ hrow => (found_getElem hrow).mono fun _ _ => trivial
  | constructed row arguments => rintro ⟨⟩
  | nothing => rintro ⟨⟩

/-- A store whose tables passed the check follows no position outside of a table. -/
theorem closed_of_load {t : Tables} {s : Store} (h : load t = .ok s) : s.Closed where
  answered _ hx := answered_of_has (checked_of_load h) (hx.has (checked_of_load h))
  pooled _ _ hpool hx := obtainable_resolve hpool hx
  enumTag index := (found_enumTag? (checked_of_load h) index).isSome
  typeName _ hentry := (found_key_of_entry (checked_of_load h) chainLimit hentry).isSome
  outer _ hd hclass := (found_outer? (checked_of_load h) hd hclass).isSome

/-- A generic class with a nested class and a property that can only be set, to lists of the class itself; its
blob holds one attribute whose argument is that list type. -/
def boxTables : Tables where
  version := .ofInt 29
  images := [⟨"Shop.dll", ⟨0, 3⟩, ⟨0, 1⟩⟩]
  definitions := [
    { name := "Box", namespaceName := "Shop", parent := 1, methods := ⟨0, 1⟩, properties := ⟨0, 1⟩,
      nested := ⟨0, 1⟩, interfaces := ⟨0, 1⟩, token := 7 },
    { name := "List", namespaceName := "Shop" },
    { name := "Lid", declaringType := 0, methods := ⟨1, 1⟩ }]
  methods := [
    { name := "set_Items", declaringType := 0, returnType := 3, parameters := ⟨0, 1⟩ },
    { name := ".ctor", declaringType := 2, returnType := 3 }]
  parameters := [⟨"value", 2⟩]
  properties := [{ name := "Items", setter := 0 }]
  nested := [2]
  interfaces := [2]
  blobs := [⟨7, 0⟩]
  blobData := [1, 1, 0, 0, 0, 1, 0, 0, 0xFF, 4]
  entries := [⟨0x12, 0, .definition 0⟩, ⟨0x12, 0, .definition 1⟩, ⟨0x15, 0, .constructed 1 [0]⟩, ⟨0x01, 0, .nothing⟩]

theorem closed_boxTables : ∃ s, load boxTables = .ok s ∧ s.Obtainable (.constructed 2) ∧
    s.Obtainable (.definition 2) ∧ s.Closed := by
  let s : Store := .ofTables boxTables
  have hload : load boxTables = .ok s := rfl
  have hbox : s.Obtainable (.definition 0) := .loaded (by decide)
  have hitems : .constructed 2 ∈ s.neighbours [] (.definition 0) := by decide +kernel
  have hlid : .definition 2 ∈ s.neighbours [] (.definition 0) := by decide +kernel
  exact ⟨s, hload, hbox.next hitems, hbox.next hlid, closed_of_load hload⟩

end ProtoRecovery.Il2cpp.Store
