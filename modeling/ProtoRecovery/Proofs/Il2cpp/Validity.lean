import Mathlib
import ProtoRecovery.Il2cpp.Validity
/-!
# What the check of tables establishes

`Tables.check` stops at the first reference that leads nowhere. `Tables.Sound` says the same without an order:
every reference that the check looks at leads to a row. The check passes just when the tables are sound.
-/

namespace ProtoRecovery.Il2cpp

variable {α : Type}

/-! ## Checks that pass -/

@[simp] theorem ensure_eq_ok {b : Bool} {fault : MetadataFault} : ensure b fault = .ok () ↔ b = true := by
  unfold ensure
  cases b <;> simp

theorem andThen_eq_ok {x y : Except Error Unit} : (do x; y) = .ok () ↔ x = .ok () ∧ y = .ok () := by
  cases x with
  | error e => simp [bind, Except.bind]
  | ok u => simp [bind, Except.bind]

theorem forM_eq_ok {l : List α} {f : α → Except Error Unit} : l.forM f = .ok () ↔ ∀ a ∈ l, f a = .ok () := by
  induction l with
  | nil => simp [pure, Except.pure]
  | cons a rest ih =>
    rw [show (a :: rest).forM f = (do f a; rest.forM f) from rfl, andThen_eq_ok, ih]
    simp

theorem checkRows_eq_ok {check : Nat → α → Except Error Unit} {table : List α} :
    Tables.checkRows check table = .ok () ↔ ∀ i a, table[i]? = some a → check i a = .ok () := by
  unfold Tables.checkRows
  rw [forM_eq_ok]
  simp only [List.mem_mapIdx, id_eq]
  constructor
  · intro h i a ha
    obtain ⟨hi, rfl⟩ := List.getElem?_eq_some_iff.1 ha
    exact h _ ⟨i, hi, rfl⟩
  · rintro h _ ⟨i, hi, rfl⟩
    exact h i _ (List.getElem?_eq_getElem hi)

/-- For a check that does not care for positions, a table is a list of rows. -/
theorem forall_getElem?_iff {table : List α} {P : α → Prop} :
    (∀ (i : Nat) a, table[i]? = some a → P a) ↔ ∀ a ∈ table, P a := by
  constructor
  · intro h a ha
    obtain ⟨i, hi⟩ := List.mem_iff_getElem?.1 ha
    exact h i a hi
  · exact fun h i a ha => h a (List.mem_of_getElem? ha)

/-! ## Sound tables -/

namespace Tables
variable (t : Tables)

/-- What a type entry refers to is there. -/
def SoundTarget : EntryTarget → Prop
  | .definition row => row < t.definitions.length
  | .constructed row arguments => row < t.definitions.length ∧ ∀ a ∈ arguments, a < t.entries.length
  | .nothing => True

/-- A property has an accessor, its accessors are methods of its type, and one without a getter has a setter that
takes a value. -/
structure SoundProperty (d : TypeRow) (p : PropertyRow) : Prop where
  getter : isWithin p.getter d.methods.count = true
  setter : isWithin p.setter d.methods.count = true
  value : position? p.getter = none → ∃ n m, position? p.setter = some n ∧
    t.methods[d.methods.start + n]? = some m ∧ 0 < m.parameters.count

/-- Whatever a definition refers to is there. -/
structure SoundDefinition (d : TypeRow) : Prop where
  declaringType : isWithin d.declaringType t.entries.length = true
  parent : isWithin d.parent t.entries.length = true
  elementType : isWithin d.elementType t.entries.length = true
  declaringClass : ∀ entry, position? d.declaringType = some entry → t.isDefinition entry = true
  fields : d.fields.isWithin t.fields.length = true
  methods : d.methods.isWithin t.methods.length = true
  properties : d.properties.isWithin t.properties.length = true
  nested : d.nested.isWithin t.nested.length = true
  interfaces : d.interfaces.isWithin t.interfaces.length = true
  property : ∀ ps, d.properties.rows? t.properties = some ps → ∀ p ∈ ps, t.SoundProperty d p

/-- Whatever a method refers to is there. -/
structure SoundMethod (m : MethodRow) : Prop where
  declaringType : m.declaringType < t.definitions.length
  returnType : m.returnType < t.entries.length
  parameters : m.parameters.isWithin t.parameters.length = true

/-- Every reference leads to a row. -/
structure Sound : Prop where
  images : ∀ i ∈ t.images, i.types.isWithin t.definitions.length = true
  entries : ∀ e ∈ t.entries, t.SoundTarget e.target
  definitions : ∀ d ∈ t.definitions, t.SoundDefinition d
  fields : ∀ f ∈ t.fields, f.type < t.entries.length
  methods : ∀ m ∈ t.methods, t.SoundMethod m
  parameters : ∀ p ∈ t.parameters, p.type < t.entries.length
  nested : ∀ row ∈ t.nested, row < t.definitions.length
  interfaces : ∀ entry ∈ t.interfaces, entry < t.entries.length
  attributeTypes : ∀ entry ∈ t.attributeTypes, entry < t.entries.length
  attributes : ∀ a ∈ t.attributes, a.types.isWithin t.attributeTypes.length = true
  blobs : ∀ b ∈ t.blobs, b.start.toNat ≤ t.blobData.length

variable {t}

theorem checkEntry_eq_ok {i : Nat} {e : TypeEntry} : t.checkEntry i e = .ok () ↔ t.SoundTarget e.target := by
  unfold checkEntry
  cases e.target with
  | definition row => simp [SoundTarget]
  | constructed row arguments => simp [SoundTarget, andThen_eq_ok]
  | nothing => simp [SoundTarget]

theorem checkProperty_eq_ok {d : TypeRow} {p : PropertyRow} :
    t.checkProperty d p = .ok () ↔ t.SoundProperty d p := by
  have haccessors : t.checkProperty d p = .ok () ↔ isWithin p.getter d.methods.count = true ∧
      isWithin p.setter d.methods.count = true ∧ (position? p.getter = none → ∃ n m,
        position? p.setter = some n ∧ t.methods[d.methods.start + n]? = some m ∧ 0 < m.parameters.count) := by
    unfold checkProperty
    rw [andThen_eq_ok, andThen_eq_ok, ensure_eq_ok, ensure_eq_ok]
    refine and_congr_right fun _ => and_congr_right fun _ => ?_
    cases position? p.getter with
    | some g => simp [pure, Except.pure]
    | none =>
      cases position? p.setter with
      | some n => simp [Option.any_eq_true]
      | none => simp
  rw [haccessors]
  exact ⟨fun ⟨hg, hs, hv⟩ => ⟨hg, hs, hv⟩, fun h => ⟨h.getter, h.setter, h.value⟩⟩

theorem checkDefinition_eq_ok {i : Nat} {d : TypeRow} :
    t.checkDefinition i d = .ok () ↔ t.SoundDefinition d := by
  have hclass : (position? d.declaringType).all t.isDefinition = true ↔
      ∀ entry, position? d.declaringType = some entry → t.isDefinition entry = true := by
    simp [Option.all_eq_true]
  have hproperty : ((d.properties.rows? t.properties).getD []).forM (t.checkProperty d) = .ok () ↔
      ∀ ps, d.properties.rows? t.properties = some ps → ∀ p ∈ ps, t.SoundProperty d p := by
    rw [forM_eq_ok]
    cases d.properties.rows? t.properties <;> simp [checkProperty_eq_ok]
  unfold checkDefinition
  simp only [andThen_eq_ok, ensure_eq_ok, hclass, hproperty]
  constructor
  · rintro ⟨h₁, h₂, h₃, h₄, h₅, h₆, h₇, h₈, h₉, h₁₀⟩
    exact ⟨h₁, h₂, h₃, h₄, h₅, h₆, h₇, h₈, h₉, h₁₀⟩
  · rintro ⟨h₁, h₂, h₃, h₄, h₅, h₆, h₇, h₈, h₉, h₁₀⟩
    exact ⟨h₁, h₂, h₃, h₄, h₅, h₆, h₇, h₈, h₉, h₁₀⟩

theorem checkMethod_eq_ok {m : MethodRow} : t.checkMethod m = .ok () ↔ t.SoundMethod m := by
  unfold checkMethod
  simp only [andThen_eq_ok, ensure_eq_ok, decide_eq_true_eq]
  exact ⟨fun ⟨hd, hr, hp⟩ => ⟨hd, hr, hp⟩, fun h => ⟨h.declaringType, h.returnType, h.parameters⟩⟩

/-- The check passes just when every reference leads to a row. -/
theorem check_eq_ok : t.check = .ok () ↔ t.Sound := by
  unfold check
  simp only [andThen_eq_ok, checkRows_eq_ok, forM_eq_ok, checkImage, checkField, checkEntry_eq_ok,
    checkDefinition_eq_ok, checkMethod_eq_ok, ensure_eq_ok, forall_getElem?_iff, List.all_eq_true,
    decide_eq_true_eq]
  constructor
  · rintro ⟨h₁, h₂, h₃, h₄, h₅, h₆, h₇, h₈, h₉, h₁₀, h₁₁⟩
    exact ⟨h₁, h₂, h₃, h₄, h₅, h₆, h₇, h₈, h₉, h₁₀, h₁₁⟩
  · rintro ⟨h₁, h₂, h₃, h₄, h₅, h₆, h₇, h₈, h₉, h₁₀, h₁₁⟩
    exact ⟨h₁, h₂, h₃, h₄, h₅, h₆, h₇, h₈, h₉, h₁₀, h₁₁⟩

end Tables

end ProtoRecovery.Il2cpp
