import ProtoRecovery.Proofs.Managed.Key
import ProtoRecovery.Proofs.Recovery.Kin
/-!
# What the records of a library hold

Every type that a question about a library can lead to comes from its records: a definition is known by a name, it is
declared in a type, and it refers to types in its members and attributes. A condition that all of these satisfy is
satisfied by whatever an answer holds.
-/

namespace ProtoRecovery.Managed

open Catalog (Attributes Look Method Pool Property)
open Recovery (Agree Readable agree_pure agree_bind)

/-- The types of all attributes in a definition. -/
def Definition.attributeTypes (d : Definition) : List String :=
  (d.attributes ++ d.fields.flatMap (·.attributes) ++ d.methods.flatMap (·.attributes) ++
    d.properties.flatMap (·.attributes)).map (·.type)

/-- A condition that holds of all types in the records of a library. -/
structure Library.Admits (lib : Library) (P : TypeRef → Prop) : Prop where
  entry : ∀ e ∈ lib.entries, P (.named e.fullName)
  around : ∀ e ∈ lib.entries, ∀ outer ∈ e.definition.declaringType, P (.named outer)
  reference : ∀ r ∈ lib.references, P r
  mark : ∀ e ∈ lib.entries, ∀ name ∈ e.definition.attributeTypes, P (.named name)

variable {lib : Library} {P : TypeRef → Prop}

theorem exists_entry_of_definition {t : TypeRef} {d : Definition} (h : lib.definitionOf? t = some d) :
    ∃ e ∈ lib.entries, e.fullName = t.name ∧ e.definition = d := by
  obtain ⟨e, he, rfl⟩ := Option.map_eq_some_iff.1 h
  exact ⟨e, List.mem_of_find?_eq_some he, by simpa using List.find?_some he, rfl⟩

theorem readable_attributesOf {records : List AttributeRecord} (h : ∀ a ∈ records, P (.named a.type)) :
    Readable P (Library.attributesOf records) := by
  refine ⟨_, rfl, fun a ha => ?_⟩
  obtain ⟨record, hrecord, rfl⟩ := List.mem_map.1 ha
  exact h record hrecord

/-- The properties that a type has of itself. -/
def Library.ownProperties (lib : Library) (t : TypeRef) : List (Property TypeRef) :=
  ((lib.definitionOf? t).map (Library.propertiesOf false)).getD []

theorem mem_references_of_property {e : Located} (he : e ∈ lib.entries) {isInherited : Bool} {p : Property TypeRef}
    (hp : p ∈ Library.propertiesOf isInherited e.definition) : p.type ∈ lib.references := by
  obtain ⟨record, hrecord, rfl⟩ := List.mem_map.1 hp
  refine List.mem_flatMap.2 ⟨e, he, ?_⟩
  have : record.type ∈ e.definition.properties.map (·.type) := List.mem_map_of_mem hrecord
  simp [Definition.references, Library.propertyOf, this]

theorem mem_references_of_method {d : Definition} {x : MethodRecord} {r : TypeRef} (hx : x ∈ d.methods)
    (hr : r ∈ x.returnType :: x.parameters) : r ∈ d.references := by
  have : r ∈ d.methods.flatMap fun m => m.returnType :: m.parameters := List.mem_flatMap.2 ⟨x, hx, hr⟩
  simp only [Definition.references, List.mem_append]
  exact .inl (.inr this)

theorem mem_attributeTypes_of_method {d : Definition} {x : MethodRecord} (hx : x ∈ d.methods) {a : AttributeRecord}
    (ha : a ∈ x.attributes) : a.type ∈ d.attributeTypes := by
  have : a ∈ d.methods.flatMap (·.attributes) := List.mem_flatMap.2 ⟨x, hx, ha⟩
  refine List.mem_map_of_mem ?_
  simp only [List.mem_append]
  exact .inl (.inr this)

theorem exists_entry_of_ownProperty {t : TypeRef} {p : Property TypeRef} (hp : p ∈ lib.ownProperties t) :
    ∃ e ∈ lib.entries, p ∈ Library.propertiesOf false e.definition := by
  unfold Library.ownProperties at hp
  cases hd : lib.definitionOf? t with
  | none => simp [hd] at hp
  | some d =>
    obtain ⟨e, he, -, rfl⟩ := exists_entry_of_definition hd
    exact ⟨e, he, by simpa [hd] using hp⟩

section Admits
variable (h : lib.Admits P)
include h

theorem Library.Admits.declaring {t r : TypeRef} (hr : lib.catalog.declaring? t = some r) : P r := by
  have hr : ((lib.definitionOf? t).bind (·.declaringType)).map TypeRef.named = some r := hr
  simp only [Option.map_eq_some_iff, Option.bind_eq_some_iff] at hr
  obtain ⟨outer, ⟨d, hd, houter⟩, rfl⟩ := hr
  obtain ⟨e, he, -, rfl⟩ := exists_entry_of_definition hd
  exact h.around e he outer houter

theorem Library.Admits.base {e : Located} (he : e ∈ lib.entries) {r : TypeRef} (hr : r ∈ e.definition.baseType) :
    P r := by
  apply h.reference
  refine List.mem_flatMap.2 ⟨e, he, ?_⟩
  simp [Definition.references, Option.mem_def.1 hr]

theorem Library.Admits.attributes (t : TypeRef) : Readable P (lib.catalog.attributes t) := by
  show Readable P (((lib.definitionOf? t).map fun d => Library.attributesOf d.attributes).getD (.ok []))
  cases hd : lib.definitionOf? t with
  | none => exact ⟨[], rfl, by simp⟩
  | some d =>
    obtain ⟨e, he, -, rfl⟩ := exists_entry_of_definition hd
    refine readable_attributesOf fun a ha => h.mark e he a.type (List.mem_map_of_mem ?_)
    simp [ha]

theorem Library.Admits.field {t : TypeRef} {f : Catalog.Field TypeRef} (hf : f ∈ lib.catalog.fields t) :
    Readable P f.attributes := by
  have hf : f ∈ ((lib.definitionOf? t).map fun d => d.fields.map Library.fieldOf).getD [] := hf
  cases hd : lib.definitionOf? t with
  | none => simp [hd] at hf
  | some d =>
    obtain ⟨e, he, -, rfl⟩ := exists_entry_of_definition hd
    simp only [hd, Option.map_some, Option.getD_some, List.mem_map] at hf
    obtain ⟨record, hrecord, rfl⟩ := hf
    refine readable_attributesOf fun a ha => h.mark e he a.type (List.mem_map_of_mem ?_)
    have : a ∈ e.definition.fields.flatMap (·.attributes) := List.mem_flatMap.2 ⟨record, hrecord, ha⟩
    simp [this]

theorem Library.Admits.property {e : Located} (he : e ∈ lib.entries) {isInherited : Bool} {p : Property TypeRef}
    (hp : p ∈ Library.propertiesOf isInherited e.definition) : P p.type ∧ Readable P p.attributes := by
  refine ⟨h.reference _ (mem_references_of_property he hp), ?_⟩
  obtain ⟨record, hrecord, rfl⟩ := List.mem_map.1 hp
  refine readable_attributesOf fun a ha => h.mark e he a.type (List.mem_map_of_mem ?_)
  have : a ∈ e.definition.properties.flatMap (·.attributes) := List.mem_flatMap.2 ⟨record, hrecord, ha⟩
  simp [this]

theorem Library.Admits.method {e : Located} (he : e ∈ lib.entries) {isInherited : Bool} {m : Method TypeRef}
    (hm : m ∈ Library.methodsOf isInherited e.definition) :
    P m.returnType ∧ (∀ r ∈ m.parameters, P r) ∧ Readable P m.attributes := by
  obtain ⟨record, hrecord, rfl⟩ := List.mem_map.1 hm
  have hrecord := List.mem_of_mem_filter hrecord
  have href : ∀ r ∈ record.returnType :: record.parameters, P r := fun r hr =>
    h.reference r (List.mem_flatMap.2 ⟨e, he, mem_references_of_method hrecord hr⟩)
  refine ⟨href _ (by simp [Library.methodOf]), fun r hr => href r (List.mem_cons_of_mem _ hr), ?_⟩
  exact readable_attributesOf fun a ha => h.mark e he a.type (mem_attributeTypes_of_method hrecord ha)

theorem Library.Admits.ownProperty {t : TypeRef} {p : Property TypeRef} (hp : p ∈ lib.ownProperties t) :
    P p.type ∧ Readable P p.attributes := by
  obtain ⟨e, he, hp⟩ := exists_entry_of_ownProperty hp
  exact h.property he hp

/-! ## Chains of bases -/

variable {near : Pool TypeRef → Pool TypeRef → Prop} (hr : ∀ r, P r → Agree near (lib.catalog.resolve r) P)
include hr

theorem agree_basesOf (limit : Nat) (t : TypeRef) :
    Agree near (lib.basesOf limit t) fun ds => ∀ d ∈ ds, ∃ e ∈ lib.entries, e.definition = d := by
  induction limit generalizing t with
  | zero => exact agree_pure (by simp)
  | succ limit ih =>
    have hbase : Agree near (lib.simpleCatalog.baseOf? t) fun _ => True := by
      unfold Catalog.baseOf?
      cases hb : lib.simpleCatalog.base? t with
      | none => exact agree_pure trivial
      | some base =>
        have hb : ((lib.definitionOf? t).bind (·.baseType)) = some base := hb
        obtain ⟨d, hd, hbase⟩ := Option.bind_eq_some_iff.1 hb
        obtain ⟨e, he, -, rfl⟩ := exists_entry_of_definition hd
        have hresolve : Agree near (lib.simpleCatalog.resolve base) P := hr base (h.base he hbase)
        exact agree_bind hresolve fun _ _ => agree_pure trivial
    refine agree_bind hbase fun o _ => ?_
    cases o with
    | none => exact agree_pure (by simp)
    | some base =>
      dsimp only
      split
      · exact agree_pure (by simp)
      · rename_i d hd
        refine agree_bind (ih base) fun ds hds => agree_pure ?_
        obtain ⟨e, he, -, rfl⟩ := exists_entry_of_definition hd
        exact List.forall_mem_cons.2 ⟨⟨e, he, rfl⟩, hds⟩

/-- What is collected along the bases of a type comes from definitions of the library. -/
theorem agree_collect {α : Type} {members : Bool → Definition → List α} {Q : α → Prop}
    (hmembers : ∀ e ∈ lib.entries, ∀ isInherited, ∀ x ∈ members isInherited e.definition, Q x) (t : TypeRef) :
    Agree near (lib.collect members t) fun xs => ∀ x ∈ xs, Q x := by
  refine agree_bind (agree_basesOf h hr _ t) fun bases hbases => agree_pure fun x hx => ?_
  rcases List.mem_append.1 hx with hx | hx
  · cases hd : lib.definitionOf? t with
    | none => simp [hd] at hx
    | some d =>
      obtain ⟨e, he, -, rfl⟩ := exists_entry_of_definition hd
      exact hmembers e he false x (by simpa [hd] using hx)
  · obtain ⟨d, hd, hx⟩ := List.mem_flatMap.1 hx
    obtain ⟨e, he, rfl⟩ := hbases d hd
    exact hmembers e he true x hx

end Admits

end ProtoRecovery.Managed
