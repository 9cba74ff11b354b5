import ProtoRecovery.Proofs.Managed.Generated
import ProtoRecovery.Proofs.Managed.Key
/-!
# A generated class on its own

The library of one generated class with fields of plain types: scalars, well-known types and collections of
them. Unless the class is called like one of these collections, no two references in it share a key, and every
name leads where the generator meant it to.
-/

namespace ProtoRecovery.Managed

open Schema (FieldType Scalar WellKnown)

namespace Generated

/-- What references to plain types mean. -/
inductive Denotes : TypeRef → FieldType → Prop
  | scalar {name : String} {k : Scalar} (h : (name, k) ∈ Scalar.classes) : Denotes (.named name) (.scalar k)
  | wellKnown {simple file : String} (h : (simple, file) ∈ WellKnown.names) :
    Denotes (.named ("Google.Protobuf.WellKnownTypes." ++ simple))
      (.wellKnown ⟨"google.protobuf." ++ simple, "google/protobuf/" ++ file ++ ".proto"⟩)
  | repeated {r : TypeRef} {t : FieldType} (hr : Denotes r t) :
    Denotes ⟨"Google.Protobuf.Collections.RepeatedField\x601", [r]⟩ (.repeated t)
  | map {r q : TypeRef} {t u : FieldType} (hr : Denotes r t) (hq : Denotes q u) :
    Denotes ⟨"Google.Protobuf.Collections.MapField\x602", [r, q]⟩ (.map t u)

/-- Names that no key and no enum of a choice can be taken for. -/
def PlainName (name : String) : Prop := Unbracketed name ∧ ¬"OneofCase".toList <:+ name.toList

instance (name : String) : Decidable (PlainName name) := inferInstanceAs (Decidable (_ ∧ _))

theorem plainName_scalar : ∀ x ∈ Scalar.classes, PlainName x.1 := by decide +kernel

theorem plainName_wellKnown :
    ∀ x ∈ WellKnown.names, PlainName ("Google.Protobuf.WellKnownTypes." ++ x.1) := by
  have hsimple : ∀ x ∈ WellKnown.names,
      Unbracketed x.1 ∧ 2 ≤ x.1.toList.length ∧ ¬['s', 'e'] <:+ x.1.toList := by decide +kernel
  have hspace : Unbracketed "Google.Protobuf.WellKnownTypes." := by decide +kernel
  intro x hx
  obtain ⟨hname, hlength, hend⟩ := hsimple x hx
  unfold PlainName Unbracketed
  rw [String.toList_append]
  refine ⟨fun c hc => ?_, fun h => hend ?_⟩
  · rcases List.mem_append.1 hc with hc | hc
    · exact hspace c hc
    · exact hname c hc
  · -- Two letters tell a well-known name from that of an enum for a choice.
    have hse : ['s', 'e'] <:+ "OneofCase".toList := ⟨"OneofCa".toList, rfl⟩
    exact List.suffix_of_suffix_length_le (hse.trans h) (List.suffix_append ..) hlength

/-- The classes of lists and maps. -/
def collections : List String :=
  ["Google.Protobuf.Collections.RepeatedField\x601", "Google.Protobuf.Collections.MapField\x602"]

theorem plainName_collection : ∀ name ∈ collections, PlainName name := by decide +kernel

/-- Plain names all through a reference. -/
def PlainNames (r : TypeRef) : Prop := ∀ x : TypeRef, x.Within r → PlainName x.name

theorem plainNames_mk {name : String} {args : List TypeRef} (hname : PlainName name)
    (hargs : ∀ r ∈ args, PlainNames r) : PlainNames ⟨name, args⟩ := by
  intro x hx
  cases hx with
  | refl => exact hname
  | arg h hr => exact hargs _ h x hr

theorem Denotes.plainNames {r : TypeRef} {t : FieldType} (h : Denotes r t) : PlainNames r := by
  induction h with
  | @scalar name k h => exact plainNames_mk (plainName_scalar (name, k) h) (by simp)
  | @wellKnown simple file h => exact plainNames_mk (plainName_wellKnown (simple, file) h) (by simp)
  | repeated _ ih => exact plainNames_mk (plainName_collection _ (by simp [collections])) (by simpa using ih)
  | map _ _ ihr ihq =>
    exact plainNames_mk (plainName_collection _ (by simp [collections])) (by simpa using ⟨ihr, ihq⟩)

theorem spelled_of_plainNames : (r : TypeRef) → PlainNames r → r.Spelled
  | ⟨_, args⟩, h => .mk (h _ .refl).1 fun a ha => spelled_of_plainNames a fun x hx => h x (.arg ha hx)

/-! ## The references of a class -/

/-- The references that are met when the class is recovered. -/
inductive Message.Uses (m : Message) : TypeRef → Prop
  | itself : Uses m (.named m.fullName)
  | choice {c : Choice} (h : c ∈ choices m.items) : Uses m (c.enumType m.fullName)
  | outside {name : String}
    (h : name ∈ ["System.Object", "System.Enum", "System.Boolean", Recovery.nonUserCodeAttribute]) :
    Uses m (.named name)
  | field {f : Field} {r : TypeRef} (hf : f ∈ fields m.items) (hr : r.Within f.type) : Uses m r

/-- The class is not called like a collection that one of its fields is made of. -/
def Message.Distinguished (m : Message) : Prop :=
  ∀ f ∈ fields m.items, ∀ r : TypeRef, r.Within f.type → r.args ≠ [] → r.key ≠ m.fullName

/-- Only a class with a bracket in its name can be called like a collection. -/
theorem Message.distinguished_of_unbracketed {m : Message} (h : Unbracketed m.fullName) : m.Distinguished := by
  rintro - - ⟨name, _ | ⟨arg, rest⟩⟩ - hargs hkey
  · exact hargs rfl
  · have hbracket : '[' ∈ m.fullName.toList := by
      rw [← hkey, TypeRef.toList_key_cons]
      simp
    exact absurd (h _ hbracket) (by decide)

theorem eq_of_key_of_args {r t : TypeRef} (hr : r.args = []) (ht : t.args = []) (h : r.key = t.key) : r = t := by
  obtain ⟨n, as⟩ := r
  obtain ⟨k, bs⟩ := t
  cases hr
  cases ht
  exact congrArg TypeRef.named h

/-- A key with arguments ends in a bracket, and so is no name of an enum for a choice. -/
theorem key_ne_enumType {r : TypeRef} (hr : r.args ≠ []) (outer : String) (c : Choice) :
    r.key ≠ (c.enumType outer).key := by
  intro h
  obtain ⟨name, _ | ⟨arg, rest⟩⟩ := r
  · exact hr rfl
  · have hleft : (TypeRef.key ⟨name, arg :: rest⟩).toList.getLast? = some ']' := by
      have hkey : (TypeRef.key ⟨name, arg :: rest⟩).toList =
          (name ++ "[[" ++ arg.key ++ "]" ++ TypeRef.keyRest rest).toList ++ [']'] := by
        simp [TypeRef.key, String.toList_append]
      rw [hkey, List.getLast?_concat]
    have hright : (c.enumType outer).key.toList.getLast? = some 'e' := by
      have hkey : (c.enumType outer).key.toList = (outer ++ "+" ++ c.name ++ "OneofCas").toList ++ ['e'] := by
        simp [Choice.enumType, Choice.enumName, TypeRef.named, TypeRef.key, String.toList_append]
      rw [hkey, List.getLast?_concat]
    rw [h, hright] at hleft
    cases hleft

section Class
variable {m : Message} (htypes : ∀ f ∈ fields m.items, PlainNames f.type) (hname : m.Distinguished)
include htypes

theorem Message.Uses.spelled {r : TypeRef} (h : m.Uses r) :
    r = .named m.fullName ∨ (∃ c : Choice, r = c.enumType m.fullName) ∨ r.Spelled := by
  cases h with
  | itself => exact .inl rfl
  | @choice c _ => exact .inr (.inl ⟨c, rfl⟩)
  | @outside name h =>
    have hplain : ∀ n ∈ ["System.Object", "System.Enum", "System.Boolean", Recovery.nonUserCodeAttribute],
        PlainName n := by decide +kernel
    exact .inr (.inr (spelled_of_plainNames _ (plainNames_mk (hplain _ h) (by simp))))
  | @field f r hf hr => exact .inr (.inr (spelled_of_plainNames _ fun x hx => htypes f hf x (hx.trans hr)))

theorem Message.Uses.spelled_of_args {r : TypeRef} (h : m.Uses r) (hargs : r.args ≠ []) : r.Spelled := by
  rcases h.spelled htypes with rfl | ⟨c, rfl⟩ | h
  · exact absurd rfl hargs
  · exact absurd rfl hargs
  · exact h

include hname

/-- A name and a collection share no key: only the name of the class itself could be at fault. -/
theorem eq_of_key_of_collection {r t : TypeRef} (hr : m.Uses r) (ht : m.Uses t) (htargs : t.args ≠ [])
    (h : r.key = t.key) : r = t := by
  rcases hr.spelled htypes with rfl | ⟨c, rfl⟩ | hr
  · cases ht with
    | itself | choice | outside => exact absurd rfl htargs
    | field hf hwithin => exact absurd h.symm (hname _ hf _ hwithin htargs)
  · exact absurd h.symm (key_ne_enumType htargs _ c)
  · exact hr.eq_of_key (ht.spelled_of_args htypes htargs) h

/-- No two references in a generated class share a key. -/
theorem apart_uses : Apart m.Uses := by
  intro r t hr ht h
  by_cases htargs : t.args = []
  · by_cases hrargs : r.args = []
    · exact eq_of_key_of_args hrargs htargs h
    · exact (eq_of_key_of_collection htypes hname ht hr hrargs h.symm).symm
  · exact eq_of_key_of_collection htypes hname hr ht htargs h

end Class

/-! ## The library of a class -/

theorem name_suffix (m : Message) : m.name.toList <:+ m.fullName.toList := by
  unfold Message.fullName Definition.fullName
  dsimp only
  split
  · exact ⟨_, by rw [String.toList_append]⟩
  · split
    · exact List.suffix_refl _
    · exact ⟨_, by rw [String.toList_append]⟩
  · exact List.suffix_refl _

theorem oneofCase_suffix (outer : String) (c : Choice) :
    "OneofCase".toList <:+ (c.definition outer).fullName.toList := by
  refine ⟨(outer ++ "+" ++ c.name).toList, ?_⟩
  simp [Definition.fullName, Choice.definition, Choice.enumName, String.toList_append]

theorem fullName_choice_inj {outer : String} {c d : Choice}
    (h : (c.definition outer).fullName = (d.definition outer).fullName) : c.name = d.name := by
  have h : outer ++ "+" ++ (c.name ++ "OneofCase") = outer ++ "+" ++ (d.name ++ "OneofCase") := h
  have hlist := congrArg String.toList h
  simp only [String.toList_append, List.append_assoc] at hlist
  have htail := List.append_cancel_left (List.append_cancel_left hlist)
  exact String.toList_inj.1 (List.append_cancel_right htail)

theorem fullName_choice_ne (outer : String) (c : Choice) : (c.definition outer).fullName ≠ outer := by
  intro h
  have hlength := congrArg String.length h
  simp only [Definition.fullName, Choice.definition, String.length_append] at hlength
  have hplus : "+".length = 1 := rfl
  omega

/-- The library of a class and the enums of its choices, and nothing else. -/
structure Alone (m : Message) (lib : Library) : Prop where
  entries : lib.entries = m.definitions.map fun d => ⟨0, d.fullName, d⟩

section Library
variable {m : Message} {lib : Library} (hlib : Alone m lib)
include hlib

theorem Alone.get?_itself : lib.get? m.fullName = some ⟨0, m.fullName, m.definition⟩ := by
  have hname : m.definition.fullName = m.fullName := rfl
  simp [Library.get?, hlib.entries, Message.definitions, hname]

theorem Alone.get?_eq_some {name : String} {entry : Located} (h : lib.get? name = some entry) :
    (entry.definition = m.definition ∧ name = m.fullName) ∨
      ∃ c ∈ choices m.items, entry.definition = c.definition m.fullName ∧
        name = (c.definition m.fullName).fullName := by
  have hmem := List.mem_of_find?_eq_some h
  have hfound : (entry.fullName == name) = true := List.find?_some (p := fun e : Located => e.fullName == name) h
  have hname := eq_of_beq hfound
  rw [hlib.entries] at hmem
  obtain ⟨d, hd, rfl⟩ := List.mem_map.1 hmem
  rcases List.mem_cons.1 hd with rfl | hd
  · exact .inl ⟨rfl, hname.symm⟩
  · obtain ⟨c, hc, rfl⟩ := List.mem_map.1 hd
    exact .inr ⟨c, hc, rfl, hname.symm⟩

theorem Alone.definitionOf?_choice (hnames : ((choices m.items).map (·.name)).Nodup) {c : Choice}
    (hc : c ∈ choices m.items) :
    lib.definitionOf? (c.enumType m.fullName) = some (c.definition m.fullName) := by
  have hsome : (lib.get? (c.definition m.fullName).fullName).isSome := by
    rw [Library.get?, List.find?_isSome, hlib.entries]
    refine ⟨_, List.mem_map_of_mem (a := c.definition m.fullName) ?_, beq_self_eq_true _⟩
    exact List.mem_cons_of_mem _ (List.mem_map_of_mem hc)
  obtain ⟨entry, hentry⟩ := Option.isSome_iff_exists.1 hsome
  -- Names of choices are all different, and so are those of their enums.
  have hdefinition : entry.definition = c.definition m.fullName := by
    rcases hlib.get?_eq_some hentry with ⟨-, h⟩ | ⟨d, hd, he, h⟩
    · exact absurd h (fullName_choice_ne m.fullName c)
    · rw [he, List.inj_on_of_nodup_map hnames hd hc (fullName_choice_inj h.symm)]
  show (lib.get? (c.definition m.fullName).fullName).map (·.definition) = _
  rw [hentry, Option.map_some, hdefinition]

/-- A plain name leads nowhere, or to the class itself if that is called so. -/
theorem Alone.definitionOf?_plain {r : TypeRef} (hr : PlainName r.name) :
    lib.definitionOf? r = none ∨ (r.name = m.fullName ∧ lib.definitionOf? r = some m.definition) := by
  unfold Library.definitionOf?
  cases h : lib.get? r.name with
  | none => exact .inl rfl
  | some entry =>
    right
    rcases hlib.get?_eq_some h with ⟨he, hname⟩ | ⟨c, -, -, hname⟩
    · exact ⟨hname, congrArg some he⟩
    · exact absurd (hname ▸ oneofCase_suffix m.fullName c) hr.2

theorem Alone.uses_base : ∀ entry ∈ lib.entries, ∀ base ∈ entry.definition.baseType, m.Uses base := by
  intro entry hentry base hbase
  rw [hlib.entries] at hentry
  obtain ⟨d, hd, rfl⟩ := List.mem_map.1 hentry
  rcases List.mem_cons.1 hd with rfl | hd
  · cases hbase
    exact .outside (by simp)
  · obtain ⟨c, -, rfl⟩ := List.mem_map.1 hd
    cases hbase
    exact .outside (by simp)

theorem Alone.uses_loaded : ∀ r ∈ lib.loaded, m.Uses r := by
  intro r hr
  obtain ⟨name, hname, rfl⟩ := List.mem_map.1 hr
  obtain ⟨entry, hentry, rfl⟩ := List.mem_map.1 (List.mem_eraseDups.1 hname)
  have hmem := List.mem_of_mem_filter hentry
  rw [hlib.entries] at hmem
  obtain ⟨d, hd, rfl⟩ := List.mem_map.1 hmem
  rcases List.mem_cons.1 hd with rfl | hd
  · exact .itself
  · obtain ⟨c, hc, rfl⟩ := List.mem_map.1 hd
    exact .choice hc

theorem Alone.own_pool (h : Apart m.Uses) : Own m.Uses lib.catalog.pool := own_of_keys h hlib.uses_loaded

/-! ## What the catalog knows of the class -/

theorem Alone.definitionOf?_itself : lib.definitionOf? (.named m.fullName) = some m.definition := by
  show (lib.get? m.fullName).map (·.definition) = _
  rw [hlib.get?_itself, Option.map_some]

theorem Alone.isMessage_itself : lib.catalog.isMessage (.named m.fullName) = true := by
  simp [Catalog.isMessage, Library.catalog, Library.simpleCatalog, hlib.definitionOf?_itself, Message.definition]

theorem Alone.isEnum_plain {r : TypeRef} (hr : PlainName r.name) : lib.catalog.isEnum r = false := by
  show (lib.definitionOf? r).any (·.isEnum) = false
  rcases hlib.definitionOf?_plain hr with h | ⟨-, h⟩ <;> rw [h] <;> rfl

/-- A collection is not taken for a value that may be absent. -/
theorem Alone.wrapper?_collection {r : TypeRef} (hr : r.name ∈ collections) (arguments : List TypeRef) :
    Recovery.wrapper? lib.catalog r arguments = none := by
  have hnames : ∀ name ∈ collections, ¬Recovery.nullableName.toList <:+ name.toList ∧
      (Catalog.splitFullName name).2 ≠ Recovery.nullableName := by decide +kernel
  obtain ⟨hname, hsimple⟩ := hnames _ hr
  have hne : lib.catalog.name r ≠ Recovery.nullableName := by
    show ((lib.definitionOf? r).map (·.name)).getD (Catalog.splitFullName r.name).2 ≠ _
    rcases hlib.definitionOf?_plain (plainName_collection _ hr) with h | ⟨hfull, h⟩
    · rwa [h]
    · rw [h]
      intro hnullable
      have hnullable : m.name = Recovery.nullableName := hnullable
      exact hname (hnullable ▸ hfull ▸ name_suffix m)
  unfold Recovery.wrapper?
  rw [beq_false_of_ne hne]
  rfl

end Library

end Generated

end ProtoRecovery.Managed
