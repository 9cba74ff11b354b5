import ProtoRecovery.Proofs.Managed.Order
/-!
# Enums taken as integers

A session may take fields of enum types as integers and recover no enums. Such a session meets fewer classes: neither
enums nor the messages that only enums lead to. What it does recover is what the full session has under the same names,
with an integer wherever that refers to an enum.
-/

namespace ProtoRecovery.Schema

/-- Whether a declaration is an enum. -/
def isEnumAt (s : Schema) (id : DeclId) : Bool := (s.decls[id]?.bind (·.enum?)).isSome

/-- A type with integers in place of enums. -/
def eraseEnums (s : Schema) : FieldType → FieldType
  | .repeated element => .repeated (s.eraseEnums element)
  | .map key value => .map (s.eraseEnums key) (s.eraseEnums value)
  | .reference target => if s.isEnumAt target then .scalar .int32 else .reference target
  | .scalar k => .scalar k
  | .wellKnown w => .wellKnown w

theorem isCollection_eraseEnums (s : Schema) (type : FieldType) :
    (s.eraseEnums type).isCollection = type.isCollection := by
  cases type with
  | reference target =>
    unfold eraseEnums
    split <;> rfl
  | scalar | wellKnown | repeated | map => rfl

theorem isEnumAt_of_face {s : Schema} {id : DeclId} {face : Face} (h : s.faceOf? id = some face) :
    s.isEnumAt id = match face.body with
      | .enum _ => true
      | _ => false := by
  obtain ⟨d, hd, rfl⟩ := Option.map_eq_some_iff.1 h
  unfold isEnumAt
  rw [hd]
  cases hb : d.body <;> simp [Declaration.enum?, Declaration.face, Body.bare, hb]

theorem enum?_of_message {d : Declaration} {m : Message} (h : d.message? = some m) : d.enum? = none := by
  unfold Declaration.enum?
  rw [body_of_message? h]

theorem message_of_face {d : Declaration} {face : Face} {m : Message} (h : d.face = face) (hbody : face.body = .message m) :
    ∃ n, d.message? = some n ∧ n.fields = m.fields ∧ n.choices = m.choices := by
  subst h
  cases hb : d.body with
  | message n =>
    simp only [Declaration.face, Body.bare, hb, Body.message.injEq] at hbody
    exact ⟨n, by simp [Declaration.message?, hb], by simp [← hbody], by simp [← hbody]⟩
  | enum | service => simp [Declaration.face, Body.bare, hb] at hbody

/-- A declaration is the message `d` of a schema, with integers in place of enums. The positions of other declarations
in that schema are given by `σ`. -/
structure Erased (σ : DeclId → DeclId) (s : Schema) (d d' : Declaration) : Prop where
  name : d'.name = d.name
  isDeprecated : d'.isDeprecated = d.isDeprecated
  parent : d'.parent.map σ = d.parent
  message : ∃ m m', d.message? = some m ∧ d'.message? = some m' ∧ m'.choices = m.choices ∧
    m'.fields.map (·.rename σ) = m.fields.map (·.retype s.eraseEnums)

end ProtoRecovery.Schema

namespace ProtoRecovery.Managed

open Catalog (Property)
open Recovery (Options Request State settle start)
open Relation (ReflTransGen)
open Schema (DeclId FieldType Message)

/-! ## The same classes, read another way -/

/-- The reader that takes enums as integers. -/
def Reader.skipping (R : Reader) : Reader := { R with options := { R.options with skipEnums := true } }

variable {R : Reader} {t u : TypeRef}

/-- What is taken from properties does not depend on what becomes of enums. -/
theorem partsOf_skipping (t : TypeRef) (skip : Bool) (numbers : List (Catalog.Field TypeRef))
    (properties : List (Property TypeRef)) (taken : List Int) :
    R.skipping.partsOf t skip numbers properties taken = R.partsOf t skip numbers properties taken := by
  induction properties generalizing skip numbers taken with
  | nil => cases skip <;> rfl
  | cons p rest ih =>
    cases skip with
    | true => exact ih ..
    | false =>
      have hitem : R.skipping.itemOf t numbers p rest = R.itemOf t numbers p rest := rfl
      rw [Reader.partsOf, Reader.partsOf, hitem]
      simp only [ih]

theorem contentOf?_skipping (t : TypeRef) : R.skipping.contentOf? t = R.contentOf? t := by
  unfold Reader.contentOf?
  rw [partsOf_skipping]
  rfl

theorem profileOf?_skipping (t : TypeRef) : R.skipping.profileOf? t = R.profileOf? t := by
  unfold Reader.profileOf?
  rw [contentOf?_skipping]
  rfl

/-! ## Types of fields -/

/-- A type with integers in place of some classes. -/
def Mention.skip (isSkipped : TypeRef → Bool) : Mention → Mention
  | .repeated element => .repeated (element.skip isSkipped)
  | .map key value => .map (key.skip isSkipped) (value.skip isSkipped)
  | .reference t => if isSkipped t then .scalar .int32 else .reference t
  | .scalar k => .scalar k
  | .wellKnown w => .wellKnown w

theorem mem_classes_skip {isSkipped : TypeRef → Bool} {x : Mention} (h : u ∈ (x.skip isSkipped).classes) :
    u ∈ x.classes ∧ isSkipped u = false := by
  induction x with
  | scalar | wellKnown => cases h
  | repeated element ih => exact ih h
  | map key value ihk ihv =>
    simp only [Mention.skip, Mention.classes, List.mem_append] at h ⊢
    rcases h with h | h
    · exact ⟨.inl (ihk h).1, (ihk h).2⟩
    · exact ⟨.inr (ihv h).1, (ihv h).2⟩
  | reference t =>
    unfold Mention.skip at h
    split at h
    · cases h
    · rename_i ht
      obtain rfl := List.mem_singleton.1 h
      exact ⟨List.mem_singleton_self u, Bool.not_eq_true _ ▸ ht⟩

section Full
variable (hfull : R.options.skipEnums = false)
include hfull

theorem singleMention_skipping (t : TypeRef) :
    R.skipping.singleMention t = (R.singleMention t).skip R.lib.catalog.isEnum := by
  unfold Reader.singleMention
  split
  · rfl
  · rfl
  · rw [hfull, Bool.and_false, if_neg Bool.false_ne_true, Mention.skip]
    simp only [Reader.skipping, Bool.and_true]

theorem mentionOf_skipping (r : TypeRef) : R.skipping.mentionOf r = (R.mentionOf r).skip R.lib.catalog.isEnum := by
  fun_induction Reader.mentionOf R r with
  | case1 name element w hw => exact Reader.mentionOf_wrapper (R := R.skipping) hw
  | case2 name element hw ih =>
    rw [Mention.skip, ← ih]
    exact Reader.mentionOf_element (R := R.skipping) hw rfl
  | case3 name key value w hw => exact Reader.mentionOf_wrapper (R := R.skipping) hw
  | case4 name key value hw ihk ihv =>
    rw [Mention.skip, ← ihk, ← ihv]
    exact Reader.mentionOf_entry (R := R.skipping) hw rfl
  | case5 t h₁ h₂ w hw => exact Reader.mentionOf_wrapper (R := R.skipping) hw
  | case6 t h₁ h₂ hw =>
    rw [← singleMention_skipping hfull]
    obtain ⟨name, args⟩ := t
    refine Reader.mentionOf_single (R := R.skipping) hw (fun element ha => ?_) fun key value ha => ?_
    · exact h₁ name element (congrArg (TypeRef.mk name) ha)
    · exact h₂ name key value (congrArg (TypeRef.mk name) ha)

/-- A class that is met without enums is met with them, and is none. -/
theorem mem_classes_skipping {P : Profile} (h : R.profileOf? t = some P) (hu : u ∈ P.classes R.skipping) :
    u ∈ P.classes R ∧ R.lib.catalog.isEnum u = false := by
  obtain ⟨content, -, rfl⟩ := Option.map_eq_some_iff.1 h
  rcases List.mem_append.1 hu with hu | hu
  · have howner : R.lib.ownerOf? t = some u := by simpa using hu
    exact ⟨List.mem_append_left _ hu, not_enum_of_message (Option.filter_eq_some_iff.1 howner).2⟩
  · cases content with
    | enum => cases hu
    | message parts =>
      obtain ⟨part, hpart, hu⟩ := List.mem_flatMap.1 hu
      cases part with
      | choice | note => cases hu
      | field p attributes number isOptional =>
        rw [Part.classes, mentionOf_skipping hfull] at hu
        obtain ⟨hmem, henum⟩ := mem_classes_skip hu
        exact ⟨List.mem_append_right _ (List.mem_flatMap.2 ⟨_, hpart, hmem⟩), henum⟩

theorem refers_of_skipping (h : R.skipping.Refers t u) : R.Refers t u ∧ R.lib.catalog.isEnum u = false := by
  obtain ⟨P, hP, hu⟩ := h
  rw [profileOf?_skipping] at hP
  obtain ⟨hmem, henum⟩ := mem_classes_skipping hfull hP hu
  exact ⟨⟨P, hP, hmem⟩, henum⟩

theorem reaches_of_skipping (h : ReflTransGen R.skipping.Refers t u) : ReflTransGen R.Refers t u :=
  ReflTransGen.mono (fun _ _ hxy => (refers_of_skipping hfull hxy).1) _ _ h

/-- Whatever can be read with enums can be read without them. -/
theorem ready_skipping (h : R.Ready t) : R.skipping.Ready t := by
  intro u hu
  rw [profileOf?_skipping]
  exact h u (reaches_of_skipping hfull hu)

end Full

/-! ## Bodies -/

/-- The type of a field, once the classes in it are declared in both sessions. -/
theorem type_skip {S : Schema} {isSkipped : TypeRef → Bool} {ref ref' : TypeRef → DeclId} {σ : DeclId → DeclId} {x : Mention}
    (henum : ∀ u ∈ x.classes, S.isEnumAt (ref u) = isSkipped u)
    (hmoved : ∀ u ∈ (x.skip isSkipped).classes, σ (ref' u) = ref u) :
    ((x.skip isSkipped).type ref').rename σ = S.eraseEnums (x.type ref) := by
  induction x with
  | scalar | wellKnown => rfl
  | repeated element ih => simp only [Mention.skip, Mention.type, FieldType.rename, Schema.eraseEnums, ih henum hmoved]
  | map key value ihk ihv =>
    simp only [Mention.skip, Mention.classes, List.mem_append] at henum hmoved
    simp only [Mention.skip, Mention.type, FieldType.rename, Schema.eraseEnums,
      ihk (fun u hu => henum u (.inl hu)) fun u hu => hmoved u (.inl hu),
      ihv (fun u hu => henum u (.inr hu)) fun u hu => hmoved u (.inr hu)]
  | reference t =>
    have ht := henum t (List.mem_singleton_self t)
    unfold Mention.skip at hmoved ⊢
    rw [Mention.type, Schema.eraseEnums, ht]
    split
    · rfl
    · rename_i hskip
      rw [if_neg hskip] at hmoved
      rw [Mention.type, FieldType.rename, hmoved t (List.mem_singleton_self t)]

section Bodies
variable (hfull : R.options.skipEnums = false) {S : Schema} {ref ref' : TypeRef → DeclId} {σ : DeclId → DeclId}
include hfull

theorem assemble_skipping {parts : List Part} {m m' : Message}
    (henum : ∀ u ∈ parts.flatMap (·.classes R), S.isEnumAt (ref u) = R.lib.catalog.isEnum u)
    (hmoved : ∀ u ∈ parts.flatMap (·.classes R.skipping), σ (ref' u) = ref u)
    (hm : m'.retype (FieldType.rename σ) = m.retype S.eraseEnums) :
    (R.skipping.assemble ref' parts m').retype (FieldType.rename σ) = (R.assemble ref parts m).retype S.eraseEnums := by
  unfold Reader.assemble
  induction parts generalizing m m' with
  | nil => exact hm
  | cons part rest ih =>
    simp only [List.flatMap_cons, List.mem_append] at henum hmoved
    rw [List.foldl_cons, List.foldl_cons]
    refine ih (fun u hu => henum u (.inr hu)) (fun u hu => hmoved u (.inr hu)) ?_
    cases part with
    | note => exact hm
    | choice c =>
      obtain ⟨hfields, hchoices, hnested⟩ := Message.mk.inj hm
      simp only [Part.put, Message.retype, hfields, hchoices, hnested]
    | field p attributes number isOptional =>
      simp only [Part.classes, mentionOf_skipping hfull] at hmoved
      have htype := type_skip (fun u hu => henum u (.inl hu)) fun u hu => hmoved u (.inl hu)
      simp only [Part.put, ← Schema.insert_retype, hm, mentionOf_skipping hfull]
      congr 1
      simp only [Schema.Field.retype, Recovery.fieldOf, htype]
      rfl

/-- The body of a message in both sessions. -/
theorem body_skipping (content : Content) {m m' : Message}
    (henum : ∀ u ∈ content.classes R, S.isEnumAt (ref u) = R.lib.catalog.isEnum u)
    (hmoved : ∀ u ∈ content.classes R.skipping, σ (ref' u) = ref u)
    (hbody : content.body R ref = .message m) (hbody' : content.body R.skipping ref' = .message m') :
    m'.retype (FieldType.rename σ) = m.retype S.eraseEnums := by
  cases content with
  | enum => cases hbody
  | message parts =>
    cases hbody
    cases hbody'
    have hempty : ({} : Message).retype (FieldType.rename σ) = ({} : Message).retype S.eraseEnums := rfl
    have hassemble := assemble_skipping hfull henum hmoved hempty
    have hcollection : ∀ type : FieldType, (type.rename σ).isCollection = type.isCollection := Schema.isCollection_rename
    have hsettle := congrArg (fun m => (settle m).1) hassemble
    simpa only [settle_retype hcollection, settle_retype (Schema.isCollection_eraseEnums S)] using hsettle

end Bodies

/-! ## Both sessions -/

theorem Declares.isEnumAt {roots new : List TypeRef} {s : State TypeRef} (h : Declares R roots new s) (hu : u ∈ new) :
    s.schema.isEnumAt (Managed.refIn s u) = R.lib.catalog.isEnum u := by
  obtain ⟨-, P, hP, -, hface⟩ := h.told (h.getElem?_refIn hu)
  obtain ⟨content, hcontent, rfl⟩ := Option.map_eq_some_iff.1 hP
  rw [Schema.isEnumAt_of_face hface]
  cases he : R.lib.catalog.isEnum u with
  | true =>
    rw [contentOf?_of_enum he] at hcontent
    obtain ⟨members, -, rfl⟩ := Option.map_eq_some_iff.1 hcontent
    rfl
  | false =>
    rw [contentOf?_of_message (isMessage_of_content hcontent he)] at hcontent
    obtain ⟨parts, -, rfl⟩ := Option.map_eq_some_iff.1 hcontent
    rfl

section Sessions
variable {roots new new' : List TypeRef} {s s' : State TypeRef} {i : DeclId} {P : Profile}

theorem moved_refIn (h' : Declares R.skipping roots new' s') (hu : u ∈ new') : moved new' s (refIn s' u) = refIn s u := by
  rw [moved, h'.getElem?_refIn hu]
  rfl

variable (hfull : R.options.skipEnums = false) (h : Declares R roots new s) (h' : Declares R.skipping roots new' s')
include hfull h'

theorem not_enum_of_mem (hroots : ∀ r ∈ roots, R.lib.catalog.isEnum r = false) (hu : u ∈ new') :
    R.lib.catalog.isEnum u = false := by
  obtain ⟨r, hr, hreach⟩ := h'.mem_iff.1 hu
  rcases hreach.cases_tail with heq | ⟨x, -, hxu⟩
  · exact heq ▸ hroots r hr
  · exact (refers_of_skipping hfull hxu).2

include h

theorem mem_of_skipping (hu : u ∈ new') : u ∈ new := by
  obtain ⟨r, hr, hreach⟩ := h'.mem_iff.1 hu
  exact h.mem_iff.2 ⟨r, hr, reaches_of_skipping hfull hreach⟩

theorem getElem?_moved_of_skipping (hi : new'[i]? = some t) : new[moved new' s i]? = some t := by
  rw [moved, hi, Option.map_some]
  exact h.getElem?_refIn (mem_of_skipping hfull h h' (List.mem_of_getElem? hi))

/-- What a class mentions in both sessions is found at positions that go together. -/
theorem moved_of_mem_classes (hi : new'[i]? = some t) (hP : R.profileOf? t = some P) (hu : u ∈ P.classes R.skipping) :
    moved new' s (refIn s' u) = refIn s u := by
  obtain ⟨-, P', hP', hmet, -⟩ := h'.told hi
  rw [profileOf?_skipping] at hP'
  obtain rfl : P = P' := Option.some.inj (hP.symm.trans hP')
  refine moved_refIn h' (h'.mem_of_met ?_ (hmet u hu))
  exact (knows_of_mem_classes hP (mem_classes_skipping hfull hP hu).1).spelled h.legible

theorem parentOf?_skipping (hi : new'[i]? = some t) :
    s.schema.parentOf? (moved new' s i) = (s'.schema.parentOf? i).map (moved new' s) := by
  rw [h'.parentOf? hi, h.parentOf? (getElem?_moved_of_skipping hfull h h' hi), Option.map_map]
  obtain ⟨-, P, hP, -⟩ := h'.told hi
  rw [profileOf?_skipping] at hP
  refine Option.map_congr fun o ho => (moved_of_mem_classes hfull h h' hi hP ?_).symm
  obtain ⟨content, -, rfl⟩ := Option.map_eq_some_iff.1 hP
  exact List.mem_append_left _ (by simpa using ho)

/-- A message of the session without enums is one of the full session. -/
theorem erased_moved (hroots : ∀ r ∈ roots, R.lib.catalog.isEnum r = false) {d' : Schema.Declaration}
    (hi : new'[i]? = some t) (hd' : s'.schema.decls[i]? = some d') :
    ∃ d, s.schema.decls[moved new' s i]? = some d ∧ Schema.Erased (moved new' s) s.schema d d' := by
  have henum := not_enum_of_mem hfull h' hroots (List.mem_of_getElem? hi)
  obtain ⟨-, P, hP, hmet, hface⟩ := h.told (getElem?_moved_of_skipping hfull h h' hi)
  obtain ⟨-, P', hP', -, hface'⟩ := h'.told hi
  obtain rfl : P = P' := Option.some.inj (hP.symm.trans ((profileOf?_skipping t).symm.trans hP'))
  have hmoved : ∀ u ∈ P.classes R.skipping, moved new' s (refIn s' u) = refIn s u :=
    fun u hu => moved_of_mem_classes hfull h h' hi hP hu
  have hkinds : ∀ u ∈ P.classes R, s.schema.isEnumAt (refIn s u) = R.lib.catalog.isEnum u := fun u hu =>
    h.isEnumAt (h.mem_of_met ((knows_of_mem_classes hP hu).spelled h.legible) (hmet u hu))
  obtain ⟨d, hd, hdface⟩ := Option.map_eq_some_iff.1 hface
  have hdface' : d'.face = P.face R.skipping (refIn s') := by
    rw [Schema.faceOf?, hd'] at hface'
    exact Option.some.inj hface'
  -- The class is read as a message in both sessions.
  obtain ⟨content, hcontent, rfl⟩ := Option.map_eq_some_iff.1 hP
  obtain ⟨parts, -, rfl⟩ :=
    Option.map_eq_some_iff.1 ((contentOf?_of_message (isMessage_of_content hcontent henum)).symm.trans hcontent)
  obtain ⟨m, hm, hfields, hchoices⟩ := Schema.message_of_face hdface rfl
  obtain ⟨m', hm', hfields', hchoices'⟩ := Schema.message_of_face hdface' rfl
  have hbody := Message.mk.inj (body_skipping hfull (.message parts)
    (fun u hu => hkinds u (List.mem_append_right _ hu)) (fun u hu => hmoved u (List.mem_append_right _ hu)) rfl rfl)
  have hparent := parentOf?_skipping hfull h h' hi
  rw [Schema.parentOf?, Schema.parentOf?, hd, hd'] at hparent
  refine ⟨d, hd, ?_, ?_, hparent.symm, m, m', hm, hm', ?_, ?_⟩
  · exact (congrArg Schema.Face.name hdface').trans (congrArg Schema.Face.name hdface).symm
  · exact (congrArg Schema.Face.isDeprecated hdface').trans (congrArg Schema.Face.isDeprecated hdface).symm
  · rw [hchoices', hchoices]
    exact hbody.2.1
  · rw [hfields', hfields]
    exact hbody.1

end Sessions

/-- Messages of a library without brackets in its names are asked for. If the session that recovers enums ends well, so
does the one that takes them as integers. That recovers no enum, and every declaration in it is a message that the full
session has under the same name, at the position that `σ` gives: it has the same name, mark and choices, belongs to the
same message, and has the same fields, apart from integers wherever the full session refers to an enum. -/
theorem enums_erased {lib : Library} {targets supports : List Assembly} {names : Option Identifier.Dictionary}
    (options : Options) (rs : List TypeRef) {s : State TypeRef} (hload : Library.load targets supports = .ok lib)
    (hl : lib.Legible) (hspelled : ∀ r ∈ rs, r.Spelled)
    (h : Completes lib names (rs.map (.message · { options with skipEnums := false })) (start lib.catalog) s) :
    ∃ s', Completes lib names (rs.map (.message · { options with skipEnums := true })) (start lib.catalog) s' ∧
      (∀ d ∈ s'.schema.decls, d.enum? = none) ∧
      ∃ σ, (∀ n i, s'.find? n = some i → s.find? n = some (σ i)) ∧
        ∀ i d', s'.schema.decls[i]? = some d' → (∃ n, s'.find? n = some i) ∧
          ∃ d, s.schema.decls[σ i]? = some d ∧ Schema.Erased σ s.schema d d' := by
  let R : Reader := ⟨lib, names, { options with skipEnums := false }⟩
  have hw : lib.WellNamed := wellNamed_of_load hload
  have hrequests : ∀ o : Options, rs.map (Request.message · o) = (rs.map Root.message).map (·.request o) := by
    simp [Function.comp_def, Root.request]
  have htypes : (rs.map Root.message).map (·.type) = rs := by simp [Function.comp_def, Root.type]
  have hroots : ∀ q ∈ rs.map Root.message, q.type.Spelled := by simpa [Root.type] using hspelled
  rw [hrequests] at h
  obtain ⟨hfits, new, hs⟩ := exists_declares (R := R) hl hw hroots h
  -- All that the full session came upon can be read, so the other one ends well too.
  have hready : ∀ q ∈ rs.map Root.message, R.skipping.Ready q.type := fun q hq =>
    ready_skipping rfl (hs.ready (hs.mem_iff.2 ⟨q.type, List.mem_map_of_mem hq, .refl⟩))
  obtain ⟨s', h'⟩ := exists_completes (R := R.skipping) hl hw hroots hready hfits .start (clear_start hl)
  obtain ⟨-, new', hs'⟩ := exists_declares (R := R.skipping) hl hw hroots h'
  rw [htypes] at hs hs'
  have hmessages : ∀ r ∈ rs, R.lib.catalog.isEnum r = false := fun r hr =>
    not_enum_of_message (hfits (.message r) (List.mem_map_of_mem hr))
  have herased : ∀ i d', s'.schema.decls[i]? = some d' → (∃ n, s'.find? n = some i) ∧
      ∃ d, s.schema.decls[moved new' s i]? = some d ∧ Schema.Erased (moved new' s) s.schema d d' := by
    intro i d' hd'
    obtain ⟨t, ht⟩ := hs'.exists_class (List.getElem?_eq_some_iff.1 hd').1
    exact ⟨⟨t.key, hs'.find? ht⟩, erased_moved rfl hs hs' hmessages ht hd'⟩
  refine ⟨s', hrequests _ ▸ h', fun d' hd' => ?_, moved new' s, fun n i hn => ?_, herased⟩
  · obtain ⟨i, hi⟩ := List.mem_iff_getElem?.1 hd'
    obtain ⟨-, d, -, hd⟩ := herased i d' hi
    obtain ⟨-, m', -, hm', -⟩ := hd.message
    exact Schema.enum?_of_message hm'
  · obtain ⟨t, ht, rfl⟩ := hs'.of_find? hn
    exact hs.find? (getElem?_moved_of_skipping rfl hs hs' ht)

/-- A message with a list of enums of another message that it does not mention otherwise, and a message after that. -/
def sale : Assembly where
  name := "App"
  types :=
    Generated.Message.definitions
      { name := "Sale", namespaceName := some "App",
        items := [
          .field ⟨"Kinds", 1, ⟨"Google.Protobuf.Collections.RepeatedField\x601", [.named "App.Goods+Types+Kind"]⟩, false⟩,
          .field ⟨"Buyer", 2, .named "App.Buyer", false⟩] } ++
    Generated.Message.definitions { name := "Goods", namespaceName := some "App" } ++
    Generated.Message.definitions { name := "Buyer", namespaceName := some "App" } ++
    [{ name := "Types", declaringType := some "App.Goods", isAbstract := true, isSealed := true },
     { name := "Kind", declaringType := some "App.Goods+Types", isEnum := true, isValueType := true, isSealed := true,
       fields := [Generated.literal "New" 0, Generated.literal "Used" 1] }]

/-- The assembly loaded. -/
def saleLibrary : Library := .ofAssemblies [sale] []

/-- The first message is asked for, and enums are recovered. -/
def saleOutcome : Except Error (Option DeclId) × State TypeRef :=
  Recovery.outcome (Request.run saleLibrary.catalog none (.message (.named "App.Sale") {})) (start saleLibrary.catalog)

/-- The message of the buyer is the fourth declaration, after the enum and the message around it. Without enums there is
a session in which it has a place too. -/
theorem enums_erased_sale :
    Library.load [sale] [] = .ok saleLibrary ∧ saleLibrary.Legible ∧
      Completes saleLibrary none [.message (.named "App.Sale") {}] (start saleLibrary.catalog) saleOutcome.2 ∧
      saleOutcome.2.find? "App.Buyer" = some 3 ∧ saleOutcome.2.schema.isEnumAt 1 = true ∧
      ∃ s', Completes saleLibrary none [.message (.named "App.Sale") { skipEnums := true }] (start saleLibrary.catalog) s' ∧
        (∀ d ∈ s'.schema.decls, d.enum? = none) ∧
        ∃ σ, (∀ n i, s'.find? n = some i → saleOutcome.2.find? n = some (σ i)) ∧
          ∀ i d', s'.schema.decls[i]? = some d' → (∃ n, s'.find? n = some i) ∧
            ∃ d, saleOutcome.2.schema.decls[σ i]? = some d ∧ Schema.Erased σ saleOutcome.2.schema d d' := by
  have hload : Library.load [sale] [] = .ok saleLibrary := Generated.load_of_accessors (by decide +kernel)
  have hl : saleLibrary.Legible := ⟨by decide +kernel, by decide +kernel, by decide +kernel⟩
  have hsale : Completes saleLibrary none [.message (.named "App.Sale") {}] (start saleLibrary.catalog) saleOutcome.2 :=
    ⟨some 0, saleOutcome.2, Recovery.gives_of_outcome (by decide +kernel), rfl⟩
  exact ⟨hload, hl, hsale, by decide +kernel, by decide +kernel,
    enums_erased {} [.named "App.Sale"] hload hl (by decide +kernel) hsale⟩

end ProtoRecovery.Managed
