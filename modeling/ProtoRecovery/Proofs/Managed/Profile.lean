import ProtoRecovery.Proofs.Managed.Legible
import ProtoRecovery.Proofs.Managed.Signature
import ProtoRecovery.Proofs.Schema.Alike
/-!
# What a class says of itself

The profile of a class is all that its recovery takes from the class: where it belongs, its fields and choices or its
members, and what is odd about them. Other classes appear in it as classes. Once these have declarations, the profile
tells the face of the class.
-/

namespace ProtoRecovery.Managed

open Catalog (Attribute Property)
open Recovery (State Readable Calls Setting Options Anomaly InProgress outcome markedAttributes? tellProperty addTold
  addProperty enumMember enumMembers hasAttribute originalName? wrapper? settle fieldOf choiceOf)
open Schema (DeclId FieldType Scalar WellKnown Choice Message EnumMember Body Face)
open Identifier (Dictionary)

/-- A library, and how it is read. -/
structure Reader where
  lib : Library
  names : Option Dictionary
  options : Options

/-- A recovery from the library. -/
abbrev Reader.env (R : Reader) : Setting TypeRef := ⟨R.lib.catalog, R.names, R.options⟩

/-! ## Types of fields -/

/-- The type of a field, with classes in place of their declarations. -/
inductive Mention where
  | scalar (k : Scalar)
  | wellKnown (w : WellKnown)
  | repeated (element : Mention)
  | map (key value : Mention)
  | reference (t : TypeRef)

namespace Mention

/-- The classes in a type. -/
def classes : Mention → List TypeRef
  | .repeated element => element.classes
  | .map key value => key.classes ++ value.classes
  | .reference t => [t]
  | _ => []

/-- The type, once classes have declarations. -/
def type (ref : TypeRef → DeclId) : Mention → FieldType
  | .scalar k => .scalar k
  | .wellKnown w => .wellKnown w
  | .repeated element => .repeated (element.type ref)
  | .map key value => .map (key.type ref) (value.type ref)
  | .reference t => .reference (ref t)

theorem type_congr {ref ref' : TypeRef → DeclId} {x : Mention} (h : ∀ t ∈ x.classes, ref t = ref' t) :
    x.type ref = x.type ref' := by
  induction x with
  | scalar | wellKnown => rfl
  | repeated element ih => simp only [type, ih h]
  | map key value ihk ihv =>
    simp only [classes, List.mem_append] at h
    simp only [type, ihk fun t ht => h t (.inl ht), ihv fun t ht => h t (.inr ht)]
  | reference t => simp only [type, h t (by simp [classes])]

theorem type_rename (σ : DeclId → DeclId) (ref : TypeRef → DeclId) (x : Mention) :
    x.type (σ ∘ ref) = (x.type ref).rename σ := by
  induction x with
  | scalar | wellKnown | reference => rfl
  | repeated element ih => simp only [type, FieldType.rename, ih]
  | map key value ihk ihv => simp only [type, FieldType.rename, ihk, ihv]

end Mention

namespace Reader
variable (R : Reader)

/-- What a field of one value holds. -/
def singleMention (t : TypeRef) : Mention :=
  match Scalar.ofClass? t.key, WellKnown.ofClass? t.key with
  | some k, _ => .scalar k
  | none, some w => .wellKnown w
  | none, none => if R.lib.catalog.isEnum t && R.options.skipEnums then .scalar .int32 else .reference t

/-- What a field of a type holds. -/
def mentionOf : TypeRef → Mention
  | ⟨name, [element]⟩ =>
    match wrapper? R.lib.catalog ⟨name, [element]⟩ [element] with
    | some w => .wellKnown w
    | none => .repeated (mentionOf element)
  | ⟨name, [key, value]⟩ =>
    match wrapper? R.lib.catalog ⟨name, [key, value]⟩ [key, value] with
    | some w => .wellKnown w
    | none => .map (mentionOf key) (mentionOf value)
  | t =>
    match wrapper? R.lib.catalog t t.args with
    | some w => .wellKnown w
    | none => R.singleMention t

variable {R}

/-! The cases in the order in which a recovery goes through them. -/

section Cases
variable {r : TypeRef} (hw : wrapper? R.lib.catalog r r.args = none)

theorem mentionOf_wrapper {w : WellKnown} (hw : wrapper? R.lib.catalog r r.args = some w) :
    R.mentionOf r = .wellKnown w := by
  obtain ⟨name, _ | ⟨x, _ | ⟨y, _ | ⟨z, rest⟩⟩⟩⟩ := r <;> simp_all [mentionOf]

include hw

theorem mentionOf_element {element : TypeRef} (ha : r.args = [element]) :
    R.mentionOf r = .repeated (R.mentionOf element) := by
  obtain ⟨name, args⟩ := r
  obtain rfl : args = [element] := ha
  rw [mentionOf, hw]

theorem mentionOf_entry {key value : TypeRef} (ha : r.args = [key, value]) :
    R.mentionOf r = .map (R.mentionOf key) (R.mentionOf value) := by
  obtain ⟨name, args⟩ := r
  obtain rfl : args = [key, value] := ha
  rw [mentionOf, hw]

theorem mentionOf_single (h₁ : ∀ element, r.args ≠ [element]) (h₂ : ∀ key value, r.args ≠ [key, value]) :
    R.mentionOf r = R.singleMention r := by
  obtain ⟨name, _ | ⟨x, _ | ⟨y, _ | ⟨z, rest⟩⟩⟩⟩ := r
  · simp_all [mentionOf]
  · exact absurd rfl (h₁ x)
  · exact absurd rfl (h₂ x y)
  · simp_all [mentionOf]

end Cases

theorem classes_singleMention {t u : TypeRef} (h : u ∈ (R.singleMention t).classes) : u = t := by
  unfold singleMention at h
  split at h
  · cases h
  · cases h
  · split at h
    · cases h
    · simpa [Mention.classes] using h

theorem within_of_mem_classes {r u : TypeRef} (h : u ∈ (R.mentionOf r).classes) : u.Within r := by
  fun_induction mentionOf R r with
  | case1 => cases h
  | case2 name element hw ih => exact .arg (by simp) (ih h)
  | case3 => cases h
  | case4 name key value hw ihk ihv =>
    rcases List.mem_append.1 h with h | h
    · exact .arg (by simp) (ihk h)
    · exact .arg (by simp) (ihv h)
  | case5 => cases h
  | case6 t =>
    rw [classes_singleMention h]
    exact .refl

/-! ## Properties -/

variable (R)

/-- The attributes of a property, if it is one to be read. -/
def marked? (p : Property TypeRef) : Option (List (Attribute TypeRef)) :=
  match p.getter with
  | none => none
  | some getter =>
    if getter.isVirtual then none
    else if R.options.allProperties ||
        hasAttribute R.lib.catalog (readIn p.attributes) Recovery.nonUserCodeAttribute then
      some (readIn p.attributes)
    else none

end Reader

/-- What one property tells. -/
inductive Item where
  /-- Nothing: it is not marked. -/
  | passed
  | choice (c : Choice)
  /-- A field that there is no number for. -/
  | unnumbered
  /-- A field whose number cannot be read. -/
  | unreadable (constant : String)
  | numbered (attributes : List (Attribute TypeRef)) (number : Int) (isOptional : Bool)

/-- What a property of a class tells, with the constants that are left and the properties after it. -/
def Reader.itemOf (R : Reader) (t : TypeRef) (numbers : List (Catalog.Field TypeRef)) (p : Property TypeRef)
    (rest : List (Property TypeRef)) : Item :=
  match R.marked? p, numbers with
  | none, _ => .passed
  | some attributes, numbers =>
    if R.lib.isCase t p.type then .choice (choiceOf R.env p p.type)
    else
      match numbers with
      | [] => .unnumbered
      | constant :: _ =>
        match constant.constant.bind (·.int32?) with
        | none => .unreadable constant.name
        | some number => .numbered attributes number (R.lib.tellsPresence rest)

/-- What a recovery takes an item for. -/
def Item.told (t : TypeRef) (p : Property TypeRef) : Item → Except Error (Recovery.Told TypeRef)
  | .passed => .ok .nothing
  | .choice c => .ok (.choice c)
  | .unnumbered => .ok .unnumbered
  | .unreadable constant => .error (.misfit t.key (.numberNotInt32 constant))
  | .numbered attributes number isOptional => .ok (.field p.type attributes number isOptional)

section Properties
variable {R : Reader} {calls : Calls TypeRef} {t : TypeRef} {id : DeclId} {numbers : List (Catalog.Field TypeRef)}
  {p : Property TypeRef} {rest : List (Property TypeRef)} {w : InProgress TypeRef} {s : State TypeRef}

theorem answers_markedAttributes (h : Readable TypeRef.Spelled p.attributes) :
    Answers Clear (markedAttributes? R.env p).run (· = .ok (R.marked? p)) := by
  unfold markedAttributes? Reader.marked?
  cases p.getter with
  | none => exact answers_pure rfl
  | some getter =>
    dsimp only
    split
    · exact answers_pure rfl
    · refine answers_search_bind (answers_attributes h) (fun attributes hattributes => ?_) nofun
      obtain rfl := Except.ok.inj hattributes
      split
      · exact answers_pure rfl
      · exact answers_pure rfl

theorem answers_tellProperty (hl : R.lib.Legible) (hw : R.lib.WellNamed) (hp : p.type.Spelled)
    (ha : Readable TypeRef.Spelled p.attributes) (hrest : ∀ q ∈ rest, q.type.Spelled) :
    Answers Clear (tellProperty R.env t numbers p rest).run (· = (R.itemOf t numbers p rest).told t p) := by
  unfold tellProperty Reader.itemOf
  refine answers_search_bind (answers_markedAttributes ha) (fun o ho => ?_) nofun
  obtain rfl := Except.ok.inj ho
  cases R.marked? p with
  | none => exact answers_pure rfl
  | some attributes =>
    refine answers_lift_bind (answers_resolve apart_spelled hp) (answers_lift_bind (answers_isCaseEnum hl hw t p.type) ?_)
    cases R.lib.isCase t p.type with
    | true => exact answers_pure rfl
    | false =>
      cases numbers with
      | nil => exact answers_pure rfl
      | cons constant numbers =>
        cases hnumber : constant.constant.bind (·.int32?) with
        | none =>
          simp only [Bool.false_eq_true, if_false, hnumber, Recovery.fieldNumber]
          exact answers_pure rfl
        | some number =>
          simp only [Bool.false_eq_true, if_false, hnumber, Recovery.fieldNumber, pure_bind]
          exact answers_lift_bind (answers_hasPresence hrest) (answers_pure rfl)

/-- A field is without a number only when no constant is left. -/
theorem numbers_of_unnumbered (h : R.itemOf t numbers p rest = .unnumbered) : numbers = [] := by
  cases numbers with
  | nil => rfl
  | cons constant numbers =>
    unfold Reader.itemOf at h
    split at h
    · cases h
    · split at h
      · cases h
      · dsimp only at h
        split at h <;> cases h

variable (calls t id) in
/-- A property is looked at, and the recovery goes on by what it tells. -/
theorem outcome_addProperty (hl : R.lib.Legible) (hw : R.lib.WellNamed) (hs : Clear s.pool) (hp : p.type.Spelled)
    (ha : Readable TypeRef.Spelled p.attributes) (hrest : ∀ q ∈ rest, q.type.Spelled) (hskip : w.skip = false) :
    ∃ s₁, Browsed s s₁ ∧ outcome (addProperty R.env calls t id p rest w) s =
      match (R.itemOf t w.numbers p rest).told t p with
      | .ok told => outcome (addTold R.env calls t id p w told) s₁
      | .error e => (.error e, s₁) := by
  have hanswers : Answers Clear (tellProperty R.env t w.numbers p rest).run _ := answers_tellProperty hl hw hp ha hrest
  obtain ⟨hpool, htold⟩ := hanswers s.pool hs
  refine ⟨s.after (tellProperty R.env t w.numbers p rest).run, ⟨rfl, rfl, rfl, hpool⟩, ?_⟩
  unfold addProperty
  rw [hskip, if_neg Bool.false_ne_true, Recovery.outcome_bind, Recovery.outcome_search,
    show s.answer (tellProperty R.env t w.numbers p rest).run = _ from htold]
  cases (R.itemOf t w.numbers p rest).told t p with
  | ok told => rfl
  | error e => rfl

end Properties

/-! ## Messages -/

/-- What is taken from one property. -/
inductive Part where
  | choice (c : Choice)
  | note (member : String) (x : Anomaly)
  | field (p : Property TypeRef) (attributes : List (Attribute TypeRef)) (number : Int) (isOptional : Bool)

/-- What is taken from properties in order, unless a number cannot be read. `taken` holds the numbers of earlier
fields. -/
def Reader.partsOf (R : Reader) (t : TypeRef) : (skip : Bool) → (numbers : List (Catalog.Field TypeRef)) →
    List (Property TypeRef) → (taken : List Int) → Option (List Part)
  | _, _, [], _ => some []
  | true, numbers, _ :: rest, taken => R.partsOf t false numbers rest taken
  | false, numbers, p :: rest, taken =>
    match R.itemOf t numbers p rest with
    | .passed => R.partsOf t false numbers rest taken
    | .choice c => (R.partsOf t false numbers rest taken).map (.choice c :: ·)
    | .unnumbered => (R.partsOf t false [] rest taken).map (.note p.name .missingNumber :: ·)
    | .unreadable _ => none
    | .numbered attributes number isOptional =>
      if number ∈ taken then
        (R.partsOf t isOptional numbers.tail rest taken).map (.note p.name (.duplicateNumber number) :: ·)
      else
        (R.partsOf t isOptional numbers.tail rest (number :: taken)).map (.field p attributes number isOptional :: ·)

namespace Part

/-- The classes that a part mentions. -/
def classes (R : Reader) : Part → List TypeRef
  | .field p _ _ _ => (R.mentionOf p.type).classes
  | _ => []

/-- What is odd about a property. -/
def notes : Part → List (String × Anomaly)
  | .note member x => [(member, x)]
  | _ => []

/-- Adds a part to a message. -/
def put (R : Reader) (ref : TypeRef → DeclId) (m : Message) : Part → Message
  | .choice c => { m with choices := m.choices ++ [c] }
  | .note .. => m
  | .field p attributes number isOptional =>
    m.insert (fieldOf R.env p attributes number ((R.mentionOf p.type).type ref) isOptional)

end Part

/-- Puts the parts of a message together. -/
def Reader.assemble (R : Reader) (ref : TypeRef → DeclId) (parts : List Part) (m : Message) : Message :=
  parts.foldl (Part.put R ref) m

section Messages
variable {R : Reader} {ref ref' : TypeRef → DeclId} {σ : DeclId → DeclId} {parts : List Part} {m : Message}

theorem assemble_congr (h : ∀ t ∈ parts.flatMap (·.classes R), ref t = ref' t) :
    R.assemble ref parts m = R.assemble ref' parts m := by
  unfold Reader.assemble
  induction parts generalizing m with
  | nil => rfl
  | cons part rest ih =>
    simp only [List.flatMap_cons, List.mem_append] at h
    have hput : part.put R ref m = part.put R ref' m := by
      cases part with
      | choice | note => rfl
      | field p attributes number isOptional =>
        have htype : (R.mentionOf p.type).type ref = (R.mentionOf p.type).type ref' :=
          Mention.type_congr fun t ht => h t (.inl ht)
        simp only [Part.put, htype]
    rw [List.foldl_cons, List.foldl_cons, hput]
    exact ih fun t ht => h t (.inr ht)

theorem put_rename (part : Part) :
    part.put R (σ ∘ ref) (m.rename σ) = (part.put R ref m).rename σ := by
  cases part with
  | choice | note => rfl
  | field p attributes number isOptional =>
    simp only [Part.put, Mention.type_rename]
    exact Schema.insert_rename m (fieldOf R.env p attributes number ((R.mentionOf p.type).type ref) isOptional)

theorem assemble_rename (σ : DeclId → DeclId) (m : Message) :
    R.assemble (σ ∘ ref) parts (m.rename σ) = (R.assemble ref parts m).rename σ := by
  unfold Reader.assemble
  induction parts generalizing m with
  | nil => rfl
  | cons part rest ih =>
    rw [List.foldl_cons, List.foldl_cons, put_rename]
    exact ih _

theorem nested_assemble : (R.assemble ref parts m).nested = m.nested := by
  unfold Reader.assemble
  induction parts generalizing m with
  | nil => rfl
  | cons part rest ih =>
    rw [List.foldl_cons, ih]
    cases part <;> rfl

/-- Choices are sorted out by numbers alone, and collections are told from other types. -/
theorem settle_retype {g : FieldType → FieldType} (hg : ∀ type, (g type).isCollection = type.isCollection) (m : Message) :
    settle (m.retype g) = ((settle m).1.retype g, (settle m).2) := by
  have hthere : (fun n => ((m.retype g).field? n).isSome) = fun n => (m.field? n).isSome := by
    funext n
    rw [Schema.field?_retype, Option.isSome_map]
  unfold settle
  rw [hthere]
  simp only [Message.retype, List.map_map, Prod.mk.injEq, Message.mk.injEq, and_true]
  apply List.map_congr_left
  intro f _
  simp only [Function.comp_apply, Schema.Field.retype, hg]
  split <;> rfl

theorem settle_rename (m : Message) : settle (m.rename σ) = ((settle m).1.rename σ, (settle m).2) := by
  -- What is nested in a message is left as it is.
  have hnested : settle (m.rename σ) =
      ({ (settle (m.retype (FieldType.rename σ))).1 with nested := m.nested.map σ },
        (settle (m.retype (FieldType.rename σ))).2) := rfl
  rw [hnested, settle_retype Schema.isCollection_rename]
  rfl

end Messages

/-! ## Profiles -/

/-- What the declaration of a class holds. -/
inductive Content where
  | message (parts : List Part)
  | enum (members : List EnumMember)

namespace Content

/-- The classes that a content mentions. -/
def classes (R : Reader) : Content → List TypeRef
  | .message parts => parts.flatMap (·.classes R)
  | .enum _ => []

/-- The body, once classes have declarations. -/
def body (R : Reader) (ref : TypeRef → DeclId) : Content → Body
  | .message parts => .message (settle (R.assemble ref parts {})).1
  | .enum members => .enum { members, isClosed := !members.any (·.number == 0) }

/-- What is odd about a class. It does not depend on where other classes are declared. -/
def notes (R : Reader) : Content → List (String × Anomaly)
  | .message parts => parts.flatMap Part.notes ++ (settle (R.assemble (fun _ => 0) parts {})).2
  | .enum _ => []

end Content

/-- All that a recovery takes from a class. -/
structure Profile where
  name : String
  isDeprecated : Bool
  /-- The message class that the class belongs to. -/
  owner : Option TypeRef
  content : Content

namespace Reader
variable (R : Reader)

/-- A member of an enum, if its constant is a number. -/
def memberOf? (enumName : String) (f : Catalog.Field TypeRef) : Option EnumMember :=
  (f.constant.bind (·.int32?)).map fun number =>
    { name := (originalName? R.lib.catalog (readIn f.attributes)).getD (Identifier.memberName R.names f.name enumName)
      number
      isDeprecated := hasAttribute R.lib.catalog (readIn f.attributes) Recovery.obsoleteAttribute }

/-- The constants with the numbers of a message's fields. -/
def numbersOf (t : TypeRef) : List (Catalog.Field TypeRef) :=
  (R.lib.catalog.fields t).filter fun f => f.isPublic && f.isStatic && f.isLiteral

/-- The name of a class in the schema. -/
def nameOf (t : TypeRef) : String := Identifier.typeName R.names (R.lib.catalog.name t)

/-- Whether a class is marked as obsolete. -/
def isObsolete (t : TypeRef) : Bool :=
  hasAttribute R.lib.catalog (readIn (R.lib.catalog.attributes t)) Recovery.obsoleteAttribute

/-- What the declaration of a class holds, if the class can be read. -/
def contentOf? (t : TypeRef) : Option Content :=
  if R.lib.catalog.isMessage t then
    (R.partsOf t false (R.numbersOf t) (R.lib.ownProperties t) []).map .message
  else if R.lib.catalog.isEnum t then
    (((R.lib.catalog.fields t).filter Recovery.isConstant).mapM (R.memberOf? (R.nameOf t))).map .enum
  else none

/-- The profile of a class that can be read. -/
def profileOf? (t : TypeRef) : Option Profile :=
  (R.contentOf? t).map fun content =>
    ⟨R.nameOf t, R.isObsolete t, R.lib.ownerOf? t, content⟩

end Reader

section Members
variable {R : Reader} {t : TypeRef} {enumName : String} {f : Catalog.Field TypeRef} {fields : List (Catalog.Field TypeRef)}

theorem yields_enumMember (h : Readable TypeRef.Spelled f.attributes) :
    Yields (enumMember R.env t enumName f) (R.memberOf? enumName f) := by
  unfold Reader.memberOf?
  rw [Recovery.enumMember_eq]
  cases f.constant.bind (·.int32?) with
  | none => exact yields_throw
  | some number => exact yields_bind (yields_search (answers_attributes h)) fun _ => yields_pure

theorem yields_enumMembers (h : ∀ f ∈ fields, Readable TypeRef.Spelled f.attributes) :
    Yields (enumMembers R.env t enumName fields) (fields.mapM (R.memberOf? enumName)) := by
  induction fields with
  | nil => exact yields_pure
  | cons f rest ih =>
    rw [List.mapM_cons]
    refine yields_bind (yields_enumMember (h f (by simp))) fun member => ?_
    exact yields_bind (ih fun g hg => h g (by simp [hg])) fun members => yields_pure

end Members

/-- Anomalies of a class as diagnostics. -/
def diagnosed (t : TypeRef) (notes : List (String × Anomaly)) : List Recovery.Diagnostic :=
  notes.map fun (member, x) => ⟨t.key, member, x⟩

theorem diagnosed_append (t : TypeRef) (xs ys : List (String × Anomaly)) :
    diagnosed t (xs ++ ys) = diagnosed t xs ++ diagnosed t ys := List.map_append

namespace Profile
variable (R : Reader) (P : Profile)

/-- The classes that have to be declared with a class. -/
def classes : List TypeRef := P.owner.toList ++ P.content.classes R

/-- The face of the class, once other classes have declarations. -/
def face (ref : TypeRef → DeclId) : Face := ⟨P.name, P.isDeprecated, P.content.body R ref⟩

/-- What is noted of the class. -/
def diagnostics (t : TypeRef) : List Recovery.Diagnostic := diagnosed t (P.content.notes R)

end Profile

/-- A class cannot be declared without another. -/
def Reader.Refers (R : Reader) (t u : TypeRef) : Prop := ∃ P, R.profileOf? t = some P ∧ u ∈ P.classes R

section Profiles
variable {R : Reader} {P : Profile} {t u : TypeRef} {ref ref' : TypeRef → DeclId} {σ : DeclId → DeclId}

theorem face_congr (h : ∀ u ∈ P.classes R, ref u = ref' u) : P.face R ref = P.face R ref' := by
  obtain ⟨name, isDeprecated, owner, content⟩ := P
  cases content with
  | enum => rfl
  | message parts =>
    simp only [Profile.face, Content.body]
    rw [assemble_congr fun u hu => h u (List.mem_append_right _ hu)]

theorem face_rename : P.face R (σ ∘ ref) = (P.face R ref).rename σ := by
  obtain ⟨name, isDeprecated, owner, content⟩ := P
  cases content with
  | enum => rfl
  | message parts =>
    have hassemble : R.assemble (σ ∘ ref) parts {} = (R.assemble ref parts {}).rename σ := assemble_rename σ {}
    simp only [Profile.face, Content.body, hassemble, settle_rename]
    rfl

theorem notes_settle (ref : TypeRef → DeclId) (parts : List Part) :
    (settle (R.assemble ref parts {})).2 = (settle (R.assemble (fun _ => 0) parts {})).2 := by
  have hassemble : R.assemble (fun _ => 0) parts {} = (R.assemble ref parts {}).rename fun _ => 0 :=
    assemble_rename (fun _ => 0) {}
  rw [hassemble, settle_rename]

theorem nested_of_body {content : Content} {m : Message} (h : content.body R ref = .message m) : m.nested = [] := by
  cases content with
  | enum => cases h
  | message parts =>
    cases h
    exact nested_assemble

/-! ## The classes of a profile -/

/-- A class that a library knows: it is mentioned or defined there. -/
def Library.Knows (lib : Library) (u : TypeRef) : Prop :=
  (∃ r ∈ lib.references, u.Within r) ∨ ∃ e ∈ lib.entries, u = .named e.fullName

theorem Library.Knows.spelled (hl : R.lib.Legible) (h : R.lib.Knows u) : u.Spelled := by
  rcases h with ⟨r, hr, hu⟩ | ⟨e, he, rfl⟩
  · exact (hl.reference r hr).within hu
  · exact spelled_named (hl.fullName e he)

theorem mem_of_mem_partsOf {skip : Bool} {numbers : List (Catalog.Field TypeRef)} {properties : List (Property TypeRef)}
    {taken : List Int} {parts : List Part} (h : R.partsOf t skip numbers properties taken = some parts)
    {p : Property TypeRef} {attributes : List (Attribute TypeRef)} {number : Int} {isOptional : Bool}
    (hp : .field p attributes number isOptional ∈ parts) : p ∈ properties := by
  induction properties generalizing skip numbers taken parts with
  | nil =>
    rw [Reader.partsOf] at h
    cases h
    cases hp
  | cons q rest ih =>
    apply List.mem_cons.2
    cases skip with
    | true => exact .inr (ih h hp)
    | false =>
      -- Every case leaves the properties that follow, and only one of them adds a field.
      rw [Reader.partsOf] at h
      split at h
      · exact .inr (ih h hp)
      · obtain ⟨others, ho, rfl⟩ := Option.map_eq_some_iff.1 h
        exact .inr (ih ho (by simpa using hp))
      · obtain ⟨others, ho, rfl⟩ := Option.map_eq_some_iff.1 h
        exact .inr (ih ho (by simpa using hp))
      · cases h
      · split at h
        · obtain ⟨others, ho, rfl⟩ := Option.map_eq_some_iff.1 h
          exact .inr (ih ho (by simpa using hp))
        · obtain ⟨others, ho, rfl⟩ := Option.map_eq_some_iff.1 h
          rcases List.mem_cons.1 hp with hp | hp
          · cases hp
            exact .inl rfl
          · exact .inr (ih ho hp)

theorem contentOf?_of_message (h : R.lib.catalog.isMessage t = true) :
    R.contentOf? t = (R.partsOf t false (R.numbersOf t) (R.lib.ownProperties t) []).map .message := if_pos h

theorem contentOf?_of_enum (h : R.lib.catalog.isEnum t = true) :
    R.contentOf? t =
      (((R.lib.catalog.fields t).filter Recovery.isConstant).mapM (R.memberOf? (R.nameOf t))).map .enum := by
  have hmessage : R.lib.catalog.isMessage t = false := by
    by_contra hm
    simp [not_enum_of_message (Bool.not_eq_false _ ▸ hm)] at h
  rw [Reader.contentOf?, hmessage, h]
  rfl

/-- An owner is a class with a definition. -/
theorem knows_ownerOf? {lib : Library} (h : lib.ownerOf? t = some u) : lib.Knows u := by
  obtain ⟨haround, hmessage⟩ := Option.filter_eq_some_iff.1 h
  have hnamed : ∀ {x r : TypeRef}, lib.catalog.declaring? x = some r → r = .named r.name := by
    intro x r hr
    obtain ⟨outer, -, rfl⟩ := Option.map_eq_some_iff.1 hr
    rfl
  have hu : u = .named u.name := by
    unfold Library.around? at haround
    split at haround
    · cases haround
    · rename_i outer houter
      split at haround
      · exact hnamed haround
      · cases haround
        exact hnamed houter
  have hsealed : (lib.definitionOf? u).any (·.isSealed) = true := by
    simp only [Catalog.isMessage, Bool.and_eq_true] at hmessage
    exact hmessage.1.2
  cases hd : lib.definitionOf? u with
  | none => simp [hd] at hsealed
  | some d =>
    obtain ⟨e, he, hname, -⟩ := exists_entry_of_definition hd
    exact .inr ⟨e, he, hname ▸ hu⟩

theorem knows_of_mem_classes (h : R.profileOf? t = some P) (hu : u ∈ P.classes R) : R.lib.Knows u := by
  obtain ⟨content, hc, rfl⟩ := Option.map_eq_some_iff.1 h
  rcases List.mem_append.1 hu with hu | hu
  · exact knows_ownerOf? (by simpa using hu)
  · cases content with
    | enum members => cases hu
    | message parts =>
      obtain ⟨part, hpart, hu⟩ := List.mem_flatMap.1 hu
      cases part with
      | choice | note => cases hu
      | field p attributes number isOptional =>
        have hp : p ∈ R.lib.ownProperties t := by
          unfold Reader.contentOf? at hc
          split at hc
          · obtain ⟨_, hparts, hmessage⟩ := Option.map_eq_some_iff.1 hc
            cases hmessage
            exact mem_of_mem_partsOf hparts hpart
          · split at hc
            · obtain ⟨_, -, henum⟩ := Option.map_eq_some_iff.1 hc
              cases henum
            · cases hc
        obtain ⟨e, he, hp⟩ := exists_entry_of_ownProperty hp
        exact .inl ⟨p.type, mem_references_of_property he hp, Reader.within_of_mem_classes hu⟩

end Profiles

end ProtoRecovery.Managed
