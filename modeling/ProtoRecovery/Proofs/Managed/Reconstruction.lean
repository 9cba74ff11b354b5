import ProtoRecovery.Proofs.Managed.Items
import ProtoRecovery.Proofs.Recovery.Session
/-!
# Messages made again from generated classes

A class is generated from a list of fields and choices. Recovering it gives back those fields, in the order of
their numbers, and those choices, and nothing is found to be odd.
-/

namespace ProtoRecovery.Managed.Generated

open Schema (DeclId FieldType)
open Recovery

/-! ## What is read of all items -/

section Fold
variable (type : Field → FieldType) {items : List Item} {b : Schema.Message}

theorem fields_foldl (hfresh : ∀ f ∈ fields items, f.number.toInt ∉ b.fields.map (·.number))
    (hnodup : ((fields items).map (·.number.toInt)).Nodup) :
    (items.foldl (readItem type) b).fields.Perm (b.fields ++ (fields items).map fun f => f.read (type f)) := by
  induction items generalizing b with
  | nil => simp [fields]
  | cons i rest ih =>
    cases i with
    | choice c => exact ih hfresh hnodup
    | field f =>
      obtain ⟨hnumber, hnodup⟩ := List.nodup_cons.1 hnodup
      have hinsert : (b.insert (f.read (type f))).fields.Perm (f.read (type f) :: b.fields) :=
        Schema.Message.insertAscending_perm (hfresh f (List.mem_cons_self ..))
      have hrest := ih (b := b.insert (f.read (type f))) (fun g hg hmem => ?_) hnodup
      · refine hrest.trans ((hinsert.append_right _).trans ?_)
        exact List.perm_middle.symm
      · rcases List.mem_cons.1 ((hinsert.map (·.number)).mem_iff.1 hmem) with heq | hmem
        · exact hnumber (List.mem_map.2 ⟨g, hg, heq⟩)
        · exact hfresh g (List.mem_cons_of_mem _ hg) hmem

theorem ascending_foldl (h : Schema.Message.Ascending b.fields) :
    Schema.Message.Ascending (items.foldl (readItem type) b).fields := by
  induction items generalizing b with
  | nil => exact h
  | cons i rest ih =>
    cases i with
    | choice c => exact ih h
    | field f => exact ih (Schema.Message.ascending_insertAscending _ h)

theorem choices_foldl : (items.foldl (readItem type) b).choices = b.choices ++ (choices items).map Choice.read := by
  induction items generalizing b with
  | nil => simp [choices]
  | cons i rest ih =>
    cases i with
    | choice c => exact ih.trans (List.append_assoc ..)
    | field f => exact ih

theorem nested_foldl : (items.foldl (readItem type) b).nested = b.nested := by
  induction items generalizing b with
  | nil => rfl
  | cons i rest ih => cases i <;> exact ih

end Fold

/-! ## What is to come out -/

/-- A class as a generator makes it from a sound list of items; `type` tells what the types of fields mean. -/
structure Message.Sound (m : Message) (type : Field → FieldType) : Prop where
  topLevel : m.declaringType = none
  types : ∀ f ∈ fields m.items, Denotes f.type (type f)
  numbers : ((fields m.items).map (·.number)).Nodup
  names : ((choices m.items).map (·.name)).Nodup
  nonempty : ∀ c ∈ choices m.items, c.cases ≠ []
  positive : ∀ c ∈ choices m.items, ∀ x ∈ c.cases, 0 < x.2
  listed : ∀ c ∈ choices m.items, ∀ x ∈ c.cases, ∃ f ∈ fields m.items, f.number = x.2
  once : ((choices m.items).flatMap fun c => c.cases.map (·.2)).Nodup

/-- Whether a field belongs to a choice. -/
def Message.isChosen (m : Message) (f : Field) : Bool :=
  (choices m.items).any fun c => c.cases.any fun x => x.2 = f.number

/-- The field that a class was generated from. -/
def Message.expected (m : Message) (type : Field → FieldType) (f : Field) : Schema.Field where
  name := Identifier.fieldName none f.name
  number := f.number.toInt
  type := type f
  isDeprecated := false
  isOptional := f.hasPresence && !m.isChosen f && !(type f).isCollection

/-- A message with the fields and choices that a class was generated from. -/
structure Message.Describes (m : Message) (type : Field → FieldType) (body : Schema.Message) : Prop where
  fields : body.fields.Perm ((fields m.items).map (m.expected type))
  ascending : body.fields.Pairwise fun f g => f.number < g.number
  choices : body.choices =
    (choices m.items).map fun c => ⟨Identifier.lowerWords c.name, c.cases.map fun x => x.2.toInt⟩
  nested : body.nested = []

section Settled
variable {m : Message} {type : Field → FieldType}

/-- The message as it is read, before choices are sorted out. -/
def Message.unsettled (m : Message) (type : Field → FieldType) : Schema.Message := m.items.foldl (readItem type) {}

theorem choices_unsettled : (m.unsettled type).choices = (choices m.items).map Choice.read :=
  (choices_foldl type).trans (List.nil_append _)

/-- What is left optional once choices are sorted out. -/
theorem settled_read (f : Field) :
    settledField (((choices m.items).map Choice.read).flatMap (·.numbers)) (f.read (type f)) =
      m.expected type f := by
  have hclaimed : (((choices m.items).map Choice.read).flatMap (·.numbers)).contains (f.read (type f)).number =
      m.isChosen f := by
    rw [Bool.eq_iff_iff]
    simp [Message.isChosen, Choice.read, Field.read, Int32.toInt_inj]
  unfold settledField
  rw [hclaimed]
  cases hchosen : m.isChosen f <;> cases hcollection : (type f).isCollection <;>
    simp [Message.expected, Field.read, hchosen, hcollection]

variable (hm : m.Sound type)
include hm

theorem numbers_toInt : ((fields m.items).map (·.number.toInt)).Nodup := by
  have h := hm.numbers.map fun _ _ => Int32.toInt_inj.1
  rwa [List.map_map] at h

theorem fields_unsettled :
    (m.unsettled type).fields.Perm ((fields m.items).map fun f => f.read (type f)) :=
  fields_foldl type (by simp) (numbers_toInt hm)

theorem choices_there {c : Schema.Choice} (hc : c ∈ (m.unsettled type).choices) {n : Int} (hn : n ∈ c.numbers) :
    n ∈ (m.unsettled type).fields.map (·.number) := by
  rw [choices_unsettled] at hc
  obtain ⟨d, hd, rfl⟩ := List.mem_map.1 hc
  obtain ⟨x, hx, rfl⟩ := List.mem_map.1 hn
  obtain ⟨f, hf, hnumber⟩ := hm.listed d hd x hx
  rw [((fields_unsettled hm).map _).mem_iff, List.map_map]
  exact List.mem_map.2 ⟨f, hf, congrArg Int32.toInt hnumber⟩

theorem choices_once : ((m.unsettled type).choices.flatMap (·.numbers)).Nodup := by
  have h := hm.once.map fun _ _ => Int32.toInt_inj.1
  rw [List.map_flatMap] at h
  rw [choices_unsettled, List.flatMap_map]
  simpa only [Choice.read, List.map_map, Function.comp_def] using h

theorem choices_nonempty {c : Schema.Choice} (hc : c ∈ (m.unsettled type).choices) : c.numbers ≠ [] := by
  rw [choices_unsettled] at hc
  obtain ⟨d, hd, rfl⟩ := List.mem_map.1 hc
  exact fun h => hm.nonempty d hd (List.map_eq_nil_iff.1 h)

/-- Nothing is found to be odd, and the message is the one to come out. -/
theorem settle_unsettled :
    ∃ body, settle (m.unsettled type) = (body, []) ∧ m.Describes type body := by
  refine ⟨_, settle_of_fresh (fun _ hc _ hn => choices_there hm hc hn) (choices_once hm)
    fun _ hc => choices_nonempty hm hc, ?_⟩
  refine ⟨?_, ?_, choices_unsettled, nested_foldl type⟩
  · have h := (fields_unsettled hm).map (settledField (((choices m.items).map Choice.read).flatMap (·.numbers)))
    rw [List.map_map] at h
    rw [choices_unsettled]
    exact h.trans (.of_eq (List.map_congr_left fun f _ => settled_read f))
  · have hascending : Schema.Message.Ascending (m.unsettled type).fields := ascending_foldl type .nil
    rw [List.pairwise_map]
    refine hascending.imp fun hlt => ?_
    rwa [number_settledField, number_settledField]

end Settled

/-! ## Deep enough -/

theorem weight_le_weightAll {r : TypeRef} {rs : List TypeRef} (h : r ∈ rs) : r.weight ≤ TypeRef.weightAll rs := by
  induction rs with
  | nil => cases h
  | cons x rest ih =>
    rw [TypeRef.weightAll]
    rcases List.mem_cons.1 h with rfl | h
    · omega
    · have := ih h
      omega

theorem le_foldl_weight (c : Catalog TypeRef) (pool : Catalog.Pool TypeRef) (n : Nat) :
    n ≤ pool.foldl (fun n x => n + c.weight x.2) n := by
  induction pool generalizing n with
  | nil => exact Nat.le_refl n
  | cons x rest ih => exact Nat.le_trans (Nat.le_add_right n _) (ih _)

theorem extent_lt_depthFor (c : Catalog TypeRef) (s : State TypeRef) (t : TypeRef) :
    c.extent < depthFor c s t := by
  unfold depthFor
  dsimp only
  have hsize := le_foldl_weight c s.pool (c.extent + c.weight t + 3)
  generalize s.pool.foldl (fun n x => n + c.weight x.2) (c.extent + c.weight t + 3) = size at hsize ⊢
  have hsquare := Nat.le_mul_self size
  omega

section Class
variable {m : Message} {lib : Library} (hlib : Alone m lib)
include hlib

theorem Alone.weight_le_extent {f : Field} (hf : f ∈ fields m.items) : f.type.weight ≤ lib.catalog.extent := by
  have hmem : f.type ∈ lib.references := by
    rw [Library.references, hlib.entries]
    refine List.mem_flatMap.2 ⟨⟨0, m.fullName, m.definition⟩, List.mem_cons_self .., ?_⟩
    obtain ⟨i, hi, hif⟩ := List.mem_filterMap.1 hf
    cases i with
    | choice c => cases hif
    | field g =>
      cases hif
      refine List.mem_append_right _ (List.mem_map.2 ⟨Generated.property f.name f.type true, ?_, rfl⟩)
      exact List.mem_map.2 ⟨(f.name, f.type, true), List.mem_flatMap.2 ⟨_, hi, by simp [Item.members]⟩, rfl⟩
  have hweight := weight_le_weightAll hmem
  show f.type.weight ≤ TypeRef.weightAll lib.references + lib.entries.length
  omega

theorem Alone.constants_itself :
    ((lib.catalog.fields (.named m.fullName)).filter fun f => f.isPublic && f.isStatic && f.isLiteral) =
      (m.items.flatMap Item.constants).map Library.fieldOf := by
  have hfields : lib.catalog.fields (.named m.fullName) = (m.items.flatMap Item.constants).map Library.fieldOf := by
    show ((lib.definitionOf? (.named m.fullName)).map _).getD [] = _
    rw [hlib.definitionOf?_itself]
    rfl
  rw [hfields, List.filter_eq_self]
  intro f hf
  obtain ⟨record, hrecord, rfl⟩ := List.mem_map.1 hf
  obtain ⟨i, -, hi⟩ := List.mem_flatMap.1 hrecord
  cases i with
  | choice c => cases hi
  | field f =>
    obtain rfl : record = literal (f.name ++ "FieldNumber") f.number := by simpa [Item.constants] using hi
    rfl

variable {options : Options}

theorem Alone.attributes_itself :
    attributesOf (setting lib options).catalog (.named m.fullName) = pure (.ok []) := by
  have h : (setting lib options).catalog.attributes (.named m.fullName) = .ok [] := by
    show ((lib.definitionOf? (.named m.fullName)).map fun d => Library.attributesOf d.attributes).getD (.ok []) = _
    rw [hlib.definitionOf?_itself]
    rfl
  unfold attributesOf
  rw [h]
  rfl

theorem Alone.typeName_itself : Identifier.typeName (setting lib options).names
    ((setting lib options).catalog.name (.named m.fullName)) = Identifier.simple m.name := by
  show Identifier.simple (((lib.definitionOf? (.named m.fullName)).map (·.name)).getD _) = _
  rw [hlib.definitionOf?_itself]
  rfl

variable {type : Field → FieldType} (hm : m.Sound type) (hname : m.Distinguished) {s : State TypeRef}
include hm hname

omit hlib in
theorem Message.Sound.apart : Apart m.Uses := apart_uses (fun f hf => (hm.types f hf).plainNames) hname

/-- The body of a generated class, read where nothing stands in the way. -/
theorem gives_messageBody_generated (hs : Own m.Uses s.pool) {d : Nat} (hdepth : lib.catalog.extent ≤ d)
    (id : DeclId) :
    ∃ body s', Gives (messageBody (setting lib options) (callsWithin (setting lib options) d)
      (.named m.fullName) id) s body s' ∧ m.Describes type body ∧ Quiet m.Uses s s' := by
  have hapart := hm.apart hname
  obtain ⟨hquiet, hproperties⟩ := quiet_after hs
    (answers_properties hapart hlib.uses_base hlib.definitionOf?_itself)
  have hpositive : ∀ c ∈ choices m.items, ∀ x ∈ c.cases, 0 < x.2.toInt :=
    fun c hc x hx => Int32.lt_iff_toInt_lt.1 (hm.positive c hc x hx)
  have hcalls : ∀ f ∈ fields m.items, ∀ s, Own m.Uses s.pool → ∃ s', Gives
      ((callsWithin (setting lib options) d).fieldType id f.type) s (type f) s' ∧ Quiet m.Uses s s' := by
    intro f hf s hs
    exact gives_fieldType_of_denotes hlib hapart (hm.types f hf) (fun x hx => .field hf hx)
      ((hlib.weight_le_extent hf).trans hdepth) id hs
  obtain ⟨s₁, hgives, hquiet₁⟩ := gives_items hlib hapart options hm.names hpositive type
    (fun f hf => (hm.types f hf).plainNames _ .refl) hcalls (fun _ hi => hi) (b := {}) (by simp)
    (numbers_toInt hm) hquiet.own
  obtain ⟨body, hsettle, hbody⟩ := settle_unsettled hm
  have hconstants : ((setting lib options).catalog.fields (.named m.fullName)).filter
      (fun f => f.isPublic && f.isStatic && f.isLiteral) = (m.items.flatMap Item.constants).map Library.fieldOf :=
    hlib.constants_itself
  have hproperties : (s.answer ((setting lib options).catalog.properties (.named m.fullName))).filter
      (fun p => !p.isInherited) = (m.items.flatMap (·.members m.fullName)).map m.property :=
    hproperties.trans (List.map_map ..)
  refine ⟨body, s₁, ?_, hbody, hquiet.trans hquiet₁⟩
  rw [gives_messageBody]
  refine ⟨⟨m.unsettled type, [], false⟩, s₁, ?_, congrArg Prod.fst hsettle, ?_⟩
  · rw [hconstants, hproperties]
    exact hgives
  · rw [congrArg Prod.snd hsettle, List.map_nil, List.append_nil]

/-- The declaration of a generated class, with the body that is read. -/
def Message.declaration (m : Message) (body : Schema.Message) : Schema.Declaration where
  name := Identifier.simple m.name
  isDeprecated := false
  file := some 0
  parent := none
  body := .message body

variable (options) in
omit hname in
/-- A generated class is put in a file of its own. -/
theorem gives_place_generated (calls : Calls TypeRef) (hs : Own m.Uses s.pool)
    (hschema : s.schema = ({} : Schema).declare (Identifier.simple m.name) false (.message {})) :
    ∃ s', Gives (place (setting lib options) calls (.named m.fullName) 0) s () s' ∧
      s'.schema.decls = [m.declaration {}] ∧ s'.diagnostics = s.diagnostics ∧ Own m.Uses s'.pool := by
  have hdeclaring : (setting lib options).catalog.declaring? (.named m.fullName) = none := by
    show ((lib.definitionOf? (.named m.fullName)).bind (·.declaringType)).map TypeRef.named = none
    rw [hlib.definitionOf?_itself]
    exact congrArg (Option.map TypeRef.named) hm.topLevel
  have howner : owner? (setting lib options).catalog (.named m.fullName) = pure none := by
    unfold owner? enclosing? Catalog.declaringOf?
    rw [hdeclaring]
    rfl
  refine ⟨_, gives_place.2 (.inr ⟨?_, rfl⟩), ?_, rfl, ?_⟩
  · rw [howner]
    rfl
  · rw [howner]
    show (openFile (setting lib options).catalog (.named m.fullName) 0 s.schema).decls = _
    rw [hschema]
    rfl
  · rw [howner]
    exact hs

/-- A generated class alone in its library is recovered as what it was generated from. -/
theorem gives_recoverMessage_generated :
    ∃ s body, Gives (recoverMessage (setting lib options) (.named m.fullName)) (start lib.catalog) 0 s ∧
      s.schema.decls = [m.declaration body] ∧ m.Describes type body ∧ s.diagnostics = [] := by
  -- One call for the message itself; what is left suffices for the type of any field.
  obtain ⟨d, hd⟩ : ∃ d, depthFor lib.catalog (start lib.catalog) (.named m.fullName) = d + 1 :=
    Nat.exists_eq_succ_of_ne_zero (Nat.ne_zero_of_lt (extent_lt_depthFor ..))
  have hdepth : lib.catalog.extent ≤ d := by
    have h := extent_lt_depthFor lib.catalog (start lib.catalog) (.named m.fullName)
    omega
  have hown : Own m.Uses (start lib.catalog).pool := hlib.own_pool (hm.apart hname)
  obtain ⟨s₁, hplace, hdecls, hdiagnostics, hown₁⟩ := gives_place_generated hlib options hm
    (s := (start lib.catalog).declared m.fullName (Identifier.simple m.name) false (.message {}))
    (callsWithin (setting lib options) d) hown rfl
  obtain ⟨body, s₂, hread, hbody, hquiet⟩ := gives_messageBody_generated hlib hm hname hown₁ hdepth 0
  refine ⟨s₂.changed (finishMessage · 0 body), body, ?_, ?_, hbody, hquiet.diagnostics.trans hdiagnostics⟩
  · have hmessage : Gives (message (setting lib options) (callsWithin (setting lib options) d) (.named m.fullName))
        (start lib.catalog) 0 (s₂.changed (finishMessage · 0 body)) := by
      refine gives_message.2 ⟨hlib.isMessage_itself, .inr ⟨rfl, rfl, [], s₁, body, s₂, ?_, ?_, hread, rfl⟩⟩
      · rw [hlib.attributes_itself]
        rfl
      · rw [hlib.attributes_itself, hlib.typeName_itself]
        exact hplace
    have hd : depthFor (setting lib options).catalog (start lib.catalog) (.named m.fullName) = d + 1 := hd
    rw [gives_recoverMessage, hd, message_succ]
    exact hmessage
  · show (s₂.schema.decls).modify 0 _ = _
    rw [hquiet.decls, hdecls]
    obtain ⟨fields, choices, nested⟩ := body
    obtain rfl : nested = [] := hbody.nested
    rfl

end Class

/-! ## Reconstruction -/

/-- Recovering a generated class undoes its generation. -/
theorem recovery_undoes_generation {m : Message} {type : Field → FieldType} (hm : m.Sound type)
    (hname : m.Distinguished) (a : Assembly) (ha : a.types = m.definitions) (options : Options) :
    ∃ lib t s body, Library.load [a] [] = .ok lib ∧ lib.catalog.get? m.fullName = some t ∧
      Gives (recoverMessage { catalog := lib.catalog, names := none, options } t) (start lib.catalog) 0 s ∧
      s.schema.decls = [m.declaration body] ∧ m.Describes type body ∧ s.diagnostics = [] := by
  have hload : Library.load [a] [] = .ok (.ofAssemblies [a] []) :=
    load_generated a [m] (by rw [ha, List.flatMap_singleton])
  have hlib : Alone m (.ofAssemblies [a] []) := ⟨by rw [entries_ofAssembly, Library.locate, ha]⟩
  obtain ⟨s, body, hgives, hdecls, hbody, hdiagnostics⟩ := gives_recoverMessage_generated hlib hm hname
  refine ⟨_, .named m.fullName, s, body, hload, ?_, hgives, hdecls, hbody, hdiagnostics⟩
  show (Library.get? _ m.fullName).map (fun entry => TypeRef.named entry.fullName) = _
  rw [hlib.get?_itself]
  rfl

/-- A class with an optional field, a list that is marked as one, a map and a choice between two fields. -/
def sample : Message where
  name := "Sample"
  namespaceName := some "App"
  items :=
    [.field ⟨"UserId", 7, .named "System.Int32", true⟩,
      .choice ⟨"Body", [("Text", 4), ("Data", 2)]⟩,
      .field ⟨"Text", 4, .named "System.String", true⟩,
      .field ⟨"Tags", 5, ⟨"Google.Protobuf.Collections.RepeatedField\x601", [.named "System.String"]⟩, true⟩,
      .field ⟨"Data", 2, .named "Google.Protobuf.ByteString", false⟩,
      .field ⟨"Times", 1, ⟨"Google.Protobuf.Collections.MapField\x602",
        [.named "System.String", .named "Google.Protobuf.WellKnownTypes.Timestamp"]⟩, false⟩]

/-- What the types in `sample` mean. -/
def sampleType (f : Field) : FieldType :=
  if f.name = "UserId" then .scalar .int32
  else if f.name = "Text" then .scalar .string
  else if f.name = "Tags" then .repeated (.scalar .string)
  else if f.name = "Data" then .scalar .bytes
  else .map (.scalar .string) (.wellKnown ⟨"google.protobuf.Timestamp", "google/protobuf/timestamp.proto"⟩)

theorem sample_sound : sample.Sound sampleType where
  topLevel := rfl
  types := by
    intro f hf
    rcases (by simpa [sample, fields] using hf : f = _ ∨ f = _ ∨ f = _ ∨ f = _ ∨ f = _) with
      rfl | rfl | rfl | rfl | rfl
    · exact .scalar (by decide)
    · exact .scalar (by decide)
    · exact .repeated (.scalar (by decide))
    · exact .scalar (by decide)
    · exact .map (.scalar (by decide)) (@Denotes.wellKnown "Timestamp" "timestamp" (by decide))
  numbers := by decide
  names := by decide
  nonempty := by decide
  positive := by decide
  listed := by decide
  once := by decide

theorem recovery_undoes_generation_sample :
    sample.Sound sampleType ∧ sample.Distinguished ∧
      ∃ lib t s body, Library.load [⟨"App", none, sample.definitions⟩] [] = .ok lib ∧
        lib.catalog.get? "App.Sample" = some t ∧
        Gives (recoverMessage { catalog := lib.catalog, names := none, options := {} } t) (start lib.catalog) 0 s ∧
        s.schema.decls = [sample.declaration body] ∧ sample.Describes sampleType body ∧ s.diagnostics = [] :=
  have hname : sample.Distinguished := Message.distinguished_of_unbracketed (by decide +kernel)
  ⟨sample_sound, hname, recovery_undoes_generation sample_sound hname _ rfl {}⟩

/-! ## A class called like a list -/

/-- A class that has the key of a list for its name, and a list of that kind for its field. -/
def namesake : Message where
  name := "RepeatedField\x601[[System.Int32]]"
  namespaceName := some "Google.Protobuf.Collections"
  items := [.field ⟨"Items", 1, ⟨"Google.Protobuf.Collections.RepeatedField\x601", [.named "System.Int32"]⟩, false⟩]

/-- The class loaded. -/
def namesakeLibrary : Library :=
  .ofAssemblies [⟨"App", none, namesake.definitions⟩] []

/-- The class recovered. -/
def namesakeOutcome : Except Error DeclId × State TypeRef :=
  outcome (recoverMessage { catalog := namesakeLibrary.catalog } (.named namesake.fullName))
    (start namesakeLibrary.catalog)

theorem namesake_sound : namesake.Sound fun _ => .repeated (.scalar .int32) where
  topLevel := rfl
  types := by
    intro f hf
    obtain rfl : f = _ := by simpa [namesake, fields] using hf
    exact .repeated (.scalar (by decide))
  numbers := by decide
  names := by decide
  nonempty := by decide
  positive := by decide
  listed := by decide
  once := by decide

/-- The list is taken for the class itself: the field comes out as a reference, and no list is there. -/
theorem list_taken_for_namesake :
    namesake.Sound (fun _ => .repeated (.scalar .int32)) ∧
      ¬∃ lib t s body, Library.load [⟨"App", none, namesake.definitions⟩] [] = .ok lib ∧
        lib.catalog.get? namesake.fullName = some t ∧
        Gives (recoverMessage { catalog := lib.catalog, names := none, options := {} } t) (start lib.catalog) 0 s ∧
        s.schema.decls = [namesake.declaration body] ∧
        namesake.Describes (fun _ => .repeated (.scalar .int32)) body ∧ s.diagnostics = [] := by
  refine ⟨namesake_sound, ?_⟩
  rintro ⟨lib, t, s, body, hload, ht, hgives, hdecls, hbody, -⟩
  -- There is only one library to load, one reference to find and one way to end, so the run can be looked at.
  rw [load_generated _ [namesake] (List.append_nil _).symm] at hload
  obtain rfl : namesakeLibrary = lib := Except.ok.inj hload
  obtain rfl : .named namesake.fullName = t := by
    have hfound : namesakeLibrary.catalog.get? namesake.fullName = some (.named namesake.fullName) := by
      decide +kernel
    exact Option.some.inj (hfound.symm.trans ht)
  have hrun : namesakeOutcome.1.toOption = some 0 := by decide +kernel
  obtain ⟨-, rfl⟩ := (gives_of_outcome hrun).unique hgives
  have hfields : (namesakeOutcome.2.schema.decls.map fun d => d.message?.map (·.fields)) =
      [some [⟨"items", 1, .reference 0, false, false⟩]] := by decide +kernel
  have hfields : [some body.fields] = [some [⟨"items", 1, .reference 0, false, false⟩]] := by
    rw [← hfields, namesakeOutcome, hdecls]
    rfl
  have hperm := hbody.fields
  rw [Option.some.inj (List.cons.inj hfields).1] at hperm
  have heq := List.perm_singleton.1 hperm.symm
  exact absurd heq (by decide +kernel)

end ProtoRecovery.Managed.Generated
