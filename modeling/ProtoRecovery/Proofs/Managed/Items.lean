import ProtoRecovery.Proofs.Managed.Plain
import ProtoRecovery.Proofs.Recovery.Effects
import ProtoRecovery.Proofs.Recovery.Settle
/-!
# Generated properties read one after the other

The constants and the properties of a generated class are read side by side. They keep in step because each
item leaves both where the next one starts: a field uses up one constant, its property and the property that
tells whether it is set, and a choice uses up one property and no constant.
-/

namespace ProtoRecovery.Managed.Generated

open Schema (DeclId FieldType Scalar WellKnown)
open Recovery

/-- What goes on while properties are read: imports and look-ups. -/
structure Quiet (used : TypeRef → Prop) (s s' : State TypeRef) : Prop where
  decls : s'.schema.decls = s.schema.decls
  diagnostics : s'.diagnostics = s.diagnostics
  own : Own used s'.pool

section Quiet
variable {used : TypeRef → Prop} {s s₁ s' : State TypeRef} {α : Type}

theorem Quiet.trans (h : Quiet used s s₁) (h' : Quiet used s₁ s') : Quiet used s s' :=
  ⟨h'.decls.trans h.decls, h'.diagnostics.trans h.diagnostics, h'.own⟩

theorem quiet_after {q : Catalog.Look TypeRef α} {P : α → Prop} (hs : Own used s.pool)
    (h : Answers (Own used) q P) : Quiet used s (s.after q) ∧ P (s.answer q) :=
  ⟨⟨rfl, rfl, (h s.pool hs).1⟩, (h s.pool hs).2⟩

theorem quiet_linkPath (hs : Own used s.pool) (source : DeclId) (path : String) :
    Quiet used s (s.changed (linkPath source path)) := by
  refine ⟨?_, rfl, hs⟩
  show (linkPath source path s.schema).decls = s.schema.decls
  unfold linkPath
  split <;> rfl

end Quiet

/-! ## Types of fields -/

/-- What a recovery without known names goes by. -/
def setting (lib : Library) (options : Options) : Setting TypeRef := { catalog := lib.catalog, options }

theorem ofClass?_scalar : ∀ x ∈ Scalar.classes, Scalar.ofClass? x.1 = some x.2 := by decide +kernel

theorem behind?_append (start text : String) : WellKnown.behind? start (start ++ text) = some text := by
  unfold WellKnown.behind?
  rw [String.toList_append, if_pos (by simp), List.drop_left, String.ofList_toList]

theorem ofClass?_wellKnown {x : String × String} (hx : x ∈ WellKnown.names) :
    Scalar.ofClass? ("Google.Protobuf.WellKnownTypes." ++ x.1) = none ∧
      WellKnown.ofClass? ("Google.Protobuf.WellKnownTypes." ++ x.1) =
        some ⟨"google.protobuf." ++ x.1, "google/protobuf/" ++ x.2 ++ ".proto"⟩ := by
  -- No scalar class is in the namespace of well-known types.
  have hclasses : ∀ y ∈ Scalar.classes, ¬WellKnown.classNamespace.toList <+: y.1.toList := by decide +kernel
  have hnames : ∀ y ∈ WellKnown.names, WellKnown.names.lookup y.1 = some y.2 := by decide +kernel
  constructor
  · unfold Scalar.ofClass?
    rw [List.lookup_eq_none_iff]
    intro y hy
    rw [bne_iff_ne]
    intro h
    exact hclasses y hy ⟨x.1.toList, by rw [← h, String.toList_append]; rfl⟩
  · show (WellKnown.behind? WellKnown.classNamespace (WellKnown.classNamespace ++ x.1)).bind _ = _
    rw [behind?_append, Option.bind_some, WellKnown.ofSimpleName?, hnames x hx]
    rfl

theorem fieldType_succ (env : Setting TypeRef) (depth : Nat) :
    (callsWithin env (depth + 1)).fieldType = fieldType env (callsWithin env depth) := rfl

theorem message_succ (env : Setting TypeRef) (depth : Nat) :
    (callsWithin env (depth + 1)).message = message env (callsWithin env depth) := rfl

theorem exists_succ_of_weight {r : TypeRef} {depth : Nat} (h : r.weight ≤ depth) : ∃ d, depth = d + 1 := by
  obtain ⟨name, args⟩ := r
  rw [TypeRef.weight] at h
  exact ⟨depth - 1, by omega⟩

section Class
variable {m : Message} {lib : Library} (hlib : Alone m lib) (hapart : Apart m.Uses) {options : Options}
include hlib hapart

omit hlib in
theorem quiet_arguments {r : TypeRef} (huses : ∀ x : TypeRef, x.Within r → m.Uses x) {s : State TypeRef}
    (hs : Own m.Uses s.pool) :
    Quiet m.Uses s (s.after (lib.catalog.argumentsOf r)) ∧ s.answer (lib.catalog.argumentsOf r) = r.args :=
  quiet_after hs (answers_resolveAll hapart fun a ha => huses a (.arg ha .refl))

omit hlib in
/-- A type without arguments holds one value. -/
theorem gives_fieldType_named {name : String} (huses : m.Uses (.named name)) {depth : Nat} {source : DeclId}
    {type : FieldType} {s : State TypeRef} (hs : Own m.Uses s.pool)
    (h : ∀ s₁, Quiet m.Uses s s₁ → ∃ s', Gives (singleType (setting lib options)
      (callsWithin (setting lib options) depth) source (.named name)) s₁ type s' ∧ Quiet m.Uses s₁ s') :
    ∃ s', Gives ((callsWithin (setting lib options) (depth + 1)).fieldType source (.named name)) s type s' ∧
      Quiet m.Uses s s' := by
  have hwithin : ∀ x : TypeRef, x.Within (.named name) → m.Uses x := by
    intro x hx
    cases hx with
    | refl => exact huses
    | arg ha _ => cases ha
  obtain ⟨hquiet, hargs⟩ : Quiet m.Uses s (s.after ((setting lib options).catalog.argumentsOf (.named name))) ∧
      s.answer ((setting lib options).catalog.argumentsOf (.named name)) = [] := quiet_arguments hapart hwithin hs
  obtain ⟨s', hgives, hquiet'⟩ := h _ hquiet
  have hwrapper : wrapper? (setting lib options).catalog (.named name) [] = none := by
    unfold wrapper?
    split <;> rfl
  refine ⟨s', ?_, hquiet.trans hquiet'⟩
  rw [fieldType_succ, gives_fieldType, hargs, hwrapper]
  exact hgives

/-- What is asked first of a collection. -/
theorem quiet_collection {r : TypeRef} (huses : ∀ x : TypeRef, x.Within r → m.Uses x) (hr : r.name ∈ collections)
    {s : State TypeRef} (hs : Own m.Uses s.pool) :
    Quiet m.Uses s (s.after ((setting lib options).catalog.argumentsOf r)) ∧
      s.answer ((setting lib options).catalog.argumentsOf r) = r.args ∧
      wrapper? (setting lib options).catalog r r.args = none :=
  ⟨(quiet_arguments hapart huses hs).1, (quiet_arguments hapart huses hs).2, hlib.wrapper?_collection hr r.args⟩

/-- A plain type is found for what it means, at every depth that its arguments need. -/
theorem gives_fieldType_of_denotes {r : TypeRef} {type : FieldType} (hr : Denotes r type)
    (huses : ∀ x : TypeRef, x.Within r → m.Uses x) {depth : Nat} (hdepth : r.weight ≤ depth) (source : DeclId)
    {s : State TypeRef} (hs : Own m.Uses s.pool) :
    ∃ s', Gives ((callsWithin (setting lib options) depth).fieldType source r) s type s' ∧
      Quiet m.Uses s s' := by
  induction hr generalizing depth s with
  | @scalar name k h =>
    obtain ⟨d, rfl⟩ := exists_succ_of_weight hdepth
    refine gives_fieldType_named hapart (huses _ .refl) hs fun s₁ hs₁ => ⟨s₁, ?_, ⟨rfl, rfl, hs₁.own⟩⟩
    have hclass : Scalar.ofClass? ((setting lib options).catalog.fullName (.named name)) = some k :=
      ofClass?_scalar (name, k) h
    rw [gives_singleType, hclass]
    exact ⟨rfl, rfl⟩
  | @wellKnown simple file h =>
    obtain ⟨d, rfl⟩ := exists_succ_of_weight hdepth
    refine gives_fieldType_named hapart (huses _ .refl) hs fun s₁ hs₁ =>
      ⟨_, ?_, quiet_linkPath hs₁.own source ("google/protobuf/" ++ file ++ ".proto")⟩
    obtain ⟨hscalar, hclass⟩ := ofClass?_wellKnown h
    have hname : (setting lib options).catalog.fullName (.named ("Google.Protobuf.WellKnownTypes." ++ simple)) =
      "Google.Protobuf.WellKnownTypes." ++ simple := rfl
    rw [gives_singleType, hname, hscalar, hclass]
    exact ⟨rfl, rfl⟩
  | @repeated r t hr ih =>
    obtain ⟨d, rfl⟩ := exists_succ_of_weight hdepth
    have hweight : r.weight ≤ d := by simpa [TypeRef.weight, TypeRef.weightAll] using hdepth
    obtain ⟨hquiet, hargs, hwrapper⟩ := quiet_collection hlib hapart huses (by simp [collections]) hs
    obtain ⟨s', hgives, hquiet'⟩ := ih (fun x hx => huses x (.arg (by simp) hx)) hweight hquiet.own
    refine ⟨s', ?_, hquiet.trans hquiet'⟩
    rw [fieldType_succ, gives_fieldType, hargs, hwrapper]
    exact ⟨t, hgives, rfl⟩
  | @map r q t u hr hq ihr ihq =>
    obtain ⟨d, rfl⟩ := exists_succ_of_weight hdepth
    have hweight : r.weight + q.weight ≤ d := by simpa [TypeRef.weight, TypeRef.weightAll] using hdepth
    obtain ⟨hquiet, hargs, hwrapper⟩ := quiet_collection hlib hapart huses (by simp [collections]) hs
    obtain ⟨s₁, hkey, hquiet₁⟩ :=
      ihr (fun x hx => huses x (.arg (by simp) hx)) (Nat.le_of_add_right_le hweight) hquiet.own
    obtain ⟨s', hvalue, hquiet'⟩ :=
      ihq (fun x hx => huses x (.arg (by simp) hx)) (Nat.le_of_add_left_le hweight) hquiet₁.own
    refine ⟨s', ?_, (hquiet.trans hquiet₁).trans hquiet'⟩
    rw [fieldType_succ, gives_fieldType, hargs, hwrapper]
    exact ⟨t, s₁, u, hkey, hvalue, rfl⟩

end Class

/-! ## Properties as they are generated -/

/-- The attributes of generated properties. -/
def marks : List (Catalog.Attribute TypeRef) := [⟨.named nonUserCodeAttribute, .ok []⟩]

/-- A property of a class, as the catalog gives it. -/
def Message.property (m : Message) (x : String × TypeRef × Bool) : Catalog.Property TypeRef :=
  Library.propertyOf m.definition false (Generated.property x.1 x.2.1 x.2.2)

theorem not_isVirtual_of_mem {m : Message} {method : MethodRecord} (h : method ∈ m.definition.methods) :
    method.isVirtual = false := by
  obtain ⟨⟨name, type, isWritable⟩, -, h⟩ := List.mem_flatMap.1 h
  cases isWritable
  · obtain rfl : method = _ := by simpa [accessors] using h
    rfl
  · rcases (by simpa [accessors] using h : method = _ ∨ method = _) with rfl | rfl <;> rfl

section Property
variable {m : Message} {x : String × TypeRef × Bool} (hx : x ∈ m.items.flatMap (·.members m.fullName))
include hx

theorem mem_methods {method : MethodRecord} (h : method ∈ accessors x.1 x.2.1 x.2.2) :
    method ∈ m.definition.methods :=
  List.mem_flatMap.2 ⟨x, hx, h⟩

theorem getter_property : ∃ getter, (m.property x).getter = some getter ∧ getter.isVirtual = false := by
  have hmem : ({ name := "get_" ++ x.1, returnType := x.2.1, isPublic := true } : MethodRecord) ∈
      m.definition.methods := mem_methods hx (by unfold accessors; split <;> simp)
  obtain ⟨method, hmethod⟩ := Option.isSome_iff_exists.1 (method?_isSome hmem)
  refine ⟨Library.methodOf false method, ?_, not_isVirtual_of_mem (List.mem_of_find?_eq_some hmethod)⟩
  show (m.definition.method? ("get_" ++ x.1)).map (Library.methodOf false) = _
  rw [hmethod, Option.map_some]

theorem setter_property : (m.property x).setter.isSome = x.2.2 := by
  obtain ⟨name, type, isWritable⟩ := x
  cases isWritable with
  | false => rfl
  | true =>
    have hmem : ({ name := "set_" ++ name, parameters := [type], isPublic := true } : MethodRecord) ∈
        m.definition.methods := mem_methods hx (by simp [accessors])
    show ((m.definition.method? ("set_" ++ name)).map (Library.methodOf false)).isSome = true
    rw [Option.isSome_map]
    exact method?_isSome hmem

end Property

/-! ## One item after the other -/

/-- What is read of a field before choices are sorted out. -/
def Field.read (f : Field) (type : FieldType) : Schema.Field where
  name := Identifier.fieldName none f.name
  number := f.number.toInt
  type
  isDeprecated := false
  isOptional := f.hasPresence

/-- What is read of a choice. -/
def Choice.read (c : Choice) : Schema.Choice := ⟨Identifier.lowerWords c.name, c.cases.map (·.2.toInt)⟩

/-- What is read of an item, added to a message. -/
def readItem (type : Field → FieldType) (b : Schema.Message) : Item → Schema.Message
  | .field f => b.insert (f.read (type f))
  | .choice c => { b with choices := b.choices ++ [c.read] }

theorem choiceName_case (name : String) :
    Identifier.choiceName none (name ++ "Case") = Identifier.lowerWords name := by
  have hlist : (name ++ "Case").toList = name.toList ++ Identifier.choiceSuffix := String.toList_append
  have hobfuscated : Identifier.isObfuscated (name ++ "Case") = false := by
    simp [Identifier.isObfuscated, hlist, Identifier.choiceSuffix]
  have htrim : Identifier.trimChoice (name ++ "Case") = name := by
    simp [Identifier.trimChoice, hlist]
  unfold Identifier.choiceName Identifier.fixed? Identifier.known?
  rw [hobfuscated]
  exact congrArg Identifier.lowerWords htrim

section Items
variable {m : Message} {lib : Library} (hlib : Alone m lib) (hapart : Apart m.Uses) {options : Options}
  {calls : Calls TypeRef} {id : DeclId} {numbers : List (Catalog.Field TypeRef)}
  {rest : List (Catalog.Property TypeRef)} {b : Schema.Message} {w : InProgress TypeRef} {s : State TypeRef}
include hapart

theorem gives_marked (lib : Library) (options : Options) {x : String × TypeRef × Bool}
    (hx : x ∈ m.items.flatMap (·.members m.fullName)) (hs : Own m.Uses s.pool) :
    ∃ s₁, Gives (search (markedAttributes? (setting lib options) (m.property x))) s (some marks) s₁ ∧
      Quiet m.Uses s s₁ := by
  obtain ⟨getter, hgetter, hvirtual⟩ := getter_property hx
  have hmarks : ∀ a ∈ marks, m.Uses a.type := by
    intro a ha
    obtain rfl : a = _ := by simpa [marks] using ha
    exact .outside (by simp)
  have hanswers : Answers (Own m.Uses) (lib.catalog.readAttributes (.ok marks)).run (· = .ok marks) :=
    answers_readAttributes hapart hmarks
  obtain ⟨hquiet, hread⟩ := quiet_after hs hanswers
  refine ⟨_, ?_, hquiet⟩
  rw [gives_markedAttributes, hgetter]
  dsimp only
  rw [if_neg (by simp [hvirtual])]
  have hmarked : hasAttribute (setting lib options).catalog marks nonUserCodeAttribute = true := rfl
  exact ⟨marks, hread, by rw [hmarked, Bool.or_true, if_pos rfl], rfl⟩

/-- A property is found to be marked, and then its type is. -/
theorem gives_property (lib : Library) (options : Options) {x : String × TypeRef × Bool}
    (hx : x ∈ m.items.flatMap (·.members m.fullName)) (huses : m.Uses x.2.1) (hs : Own m.Uses s.pool) :
    ∃ s₁, Gives (search (markedAttributes? (setting lib options) (m.property x))) s (some marks) s₁ ∧
      s₁.answer ((setting lib options).catalog.typeOf (m.property x)) = x.2.1 ∧
      Quiet m.Uses s (s₁.after ((setting lib options).catalog.typeOf (m.property x))) := by
  obtain ⟨s₁, hmarked, hquiet⟩ := gives_marked hapart lib options hx hs
  have hanswers : Answers (Own m.Uses) (lib.catalog.typeOf (m.property x)) (· = x.2.1) :=
    answers_resolve hapart huses
  obtain ⟨hquiet', htype⟩ := quiet_after hquiet.own hanswers
  exact ⟨s₁, hmarked, htype, hquiet.trans hquiet'⟩

include hlib

/-- The property of a field tells the field, with the next number. -/
theorem gives_fieldTold {f : Field} (hf : f ∈ fields m.items)
    (hx : (f.name, f.type, true) ∈ m.items.flatMap (·.members m.fullName)) (hplain : PlainName f.type.name)
    (hrest : Answers (Own m.Uses) (Recovery.hasPresence (setting lib options).catalog rest) (· = f.hasPresence))
    (hs : Own m.Uses s.pool) :
    ∃ s', Gives (search (tellProperty (setting lib options) (.named m.fullName)
      (Library.fieldOf (literal (f.name ++ "FieldNumber") f.number) :: numbers) (m.property (f.name, f.type, true)) rest)) s
      (.field f.type marks f.number.toInt f.hasPresence) s' ∧ Quiet m.Uses s s' := by
  obtain ⟨s₁, hmarked, htype, hquiet₁⟩ := gives_property hapart lib options hx (.field hf .refl) hs
  dsimp only at htype
  have hcase : Answers (Own m.Uses) (isCaseEnum (setting lib options).catalog (.named m.fullName) f.type)
      (· = false) := by
    have hplain : (setting lib options).catalog.isEnum f.type = false := hlib.isEnum_plain hplain
    unfold isCaseEnum
    rw [hplain]
    exact answers_pure rfl
  obtain ⟨hquiet₂, hcase⟩ := quiet_after hquiet₁.own hcase
  obtain ⟨hquiet₃, hpresence⟩ := quiet_after hquiet₂.own hrest
  refine ⟨_, gives_tellProperty.2 ⟨some marks, s₁, hmarked, ?_⟩, hquiet₁.trans (hquiet₂.trans hquiet₃)⟩
  dsimp only
  rw [htype, if_neg (by rw [hcase]; exact Bool.false_ne_true)]
  exact ⟨f.number.toInt, rfl, by rw [hpresence], rfl⟩

variable (numbers) in
/-- The property of a field takes the next number. -/
theorem gives_field {f : Field} {type : FieldType} (hf : f ∈ fields m.items)
    (hx : (f.name, f.type, true) ∈ m.items.flatMap (·.members m.fullName)) (hplain : PlainName f.type.name)
    (hcalls : ∀ s, Own m.Uses s.pool → ∃ s', Gives (calls.fieldType id f.type) s type s' ∧ Quiet m.Uses s s')
    (hrest : Answers (Own m.Uses) (Recovery.hasPresence (setting lib options).catalog rest) (· = f.hasPresence))
    (hfresh : f.number.toInt ∉ b.fields.map (·.number)) (hs : Own m.Uses s.pool) :
    ∃ s', Gives (addProperty (setting lib options) calls (.named m.fullName) id (m.property (f.name, f.type, true)) rest
      ⟨b, Library.fieldOf (literal (f.name ++ "FieldNumber") f.number) :: numbers, false⟩) s
      ⟨b.insert (f.read type), numbers, f.hasPresence⟩ s' ∧ Quiet m.Uses s s' := by
  obtain ⟨s₁, htold, hquiet₁⟩ := gives_fieldTold hlib hapart hf hx hplain hrest hs
  obtain ⟨s₂, hfound, hquiet₂⟩ := hcalls s₁ hquiet₁.own
  refine ⟨s₂, ?_, hquiet₁.trans hquiet₂⟩
  rw [gives_addProperty, if_neg Bool.false_ne_true]
  refine ⟨_, s₁, htold, gives_addTold.2 ?_⟩
  dsimp only
  rw [if_neg (fun h => hfresh (Schema.Message.field?_isSome.1 h))]
  exact ⟨type, hfound, rfl⟩

omit hapart in
theorem caseNumbers_choice (hnames : ((choices m.items).map (·.name)).Nodup) {c : Choice}
    (hc : c ∈ choices m.items) (hpositive : ∀ x ∈ c.cases, 0 < x.2.toInt) :
    caseNumbers lib.catalog (c.enumType m.fullName) = c.cases.map (·.2.toInt) := by
  have hfields : lib.catalog.fields (c.enumType m.fullName) =
      Library.fieldOf { name := "value__", isPublic := true } ::
        (("None", (0 : Int32)) :: c.cases).map fun x => Library.fieldOf (literal x.1 x.2) := by
    show ((lib.definitionOf? (c.enumType m.fullName)).map _).getD [] = _
    rw [hlib.definitionOf?_choice hnames hc]
    simp [Choice.definition, Function.comp_def]
  have hconstants : ∀ cases : List (String × Int32),
      (cases.map fun x => Library.fieldOf (literal x.1 x.2)).filter isConstant =
        cases.map fun x => Library.fieldOf (literal x.1 x.2) := by
    intro cases
    rw [List.filter_eq_self]
    intro f hf
    obtain ⟨x, -, rfl⟩ := List.mem_map.1 hf
    rfl
  have hnumbers : ∀ cases : List (String × Int32),
      ((cases.map fun x => Library.fieldOf (literal x.1 x.2)).filterMap fun f => f.constant.bind (·.int32?)) =
        cases.map (·.2.toInt) := by
    intro cases
    rw [List.filterMap_map, ← List.filterMap_eq_map]
    rfl
  unfold caseNumbers
  rw [hfields, List.filter_cons_of_neg (by decide), hconstants, hnumbers, List.map_cons,
    List.filter_cons_of_neg (by decide), List.filter_eq_self]
  intro n hn
  obtain ⟨x, hx, rfl⟩ := List.mem_map.1 hn
  exact decide_eq_true (hpositive x hx)

/-- The enum of a choice is known by the class that it is declared in. -/
theorem answers_isCaseEnum (hnames : ((choices m.items).map (·.name)).Nodup) {c : Choice}
    (hc : c ∈ choices m.items) :
    Answers (Own m.Uses) (isCaseEnum (setting lib options).catalog (.named m.fullName) (c.enumType m.fullName))
      (· = true) := by
  have henum : (setting lib options).catalog.isEnum (c.enumType m.fullName) = true := by
    show (lib.definitionOf? (c.enumType m.fullName)).any (·.isEnum) = true
    rw [hlib.definitionOf?_choice hnames hc]
    rfl
  have hdeclaring : (setting lib options).catalog.declaring? (c.enumType m.fullName) = some (.named m.fullName) := by
    show ((lib.definitionOf? (c.enumType m.fullName)).bind (·.declaringType)).map TypeRef.named = _
    rw [hlib.definitionOf?_choice hnames hc]
    rfl
  have hresolve : Answers (Own m.Uses) (lib.catalog.resolve (.named m.fullName)) (· = .named m.fullName) :=
    answers_resolve hapart .itself
  have hsome : Answers (Own m.Uses) (lib.catalog.resolve? (some (.named m.fullName)))
      (· = some (.named m.fullName)) :=
    answers_bind hresolve fun t ht => answers_pure (ht ▸ rfl)
  unfold isCaseEnum Catalog.declaringOf?
  rw [if_pos henum, hdeclaring]
  exact answers_bind hsome fun o ho => answers_pure (decide_eq_true ho)

/-- The property of a choice takes no number. -/
theorem gives_choice (hnames : ((choices m.items).map (·.name)).Nodup) {c : Choice} (hc : c ∈ choices m.items)
    (hx : (c.name ++ "Case", c.enumType m.fullName, false) ∈ m.items.flatMap (·.members m.fullName))
    (hpositive : ∀ x ∈ c.cases, 0 < x.2.toInt) (hs : Own m.Uses s.pool) :
    ∃ s', Gives (addProperty (setting lib options) calls (.named m.fullName) id
      (m.property (c.name ++ "Case", c.enumType m.fullName, false)) rest ⟨b, numbers, false⟩) s
      ⟨{ b with choices := b.choices ++ [c.read] }, numbers, false⟩ s' ∧ Quiet m.Uses s s' := by
  obtain ⟨s₁, hmarked, htype, hquiet₁⟩ := gives_property hapart lib options hx (.choice hc) hs
  dsimp only at htype
  have hcase : Answers (Own m.Uses) (isCaseEnum (setting lib options).catalog (.named m.fullName)
      (c.enumType m.fullName)) (· = true) := answers_isCaseEnum hlib hapart hnames hc
  obtain ⟨hquiet₂, hcase⟩ := quiet_after hquiet₁.own hcase
  refine ⟨_, ?_, hquiet₁.trans hquiet₂⟩
  have hread : choiceOf (setting lib options) (m.property (c.name ++ "Case", c.enumType m.fullName, false))
      (c.enumType m.fullName) = c.read :=
    congrArg₂ Schema.Choice.mk (choiceName_case c.name) (caseNumbers_choice hlib hnames hc hpositive)
  rw [gives_addProperty, if_neg Bool.false_ne_true]
  refine ⟨.choice c.read, _, gives_tellProperty.2 ⟨some marks, s₁, hmarked, ?_⟩, gives_addTold.2 ⟨rfl, rfl⟩⟩
  dsimp only
  rw [htype, if_pos hcase, hread]
  exact ⟨rfl, rfl⟩

omit hlib in
/-- A property that tells whether a field is set cannot be written, and is known by its type. -/
theorem answers_hasPresence {x : String × TypeRef × Bool} (hx : x ∈ m.items.flatMap (·.members m.fullName))
    (huses : m.Uses x.2.1) :
    Answers (Own m.Uses) (Recovery.hasPresence (setting lib options).catalog (m.property x :: rest))
      (· = (!x.2.2 && x.2.1.key == Recovery.presenceType)) := by
  have hresolve : Answers (Own m.Uses) (lib.catalog.typeOf (m.property x)) (· = x.2.1) :=
    answers_resolve hapart huses
  unfold Recovery.hasPresence
  dsimp only
  rw [setter_property hx]
  cases x.2.2 with
  | true => exact answers_pure rfl
  | false => exact answers_bind hresolve fun t ht => answers_pure (by rw [ht]; rfl)

omit hlib in
/-- No first property of an item is taken for one that tells whether a field is set. -/
theorem answers_no_presence {items : List Item} (hitems : ∀ i ∈ items, i ∈ m.items) :
    Answers (Own m.Uses) (Recovery.hasPresence (setting lib options).catalog
      ((items.flatMap (·.members m.fullName)).map m.property)) (· = false) := by
  cases items with
  | nil => exact answers_pure rfl
  | cons i rest =>
    have hi := hitems i (by simp)
    cases i with
    | field f =>
      have hx : (f.name, f.type, true) ∈ m.items.flatMap (·.members m.fullName) :=
        List.mem_flatMap.2 ⟨_, hi, by simp [Item.members]⟩
      exact answers_hasPresence hapart hx (.field (List.mem_filterMap.2 ⟨_, hi, rfl⟩) .refl)
    | choice c =>
      have hx : (c.name ++ "Case", c.enumType m.fullName, false) ∈ m.items.flatMap (·.members m.fullName) :=
        List.mem_flatMap.2 ⟨_, hi, by simp [Item.members]⟩
      have hne : ((c.enumType m.fullName).key == Recovery.presenceType) = false := by
        rw [beq_eq_false_iff_ne]
        intro h
        have hplain : PlainName Recovery.presenceType := by decide +kernel
        exact hplain.2 (h ▸ oneofCase_suffix m.fullName c)
      have hpresence : Answers (Own m.Uses) (Recovery.hasPresence (setting lib options).catalog
          (m.property (c.name ++ "Case", c.enumType m.fullName, false) ::
            (rest.flatMap (·.members m.fullName)).map m.property))
          (· = (!false && (c.enumType m.fullName).key == Recovery.presenceType)) :=
        answers_hasPresence hapart hx (.choice (List.mem_filterMap.2 ⟨_, hi, rfl⟩))
      rw [hne] at hpresence
      exact hpresence

omit hapart hlib in
/-- The numbers of the other fields stay free when one is read. -/
theorem fresh_insert {f : Field} {type : FieldType} {items : List Item}
    (hfresh : ∀ g ∈ fields (.field f :: items), g.number.toInt ∉ b.fields.map (·.number))
    (hnodup : ((fields (.field f :: items)).map (·.number.toInt)).Nodup) :
    ∀ g ∈ fields items, g.number.toInt ∉ (b.insert (f.read type)).fields.map (·.number) := by
  intro g hg hmem
  obtain ⟨x, hx, heq⟩ := List.mem_map.1 hmem
  rcases Schema.Message.mem_insertAscending hx with rfl | hx
  · exact (List.nodup_cons.1 hnodup).1 (List.mem_map.2 ⟨g, hg, heq.symm⟩)
  · exact hfresh g (List.mem_cons_of_mem _ hg) (List.mem_map.2 ⟨x, hx, heq⟩)

/-- All properties of a field: after them the next item starts, and one number is used up. -/
theorem gives_fieldItem {f : Field} {type : FieldType} {items : List Item} (hi : .field f ∈ m.items)
    (hitems : ∀ i ∈ items, i ∈ m.items) (hplain : PlainName f.type.name)
    (hcalls : ∀ s, Own m.Uses s.pool → ∃ s', Gives (calls.fieldType id f.type) s type s' ∧ Quiet m.Uses s s')
    (hfresh : f.number.toInt ∉ b.fields.map (·.number)) (hs : Own m.Uses s.pool)
    (hnext : ∀ s₁, Own m.Uses s₁.pool → ∃ s', Gives (addProperties (setting lib options) calls (.named m.fullName)
      id ((items.flatMap (·.members m.fullName)).map m.property) ⟨b.insert (f.read type), numbers, false⟩) s₁ w s' ∧
        Quiet m.Uses s₁ s') :
    ∃ s', Gives (addProperties (setting lib options) calls (.named m.fullName) id
      (((Item.field f :: items).flatMap (·.members m.fullName)).map m.property)
      ⟨b, Library.fieldOf (literal (f.name ++ "FieldNumber") f.number) :: numbers, false⟩) s w s' ∧
      Quiet m.Uses s s' := by
  have hf : f ∈ fields m.items := List.mem_filterMap.2 ⟨_, hi, rfl⟩
  have hx : (f.name, f.type, true) ∈ m.items.flatMap (·.members m.fullName) :=
    List.mem_flatMap.2 ⟨_, hi, by simp [Item.members]⟩
  cases hp : f.hasPresence with
  | false =>
    have hlist : ((Item.field f :: items).flatMap (·.members m.fullName)).map m.property =
        m.property (f.name, f.type, true) :: (items.flatMap (·.members m.fullName)).map m.property := by
      simp [Item.members, hp]
    obtain ⟨s₁, hfield, hquiet₁⟩ := gives_field hlib hapart numbers hf hx hplain hcalls
      (hp ▸ answers_no_presence hapart hitems) hfresh hs
    obtain ⟨s', hgives, hquiet⟩ := hnext s₁ hquiet₁.own
    rw [hp] at hfield
    rw [hlist]
    exact ⟨s', gives_stepThrough_cons.2 ⟨_, s₁, hfield, hgives⟩, hquiet₁.trans hquiet⟩
  | true =>
    -- The property after the field is looked at now, and skipped in the next step.
    have hlist : ((Item.field f :: items).flatMap (·.members m.fullName)).map m.property =
        m.property (f.name, f.type, true) :: m.property ("Has" ++ f.name, presenceType, false) ::
          (items.flatMap (·.members m.fullName)).map m.property := by
      simp [Item.members, hp]
    have hhas : ("Has" ++ f.name, presenceType, false) ∈ m.items.flatMap (·.members m.fullName) :=
      List.mem_flatMap.2 ⟨_, hi, by simp [Item.members, hp]⟩
    have hset : Answers (Own m.Uses) (Recovery.hasPresence (setting lib options).catalog
        (m.property ("Has" ++ f.name, presenceType, false) :: (items.flatMap (·.members m.fullName)).map m.property))
        (· = f.hasPresence) := by
      rw [hp]
      exact answers_hasPresence hapart hhas (.outside (by simp))
    obtain ⟨s₁, hfield, hquiet₁⟩ := gives_field hlib hapart numbers hf hx hplain hcalls hset hfresh hs
    obtain ⟨s', hgives, hquiet⟩ := hnext s₁ hquiet₁.own
    rw [hp] at hfield
    rw [hlist]
    refine ⟨s', gives_stepThrough_cons.2 ⟨_, s₁, hfield, gives_stepThrough_cons.2 ⟨_, s₁, ?_, hgives⟩⟩,
      hquiet₁.trans hquiet⟩
    exact gives_addProperty.2 ⟨rfl, rfl⟩

variable (options) in
/-- All items of a class: constants and properties are used up together. -/
theorem gives_items (hnames : ((choices m.items).map (·.name)).Nodup)
    (hpositive : ∀ c ∈ choices m.items, ∀ x ∈ c.cases, 0 < x.2.toInt) (type : Field → FieldType)
    (htypes : ∀ f ∈ fields m.items, PlainName f.type.name)
    (hcalls : ∀ f ∈ fields m.items, ∀ s, Own m.Uses s.pool →
      ∃ s', Gives (calls.fieldType id f.type) s (type f) s' ∧ Quiet m.Uses s s')
    {items : List Item} (hitems : ∀ i ∈ items, i ∈ m.items)
    (hfresh : ∀ f ∈ fields items, f.number.toInt ∉ b.fields.map (·.number))
    (hnodup : ((fields items).map (·.number.toInt)).Nodup) (hs : Own m.Uses s.pool) :
    ∃ s', Gives (addProperties (setting lib options) calls (.named m.fullName) id
      ((items.flatMap (·.members m.fullName)).map m.property)
      ⟨b, (items.flatMap Item.constants).map Library.fieldOf, false⟩) s ⟨items.foldl (readItem type) b, [], false⟩ s' ∧
      Quiet m.Uses s s' := by
  induction items generalizing b s with
  | nil => exact ⟨s, gives_stepThrough_nil.2 ⟨rfl, rfl⟩, ⟨rfl, rfl, hs⟩⟩
  | cons i rest ih =>
    have hi := hitems i (by simp)
    have hrest : ∀ j ∈ rest, j ∈ m.items := fun j hj => hitems j (by simp [hj])
    cases i with
    | field f =>
      have hf : f ∈ fields m.items := List.mem_filterMap.2 ⟨_, hi, rfl⟩
      refine gives_fieldItem hlib hapart hi hrest (htypes f hf) (hcalls f hf)
        (hfresh f (List.mem_cons_self ..)) hs fun s₁ hs₁ => ?_
      exact ih hrest (fresh_insert hfresh hnodup) (List.nodup_cons.1 hnodup).2 hs₁
    | choice c =>
      have hc : c ∈ choices m.items := List.mem_filterMap.2 ⟨_, hi, rfl⟩
      have hx : (c.name ++ "Case", c.enumType m.fullName, false) ∈ m.items.flatMap (·.members m.fullName) :=
        List.mem_flatMap.2 ⟨_, hi, by simp [Item.members]⟩
      obtain ⟨s₁, hchoice, hquiet₁⟩ := gives_choice hlib hapart hnames hc hx (hpositive c hc) hs
      obtain ⟨s', hgives, hquiet⟩ := ih (b := { b with choices := b.choices ++ [c.read] }) hrest hfresh hnodup
        hquiet₁.own
      exact ⟨s', gives_stepThrough_cons.2 ⟨_, s₁, hchoice, hgives⟩, hquiet₁.trans hquiet⟩

end Items

end ProtoRecovery.Managed.Generated
