import ProtoRecovery.Proofs.Schema.Scope
import ProtoRecovery.Schema.Descriptor
/-!
# Descriptors and the names in them

A descriptor names types in full, by names that parents give from the inside outwards; messages are laid out from the
files inwards, by what is nested. In a forest both go the same way: whoever follows the parts of a full name from the
file of a declaration comes to the descriptor of that declaration.
-/

namespace ProtoRecovery.Schema

/-! ## What is in a file -/

/-- A message is among others, or in one of them at any depth. -/
inductive MessageDescriptor.Among : List MessageDescriptor → MessageDescriptor → Prop
  | here {ms : List MessageDescriptor} {m : MessageDescriptor} : m ∈ ms → Among ms m
  | inside {ms : List MessageDescriptor} {outer m : MessageDescriptor} : outer ∈ ms → Among outer.messages m → Among ms m

/-- A message is in a file, at any depth. -/
def FileDescriptor.Holds (file : FileDescriptor) (m : MessageDescriptor) : Prop :=
  MessageDescriptor.Among file.messages m

/-- What a name may be looked up in: a file or a message. -/
structure Holding where
  messages : List MessageDescriptor
  enums : List EnumDescriptor

/-- What a file holds directly. -/
def FileDescriptor.holding (file : FileDescriptor) : Holding := ⟨file.messages, file.enums⟩

/-- What a message holds directly. -/
def MessageDescriptor.holding (m : MessageDescriptor) : Holding := ⟨m.messages, m.enums⟩

namespace Holding

/-- Where names lead, from one message to one inside it. Messages of one name are all followed. -/
def inward (h : Holding) : List String → List Holding
  | [] => [h]
  | name :: rest => (h.messages.filter (·.name = name)).flatMap fun m => m.holding.inward rest

/-- The messages that names lead to. -/
def messagesAt (h : Holding) (names : List String) : List MessageDescriptor :=
  (h.inward names.dropLast).flatMap fun x => x.messages.filter fun m => names.getLast? = some m.name

/-- The enums that names lead to. -/
def enumsAt (h : Holding) (names : List String) : List EnumDescriptor :=
  (h.inward names.dropLast).flatMap fun x => x.enums.filter fun e => names.getLast? = some e.name

variable {h x : Holding} {names : List String} {m : MessageDescriptor} {e : EnumDescriptor}

theorem inward_append (h : Holding) (names names' : List String) :
    h.inward (names ++ names') = (h.inward names).flatMap (·.inward names') := by
  induction names generalizing h with
  | nil => simp [inward]
  | cons name rest ih => simp only [List.cons_append, inward, List.flatMap_assoc, ih]

theorem mem_messagesAt (hx : x ∈ h.inward names) (hm : m ∈ x.messages) : m ∈ h.messagesAt (names ++ [m.name]) := by
  simp only [messagesAt, List.dropLast_concat, List.getLast?_concat, List.mem_flatMap, List.mem_filter]
  exact ⟨x, hx, hm, by simp⟩

theorem mem_enumsAt (hx : x ∈ h.inward names) (he : e ∈ x.enums) : e ∈ h.enumsAt (names ++ [e.name]) := by
  simp only [enumsAt, List.dropLast_concat, List.getLast?_concat, List.mem_flatMap, List.mem_filter]
  exact ⟨x, hx, he, by simp⟩

theorem mem_inward (hx : x ∈ h.inward names) (hm : m ∈ x.messages) : m.holding ∈ h.inward (names ++ [m.name]) := by
  rw [inward_append, List.mem_flatMap]
  exact ⟨x, hx, by simp only [inward, List.mem_flatMap, List.mem_filter]; exact ⟨m, ⟨hm, by simp⟩, by simp⟩⟩

end Holding

/-- The parts of a name that starts from nowhere, with a dot. -/
def absolute? (name : String) : Option (List String) :=
  match segments name with
  | first :: names => if first = "" then some names else none
  | [] => none

/-- The messages that a name leads to in a file. -/
def FileDescriptor.messagesNamed (file : FileDescriptor) (name : String) : List MessageDescriptor :=
  ((absolute? name).map file.holding.messagesAt).getD []

/-- The enums that a name leads to in a file. -/
def FileDescriptor.enumsNamed (file : FileDescriptor) (name : String) : List EnumDescriptor :=
  ((absolute? name).map file.holding.enumsAt).getD []

theorem absolute?_dotted {names : List String} (hne : names ≠ []) (hdots : ∀ n ∈ names, '.' ∉ n.toList) :
    absolute? ("." ++ dotted names) = some names.reverse := by
  have hdotted : "." ++ dotted names = dotted (names ++ [""]) := by
    have hreverse : names.reverse ≠ [] := by simpa using hne
    unfold dotted
    rw [List.reverse_append, List.reverse_singleton, List.singleton_append, String.intercalate_cons_of_ne_nil hreverse,
      String.empty_append]
  have hsegments : segments ("." ++ dotted names) = "" :: names.reverse := by
    rw [hdotted, segments_dotted (by simp) (by simpa [or_imp, forall_and] using hdots)]
    simp
  rw [absolute?, hsegments]
  rfl

/-! ## Depths that are enough -/

section Forest
variable {s : Schema}

/-- The descriptor of a message with all nested in it. -/
def messageOf? (s : Schema) (id : DeclId) : Option MessageDescriptor := (s.messagesOf s.size [id]).head?

theorem messagesOf_eq_filterMap (depth : Nat) (ids : List DeclId) :
    s.messagesOf depth ids = ids.filterMap fun id => (s.messagesOf depth [id]).head? := by
  cases depth with
  | zero => simp [messagesOf]
  | succ depth =>
    have hhead : ∀ (g : DeclId → Option MessageDescriptor) (id : DeclId), ([id].filterMap g).head? = g id := by
      intro g id
      cases h : g id <;> simp [h]
    simp only [messagesOf, hhead]

/-- Declarations have levels, all below the number of declarations. -/
theorem Forest.exists_level_lt (h : s.Forest) : ∃ level : DeclId → Nat,
    (∀ x p, s.parentOf? x = some p → level x = level p + 1) ∧ ∀ x < s.size, level x < s.size := by
  obtain ⟨level, hroot, hlevel⟩ := exists_level h.parents_end
  have hchain : ∀ (l : List DeclId) (id : DeclId), List.IsChain (fun p x => s.parentOf? x = some p) (id :: l) →
      level ((id :: l).getLast (List.cons_ne_nil _ _)) = level id + l.length := by
    intro l
    induction l with
    | nil => simp
    | cons x rest ih =>
      intro id hl
      obtain ⟨hx, hrest⟩ := List.isChain_cons_cons.1 hl
      rw [List.getLast_cons (List.cons_ne_nil _ _), ih x hrest, hlevel x id hx, List.length_cons]
      omega
  refine ⟨level, hlevel, fun x hx => ?_⟩
  obtain ⟨r, f, hr, hin, hrootless, -, -⟩ := h.exists_top x hx
  obtain ⟨l, hl, rfl⟩ := List.exists_isChain_cons_of_relationReflTransGen (Relation.reflTransGen_swap.2 hin)
  have hrank : ∀ x p, s.parentOf? x = some p → level p < level x := fun x p hp => by rw [hlevel x p hp]; omega
  have hlength := length_le_of_isChain hrank hr hl
  rw [hchain l r hl, hroot r hrootless]
  rw [List.length_cons] at hlength
  omega

theorem nested_eq_nestedIn {id : DeclId} {d : Declaration} {m : Message} (hd : s.decls[id]? = some d)
    (hm : d.message? = some m) : m.nested = s.nestedIn id := by
  simp [nestedIn, hd, Declaration.nested, hm]

/-- How deep messages are laid out does not matter as long as that is deep enough. -/
theorem Forest.messagesOf_congr (h : s.Forest) {level : DeclId → Nat}
    (hlevel : ∀ x p, s.parentOf? x = some p → level x = level p + 1) (hlt : ∀ x < s.size, level x < s.size)
    {depth depth' : Nat} {ids : List DeclId} (hids : ∀ id ∈ ids, id < s.size)
    (hdepth : ∀ id ∈ ids, s.size ≤ level id + depth) (hdepth' : ∀ id ∈ ids, s.size ≤ level id + depth') :
    s.messagesOf depth ids = s.messagesOf depth' ids := by
  have hnil : ∀ n, s.messagesOf n [] = [] := fun n => by cases n <;> rfl
  induction depth generalizing depth' ids with
  | zero =>
    obtain rfl : ids = [] := List.eq_nil_iff_forall_not_mem.2 fun id hid =>
      absurd (hlt id (hids id hid)) (not_lt.2 (hdepth id hid))
    rw [hnil, hnil]
  | succ depth ih =>
    cases depth' with
    | zero =>
      obtain rfl : ids = [] := List.eq_nil_iff_forall_not_mem.2 fun id hid =>
        absurd (hlt id (hids id hid)) (not_lt.2 (hdepth' id hid))
      rw [hnil, hnil]
    | succ depth' =>
      refine List.filterMap_congr fun id hid => ?_
      cases hd : s.decls[id]? with
      | none => rfl
      | some d =>
        dsimp only
        cases hm : d.message? with
        | none => rfl
        | some m =>
          have hnested : ∀ c ∈ m.nested, s.parentOf? c = some id := fun c hc =>
            (h.mem_nestedIn c id).1 (nested_eq_nestedIn hd hm ▸ hc)
          have hsame : s.messagesOf depth m.nested = s.messagesOf depth' m.nested := by
            refine ih (fun c hc => lt_size_of_parentOf? (hnested c hc)) (fun c hc => ?_) fun c hc => ?_
            · have := hdepth id hid
              rw [hlevel c id (hnested c hc)]
              omega
            · have := hdepth' id hid
              rw [hlevel c id (hnested c hc)]
              omega
          rw [Option.map_some, Option.map_some, hsame]

/-- The descriptor of a message, from those of the messages nested in it. -/
theorem Forest.messageOf?_eq (h : s.Forest) {id : DeclId} {d : Declaration} {m : Message} (hd : s.decls[id]? = some d)
    (hm : d.message? = some m) :
    s.messageOf? id = some
      { name := d.name
        fields := s.fieldDescriptors id m m.choices.length m.fields
        messages := m.fields.filterMap s.entryOf? ++ m.nested.filterMap s.messageOf?
        enums := m.nested.filterMap s.enumOf?
        choices := m.choices.map (·.name) ++ (m.fields.filter m.hasOwnChoice).map fun f => "_" ++ f.name
        isDeprecated := d.isDeprecated } := by
  obtain ⟨level, hlevel, hlt⟩ := h.exists_level_lt
  have hid : id < s.size := (List.getElem?_eq_some_iff.1 hd).1
  have hnested : ∀ c ∈ m.nested, s.parentOf? c = some id := fun c hc =>
    (h.mem_nestedIn c id).1 (nested_eq_nestedIn hd hm ▸ hc)
  obtain ⟨n, hn⟩ := Nat.exists_eq_succ_of_ne_zero (Nat.ne_zero_of_lt hid)
  have hdeep : s.messagesOf n m.nested = m.nested.filterMap s.messageOf? := by
    have hsame : s.messagesOf n m.nested = s.messagesOf s.size m.nested := by
      refine h.messagesOf_congr hlevel hlt (fun c hc => lt_size_of_parentOf? (hnested c hc)) (fun c hc => ?_)
        fun _ _ => Nat.le_add_left _ _
      rw [hlevel c id (hnested c hc)]
      omega
    rw [hsame, messagesOf_eq_filterMap]
    rfl
  rw [messageOf?, hn]
  simp only [messagesOf, List.filterMap_cons, List.filterMap_nil, hd, hm, Option.map_some, List.head?_cons, hdeep]

/-! ## Full names -/

theorem outward_congr {level : DeclId → Nat} (hlevel : ∀ x p, s.parentOf? x = some p → level x = level p + 1)
    (stop : DeclId → Bool) {depth depth' : Nat} {id : DeclId} (hdepth : level id < depth) (hdepth' : level id < depth') :
    s.outward stop depth (some id) = s.outward stop depth' (some id) := by
  induction depth generalizing depth' id with
  | zero => omega
  | succ depth ih =>
    obtain ⟨n, rfl⟩ := Nat.exists_eq_succ_of_ne_zero (Nat.ne_zero_of_lt hdepth')
    rw [outward, outward]
    cases hp : s.parentOf? id with
    | none => cases depth <;> cases n <;> rfl
    | some p =>
      have hup := hlevel id p hp
      have hrest : s.outward stop depth (some p) = s.outward stop n (some p) := ih (by omega) (by omega)
      rw [hrest]

/-- The names on the way from the top to a place. -/
def pathTo (s : Schema) (place : Option DeclId) : List String := (s.outward (fun _ => false) s.size place).reverse

theorem pathTo_none : s.pathTo none = [] := by
  unfold pathTo
  cases s.size <;> rfl

/-- The way to a declaration leads through the message around it. -/
theorem Forest.pathTo_some (h : s.Forest) {id : DeclId} (hid : id < s.size) :
    s.pathTo (some id) = s.pathTo (s.parentOf? id) ++ [s.nameOf id] := by
  obtain ⟨level, hlevel, hlt⟩ := h.exists_level_lt
  obtain ⟨n, hn⟩ := Nat.exists_eq_succ_of_ne_zero (Nat.ne_zero_of_lt hid)
  have hrest : s.outward (fun _ => false) n (s.parentOf? id) = s.outward (fun _ => false) s.size (s.parentOf? id) := by
    cases hp : s.parentOf? id with
    | none => cases n <;> cases s.size <;> rfl
    | some p =>
      have hup := hlevel id p hp
      have hlevel_lt := hlt id hid
      exact outward_congr hlevel _ (by omega) (by omega)
  unfold pathTo
  rw [← hrest, hn, outward]
  simp

theorem Forest.absolute?_fullName (h : s.Forest) (hdots : ∀ d < s.size, '.' ∉ (s.nameOf d).toList) {id : DeclId}
    (hid : id < s.size) : absolute? (s.fullName id) = some (s.pathTo (some id)) := by
  refine absolute?_dotted (fun hnil => ?_) fun name hname => ?_
  · have hpath : s.pathTo (some id) = [] := by rw [pathTo, hnil, List.reverse_nil]
    rw [h.pathTo_some hid] at hpath
    simp at hpath
  · exact undotted_outward hdots (fun _ _ hp => h.parent_lt hp) hid hname

/-! ## Names lead to descriptors -/

/-- The descriptor of the file that a declaration is in. -/
def homeOf? (s : Schema) (id : DeclId) : Option FileDescriptor := (s.fileOf? id).bind fun file => s.descriptors[file]?

theorem nameOf_eq {id : DeclId} {d : Declaration} (hd : s.decls[id]? = some d) : s.nameOf id = d.name := by
  simp [nameOf, hd]

/-- A message is there around whatever has a parent. -/
theorem Forest.exists_message (h : s.Forest) {id p : DeclId} (hp : s.parentOf? id = some p) :
    ∃ d m, s.decls[p]? = some d ∧ d.message? = some m ∧ id ∈ m.nested := by
  have hmem := (h.mem_nestedIn id p).2 hp
  cases hd : s.decls[p]? with
  | none => simp [nestedIn, hd] at hmem
  | some d =>
    cases hm : d.message? with
    | none => simp [nestedIn, hd, Declaration.nested, hm] at hmem
    | some m => exact ⟨d, m, rfl, hm, nested_eq_nestedIn hd hm ▸ hmem⟩

/-- In the file of a declaration, the names on the way to the message around it lead to where its descriptor is. -/
theorem Forest.exists_holding (h : s.Forest) {id : DeclId} (hid : id < s.size) :
    ∃ file x, s.homeOf? id = some file ∧ x ∈ file.holding.inward (s.pathTo (s.parentOf? id)) ∧
      (∀ m ∈ s.messageOf? id, m ∈ x.messages) ∧ ∀ e ∈ s.enumOf? id, e ∈ x.enums := by
  induction id using h.parents_end.induction with
  | _ id ih =>
    cases hp : s.parentOf? id with
    | none =>
      obtain ⟨f, hf⟩ := (h.mem_topsOf id hid).2 hp
      obtain ⟨file, hfile, htop⟩ : ∃ file, s.files[f]? = some file ∧ id ∈ file.tops := by
        cases hfile : s.files[f]? with
        | none => simp [topsOf, hfile] at hf
        | some file => exact ⟨file, rfl, by simpa [topsOf, hfile] using hf⟩
      refine ⟨s.fileDescriptor f file, _, ?_, by rw [pathTo_none]; exact List.mem_singleton.2 rfl, fun m hm => ?_,
        fun e he => ?_⟩
      · simp [homeOf?, h.top_file id f hf, descriptors, hfile]
      · show m ∈ s.messagesOf s.size file.tops
        rw [messagesOf_eq_filterMap]
        exact List.mem_filterMap.2 ⟨id, htop, hm⟩
      · exact List.mem_filterMap.2 ⟨id, htop, he⟩
    | some p =>
      obtain ⟨d, m, hd, hm, hnested⟩ := h.exists_message hp
      have hlt := h.parent_lt hp
      obtain ⟨file, x, hfile, hx, hmessage, -⟩ := ih p hp hlt
      obtain ⟨around, haround, hname, hmessages, henums⟩ : ∃ around, s.messageOf? p = some around ∧
          around.name = d.name ∧ around.messages = m.fields.filterMap s.entryOf? ++ m.nested.filterMap s.messageOf? ∧
          around.enums = m.nested.filterMap s.enumOf? := ⟨_, h.messageOf?_eq hd hm, rfl, rfl, rfl⟩
      refine ⟨file, around.holding, ?_, ?_, fun inner hinner => ?_, fun e he => ?_⟩
      · rw [homeOf?, h.nested_file id p hp]
        exact hfile
      · rw [h.pathTo_some hlt, nameOf_eq hd, ← hname]
        exact Holding.mem_inward hx (hmessage _ haround)
      · show inner ∈ around.messages
        rw [hmessages]
        exact List.mem_append_right _ (List.mem_filterMap.2 ⟨id, hnested, hinner⟩)
      · show e ∈ around.enums
        rw [henums]
        exact List.mem_filterMap.2 ⟨id, hnested, he⟩

/-- A name leads, in the file of a declaration, to the descriptor of that declaration, which is of a kind. -/
inductive Resolves (s : Schema) (name : String) (id : DeclId) : ValueKind → Prop
  | message {file : FileDescriptor} {m : MessageDescriptor} (home : s.homeOf? id = some file)
      (described : s.messageOf? id = some m) (found : m ∈ file.messagesNamed name) : Resolves s name id .message
  | enum {file : FileDescriptor} {e : EnumDescriptor} (home : s.homeOf? id = some file)
      (described : s.enumOf? id = some e) (found : e ∈ file.enumsNamed name) : Resolves s name id .enum

/-- In the file of a message its path leads to what it holds. -/
theorem Forest.exists_inward (h : s.Forest) {id : DeclId} {d : Declaration} {m : Message} (hd : s.decls[id]? = some d)
    (hm : d.message? = some m) : ∃ file, s.homeOf? id = some file ∧
      ∀ md ∈ s.messageOf? id, md.holding ∈ file.holding.inward (s.pathTo (some id)) := by
  have hid : id < s.size := (List.getElem?_eq_some_iff.1 hd).1
  obtain ⟨file, x, hfile, hx, hmessage, -⟩ := h.exists_holding hid
  refine ⟨file, hfile, fun md hmd => ?_⟩
  have hname : md.name = d.name := by
    rw [h.messageOf?_eq hd hm] at hmd
    cases hmd
    rfl
  rw [h.pathTo_some hid, nameOf_eq hd, ← hname]
  exact Holding.mem_inward hx (hmessage md hmd)

theorem Forest.resolves_message (h : s.Forest) (hdots : ∀ d < s.size, '.' ∉ (s.nameOf d).toList) {id : DeclId}
    {d : Declaration} {m : Message} (hd : s.decls[id]? = some d) (hm : d.message? = some m) :
    s.Resolves (s.fullName id) id .message := by
  have hid : id < s.size := (List.getElem?_eq_some_iff.1 hd).1
  obtain ⟨file, x, hfile, hx, hmessage, -⟩ := h.exists_holding hid
  have hfound := Holding.mem_messagesAt hx (hmessage _ (h.messageOf?_eq hd hm))
  refine .message hfile (h.messageOf?_eq hd hm) ?_
  rw [FileDescriptor.messagesNamed, h.absolute?_fullName hdots hid, h.pathTo_some hid, nameOf_eq hd]
  exact hfound

theorem Forest.resolves_enum (h : s.Forest) (hdots : ∀ d < s.size, '.' ∉ (s.nameOf d).toList) {id : DeclId}
    {d : Declaration} {e : Enum} (hd : s.decls[id]? = some d) (he : d.enum? = some e) :
    s.Resolves (s.fullName id) id .enum := by
  have hid : id < s.size := (List.getElem?_eq_some_iff.1 hd).1
  have hdescribed : s.enumOf? id = some (enumDescriptor d.name d.isDeprecated e) := by simp [enumOf?, hd, he]
  obtain ⟨file, x, hfile, hx, -, henum⟩ := h.exists_holding hid
  have hfound := Holding.mem_enumsAt hx (henum _ hdescribed)
  refine .enum hfile hdescribed ?_
  rw [FileDescriptor.enumsNamed, h.absolute?_fullName hdots hid, h.pathTo_some hid, nameOf_eq hd]
  exact hfound

end Forest

/-! ## References in descriptors -/

/-- Whether a declaration is one that fields may refer to. -/
def Declaration.isType (d : Declaration) : Bool := d.message?.isSome || d.enum?.isSome

/-- A forest whose full names can be taken apart, and in which references are to messages and enums. -/
structure Navigable (s : Schema) : Prop where
  forest : s.Forest
  undotted : ∀ id < s.size, '.' ∉ (s.nameOf id).toList
  referred : ∀ id target, .reference target ∈ s.leavesOf id → ∃ d, s.decls[target]? = some d ∧ d.isType = true

/-- If a type is a reference, the descriptor of a field names what it refers to, and tells the kind of that. -/
def Points (s : Schema) (fd : FieldDescriptor) (type : FieldType) : Prop :=
  ∀ target, type = .reference target →
    ∃ name kind, fd.typeName = some name ∧ fd.kind = some kind ∧ s.Resolves name target kind

/-- A map field names its entry message, which is one of those in its own message; unless there is a dot in the name of
the entry, the whole name leads to it. -/
structure Enters (s : Schema) (id : DeclId) (md : MessageDescriptor) (fd : FieldDescriptor) (entry : MessageDescriptor) :
    Prop where
  nested : entry ∈ md.messages
  flagged : entry.isMapEntry = true
  kind : fd.kind = some .message
  name : fd.typeName = some (s.fullName id ++ "." ++ entry.name)
  found : '.' ∉ entry.name.toList →
    ∃ file, s.homeOf? id = some file ∧ entry ∈ file.messagesNamed (s.fullName id ++ "." ++ entry.name)

/-- The descriptor of a field in that of its message points to whatever the type of the field refers to: itself, by its
elements, or by the entry message that it names. -/
structure Locates (s : Schema) (id : DeclId) (md : MessageDescriptor) (f : Field) (fd : FieldDescriptor) : Prop where
  single : s.Points fd f.type
  element : ∀ element, f.type = .repeated element → s.Points fd element
  entry : ∀ key value, f.type = .map key value → ∃ entry first second, s.entryOf? f = some entry ∧
    s.Enters id md fd entry ∧ entry.fields = [first, second] ∧ s.Points first key ∧ s.Points second value

/-- The descriptor of a method names what its types refer to. -/
structure LocatesMethod (s : Schema) (m : Method) (md : MethodDescriptor) : Prop where
  request : ∀ target, m.request = .reference target → ∃ kind, s.Resolves md.input target kind
  response : ∀ target, m.response = .reference target → ∃ kind, s.Resolves md.output target kind

theorem body_of_service? {d : Declaration} {service : Service} (h : d.service? = some service) :
    d.body = .service service := by
  unfold Declaration.service? at h
  split at h <;> simp_all

/-- The descriptors of fields are those of single fields, apart from choices. -/
theorem forall₂_fieldDescriptors {s : Schema} {id : DeclId} {m : Message} {R : Field → FieldDescriptor → Prop}
    (own : Nat) {fields : List Field}
    (h : ∀ f ∈ fields, ∀ choice isOptional, R f { s.fieldDescriptor id f with choice, isOptional }) :
    List.Forall₂ R fields (s.fieldDescriptors id m own fields) := by
  induction fields generalizing own with
  | nil => exact .nil
  | cons f rest ih =>
    have hrest := fun own => ih own fun g hg => h g (List.mem_cons_of_mem f hg)
    rw [fieldDescriptors]
    split
    · exact .cons (h f List.mem_cons_self _ _) (hrest _)
    · exact .cons (h f List.mem_cons_self _ _) (hrest _)

section Navigable
variable {s : Schema} (h : s.Navigable) {id : DeclId} {d : Declaration}
include h

theorem Navigable.resolves {target : DeclId} (hd : s.decls[target]? = some d) (ht : d.isType = true) :
    s.Resolves (s.fullName target) target (if (s.decls[target]?.bind (·.enum?)).isSome then .enum else .message) := by
  rw [hd, Option.bind_some]
  cases hb : d.body with
  | message m =>
    have hnone : d.enum? = none := by simp [Declaration.enum?, hb]
    rw [hnone]
    exact h.forest.resolves_message h.undotted hd (m := m) (by simp [Declaration.message?, hb])
  | enum e =>
    have hsome : d.enum? = some e := by simp [Declaration.enum?, hb]
    rw [hsome]
    exact h.forest.resolves_enum h.undotted hd hsome
  | service b => simp [Declaration.isType, Declaration.message?, Declaration.enum?, hb] at ht

/-- What a type of a declaration refers to is there. -/
theorem Navigable.referred_of_mem {type : FieldType} (hd : s.decls[id]? = some d) (htype : type ∈ d.body.types)
    (target : DeclId) (ht : .reference target ∈ type.leaves) : ∃ d, s.decls[target]? = some d ∧ d.isType = true := by
  refine h.referred id target ?_
  simp only [leavesOf, outlineOf?, hd, Option.map_some, Option.getD_some, List.mem_flatMap]
  exact ⟨type, htype, ht⟩

theorem Navigable.points_withType (f : FieldDescriptor) {type : FieldType}
    (ht : ∀ target, .reference target ∈ type.leaves → ∃ d, s.decls[target]? = some d ∧ d.isType = true) :
    s.Points (f.withType s type) type := by
  rintro target rfl
  obtain ⟨d, hd, htype⟩ := ht target (by simp [FieldType.leaves])
  exact ⟨_, _, rfl, rfl, h.resolves hd htype⟩

/-- A name after the full name of a message leads on inside it. -/
theorem Navigable.absolute?_inside (hid : id < s.size) {name : String} (hname : '.' ∉ name.toList) :
    absolute? (s.fullName id ++ "." ++ name) = some (s.pathTo (some id) ++ [name]) := by
  have hpath := h.forest.pathTo_some hid
  set names := s.outward (fun _ => false) s.size (some id) with hnames
  have hne : names ≠ [] := by
    intro hnil
    rw [pathTo, ← hnames, hnil] at hpath
    simp at hpath
  have hdotted : s.fullName id ++ "." ++ name = "." ++ dotted (name :: names) := by
    have hlast : dotted [name] = name := String.intercalate_singleton
    rw [← List.singleton_append, dotted_append (List.cons_ne_nil _ _) hne, hlast, fullName, ← hnames]
    simp only [String.append_assoc]
  rw [hdotted, absolute?_dotted (List.cons_ne_nil _ _), List.reverse_cons, pathTo]
  intro n hn
  rcases List.mem_cons.1 hn with rfl | hn
  · exact hname
  · exact undotted_outward h.undotted (fun _ _ hp => h.forest.parent_lt hp) hid hn

/-- What is in a message is found by its name after that of the message. -/
theorem Navigable.mem_messagesNamed {m : Message} (hd : s.decls[id]? = some d) (hm : d.message? = some m)
    {md inner : MessageDescriptor} (hmd : s.messageOf? id = some md) (hinner : inner ∈ md.messages)
    (hname : '.' ∉ inner.name.toList) :
    ∃ file, s.homeOf? id = some file ∧ inner ∈ file.messagesNamed (s.fullName id ++ "." ++ inner.name) := by
  obtain ⟨file, hfile, hinward⟩ := h.forest.exists_inward hd hm
  refine ⟨file, hfile, ?_⟩
  rw [FileDescriptor.messagesNamed, h.absolute?_inside (List.getElem?_eq_some_iff.1 hd).1 hname]
  exact Holding.mem_messagesAt (hinward md hmd) hinner

/-- The descriptor of every field points to what its type refers to. -/
theorem Navigable.locates {m : Message} (hd : s.decls[id]? = some d) (hm : d.message? = some m) {f : Field}
    (hf : f ∈ m.fields) {md : MessageDescriptor} (hmd : s.messageOf? id = some md) (choice : Option Nat)
    (isOptional : Bool) : s.Locates id md f { s.fieldDescriptor id f with choice, isOptional } := by
  have htypes : f.type ∈ d.body.types := by
    rw [body_of_message? hm]
    exact List.mem_map_of_mem hf
  have hleaves := h.referred_of_mem hd htypes
  cases htype : f.type with
  | scalar k => constructor <;> simp [Points, htype]
  | wellKnown w => constructor <;> simp [Points, htype]
  | reference target =>
    refine ⟨?_, by simp [htype], by simp [htype]⟩
    simpa only [Points, fieldDescriptor, htype] using h.points_withType
      { name := f.name, number := f.number, isDeprecated := f.isDeprecated } hleaves
  | «repeated» element =>
    refine ⟨by simp [Points, htype], fun x hx => ?_, by simp [htype]⟩
    obtain rfl : element = x := by simpa [htype] using hx
    have helement : ∀ target, .reference target ∈ element.leaves →
        ∃ d, s.decls[target]? = some d ∧ d.isType = true := by simpa [htype, FieldType.leaves] using hleaves
    simpa only [Points, fieldDescriptor, htype] using h.points_withType
      { name := f.name, number := f.number, isDeprecated := f.isDeprecated, label := .repeated } helement
  | map key value =>
    refine ⟨by simp [Points, htype], by simp [htype], fun k v hkv => ?_⟩
    obtain ⟨rfl, rfl⟩ : key = k ∧ value = v := by simpa [htype] using hkv
    have hentry : s.entryOf? f = some (s.mapEntry (entryName f.name) key value) := by simp [entryOf?, htype]
    have hnested : s.mapEntry (entryName f.name) key value ∈ md.messages := by
      rw [h.forest.messageOf?_eq hd hm] at hmd
      cases hmd
      exact List.mem_append_left _ (List.mem_filterMap.2 ⟨f, hf, hentry⟩)
    have hpoints : ∀ (fd : FieldDescriptor) (type : FieldType), type.leaves ⊆ f.type.leaves →
        s.Points (fd.withType s type) type := fun fd type hsub =>
      h.points_withType fd fun target ht => hleaves target (hsub ht)
    refine ⟨_, _, _, hentry, ⟨hnested, rfl, ?_, ?_, h.mem_messagesNamed hd hm hmd hnested⟩, rfl,
      hpoints _ key ?_, hpoints _ value ?_⟩
    · simp only [fieldDescriptor, htype]
    · simp only [fieldDescriptor, htype, mapEntry]
    · simp [htype, FieldType.leaves]
    · simp [htype, FieldType.leaves]

/-- The descriptor of a service names what the types of its methods refer to. -/
theorem Navigable.locatesMethod {service : Service} (hd : s.decls[id]? = some d) (hs : d.service? = some service)
    {m : Method} (hm : m ∈ service.methods) (md : MethodDescriptor) (hinput : md.input = s.methodTypeName id m.request)
    (houtput : md.output = s.methodTypeName id m.response) : s.LocatesMethod m md := by
  have hresolves : ∀ type ∈ [m.request, m.response], ∀ target, type = .reference target →
      ∃ kind, s.Resolves (s.methodTypeName id type) target kind := by
    rintro _ hmem target rfl
    have htypes : FieldType.reference target ∈ d.body.types := by
      rw [body_of_service? hs]
      exact List.mem_flatMap.2 ⟨m, hm, hmem⟩
    obtain ⟨t, ht, htype⟩ := h.referred_of_mem hd htypes target (by simp [FieldType.leaves])
    exact ⟨_, h.resolves ht htype⟩
  refine ⟨fun target ht => ?_, fun target ht => ?_⟩
  · rw [hinput]
    exact hresolves _ (by simp) target ht
  · rw [houtput]
    exact hresolves _ (by simp) target ht

end Navigable

/-! ## All descriptors -/

/-- A descriptor is that of a declared message, or of the entries of one of its fields. -/
inductive Accounted (s : Schema) (md : MessageDescriptor) : Prop
  | own {id : DeclId} {d : Declaration} {m : Message} (declared : s.decls[id]? = some d) (body : d.message? = some m)
      (described : s.messageOf? id = some md) : Accounted s md
  | entry {id : DeclId} {d : Declaration} {m : Message} {f : Field} (declared : s.decls[id]? = some d)
      (body : d.message? = some m) (listed : f ∈ m.fields) (described : s.entryOf? f = some md) : Accounted s md

section Accounted
variable {s : Schema} {md : MessageDescriptor}

theorem accounted_of_messageOf? {id : DeclId} (h : s.messageOf? id = some md) : s.Accounted md := by
  have hsome : ∃ d m, s.decls[id]? = some d ∧ d.message? = some m := by
    unfold messageOf? at h
    cases hsize : s.size with
    | zero => simp [hsize, messagesOf] at h
    | succ n =>
      cases hd : s.decls[id]? with
      | none => simp [hsize, messagesOf, hd] at h
      | some d =>
        cases hm : d.message? with
        | none => simp [hsize, messagesOf, hd, hm] at h
        | some m => exact ⟨d, m, rfl, hm⟩
  obtain ⟨d, m, hd, hm⟩ := hsome
  exact .own hd hm h

theorem Forest.accounted_nested (h : s.Forest) (hmd : s.Accounted md) : ∀ m ∈ md.messages, s.Accounted m := by
  intro inner hinner
  cases hmd with
  | own hd hm hdescribed =>
    rw [h.messageOf?_eq hd hm] at hdescribed
    cases hdescribed
    rcases List.mem_append.1 hinner with hinner | hinner
    · obtain ⟨f, hf, hentry⟩ := List.mem_filterMap.1 hinner
      exact .entry hd hm hf hentry
    · obtain ⟨c, -, hc⟩ := List.mem_filterMap.1 hinner
      exact accounted_of_messageOf? hc
  | entry _ _ _ hdescribed =>
    unfold entryOf? at hdescribed
    split at hdescribed
    · cases hdescribed
      cases hinner
    · cases hdescribed

theorem Forest.accounted_of_among (h : s.Forest) {ms : List MessageDescriptor} (hmd : MessageDescriptor.Among ms md)
    (hms : ∀ m ∈ ms, s.Accounted m) : s.Accounted md := by
  induction hmd with
  | here hm => exact hms _ hm
  | inside houter _ ih => exact ih (h.accounted_nested (hms _ houter))

theorem Forest.accounted_of_holds (h : s.Forest) {file : FileDescriptor} (hfile : file ∈ s.descriptors)
    (hmd : file.Holds md) : s.Accounted md := by
  refine h.accounted_of_among hmd fun m hm => ?_
  obtain ⟨f, x, rfl⟩ := List.mem_mapIdx.1 hfile
  have hm : m ∈ s.messagesOf s.size (s.files.get ⟨f, x⟩).tops := hm
  rw [messagesOf_eq_filterMap] at hm
  obtain ⟨id, -, hid⟩ := List.mem_filterMap.1 hm
  exact accounted_of_messageOf? hid

end Accounted

/-- Whatever is named in a descriptor as a type that a declaration refers to is found by that name. -/
structure ReferencesResolve (s : Schema) : Prop where
  accounted : ∀ file ∈ s.descriptors, ∀ md, file.Holds md → s.Accounted md
  message : ∀ id d m, s.decls[id]? = some d → d.message? = some m →
    s.Resolves (s.fullName id) id .message ∧
      ∃ md, s.messageOf? id = some md ∧ List.Forall₂ (s.Locates id md) m.fields md.fields
  service : ∀ file ∈ s.descriptors, ∀ sd ∈ file.services, ∃ id d service, s.decls[id]? = some d ∧
    d.service? = some service ∧ s.serviceOf? id = some sd ∧ List.Forall₂ s.LocatesMethod service.methods sd.methods

/-- In a navigable schema every reference in a descriptor can be followed. -/
theorem Navigable.referencesResolve {s : Schema} (h : s.Navigable) : s.ReferencesResolve where
  accounted _ hfile _ hmd := h.forest.accounted_of_holds hfile hmd
  message id d m hd hm := by
    refine ⟨h.forest.resolves_message h.undotted hd hm, _, h.forest.messageOf?_eq hd hm, ?_⟩
    exact forall₂_fieldDescriptors _ fun f hf => h.locates hd hm hf (h.forest.messageOf?_eq hd hm)
  service file hfile sd hsd := by
    obtain ⟨f, x, rfl⟩ := List.mem_mapIdx.1 hfile
    obtain ⟨id, -, hid⟩ := List.mem_filterMap.1 hsd
    obtain ⟨d, hd, hservice⟩ := Option.bind_eq_some_iff.1 hid
    obtain ⟨service, hs, rfl⟩ := Option.map_eq_some_iff.1 hservice
    refine ⟨id, d, service, hd, hs, hid, List.forall₂_map_right_iff.2 (List.forall₂_same.2 fun m hm => ?_)⟩
    exact h.locatesMethod hd hs hm _ rfl rfl

end ProtoRecovery.Schema
