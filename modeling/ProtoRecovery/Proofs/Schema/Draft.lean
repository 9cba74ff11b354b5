import ProtoRecovery.Proofs.Schema.ChoiceLayout
/-!
# Fields and choices in two passes

The fields of a message can be put down first, and the choices that some of them have of their own be added when all are
there: these fields are remembered by name and place, and pointed at their choices then. Positions of choices have 32
bits. One pass that counts comes to the same: no field that was remembered is missed, and the positions are those counted,
as long as 32 bits hold them.
-/

namespace ProtoRecovery.Schema

/-- A field that was put down, with the position of its choice apart. -/
structure DraftField where
  descriptor : FieldDescriptor
  position : Option Int32 := none

/-- The descriptor of a message while its fields are put down. -/
structure Draft where
  choices : List String
  fields : List DraftField := []
  entries : List MessageDescriptor := []
  /-- The fields that are to have choices of their own, by name and place. -/
  waiting : List (String × Nat) := []

namespace Draft

/-- Puts a field down behind the others. -/
def put (s : Schema) (owner : DeclId) (m : Message) (d : Draft) (f : Field) : Draft :=
  let fd := s.fieldDescriptor owner f
  let d := { d with entries := d.entries ++ (s.entryOf? f).toList }
  match m.choiceOf? f.number with
  | some i => { d with fields := d.fields ++ [⟨fd, some (Int32.ofNat i)⟩] }
  | none =>
    if f.isOptional && !f.type.isCollection then
      { d with
        fields := d.fields ++ [⟨{ fd with isOptional := true }, none⟩]
        waiting := d.waiting ++ [(fd.name, d.fields.length)] }
    else { d with fields := d.fields ++ [⟨fd, none⟩] }

/-- Points a field that was remembered at a new choice behind all others. There is no field at a place out of range. -/
def attach (d : Draft) : String × Nat → Option Draft
  | (name, place) => do
    let field ← d.fields[place]?
    return { d with
      choices := d.choices ++ ["_" ++ name]
      fields := d.fields.set place { field with position := some (Int32.ofNat d.choices.length) } }

end Draft

/-- The fields and choices of a message, one pass for all fields and one for those remembered. -/
def draft (s : Schema) (owner : DeclId) (m : Message) : Option Draft :=
  let first := m.fields.foldl (Draft.put s owner m) { choices := m.choices.map (·.name) }
  first.waiting.foldlM Draft.attach first

/-- A descriptor of a field with its position in 32 bits. -/
def DraftField.of (fd : FieldDescriptor) : DraftField := ⟨{ fd with choice := none }, fd.choice.map Int32.ofNat⟩

section Passes
variable (s : Schema) (owner : DeclId) (m : Message)

/-- What the first pass makes of a field. -/
def firstField (f : Field) : DraftField :=
  ⟨{ s.fieldDescriptor owner f with isOptional := m.hasOwnChoice f }, (m.choiceOf? f.number).map Int32.ofNat⟩

/-- What it remembers of fields, the first of which is put down at a place. -/
def remembered : (place : Nat) → List Field → List (String × Nat)
  | _, [] => []
  | place, f :: rest =>
    if m.hasOwnChoice f then (f.name, place) :: remembered (place + 1) rest else remembered (place + 1) rest

theorem fieldDescriptor_choice (f : Field) : (s.fieldDescriptor owner f).choice = none := by
  have hwith : ∀ (fd : FieldDescriptor) type, (fd.withType s type).choice = fd.choice := fun fd type => by cases type <;> rfl
  unfold fieldDescriptor
  split <;> simp [hwith]

theorem put_eq (d : Draft) (f : Field) :
    d.put s owner m f =
      { d with
        fields := d.fields ++ [s.firstField owner m f]
        entries := d.entries ++ (s.entryOf? f).toList
        waiting := d.waiting ++ remembered m d.fields.length [f] } := by
  have hplain : { s.fieldDescriptor owner f with isOptional := false } = s.fieldDescriptor owner f := by
    rw [← fieldDescriptor_isOptional s owner f]
  unfold Draft.put firstField
  dsimp only
  cases hchoice : m.choiceOf? f.number with
  | some i =>
    have hown : m.hasOwnChoice f = false := by simp [Message.hasOwnChoice, hchoice]
    simp [remembered, hown, hplain]
  | none =>
    have hown : m.hasOwnChoice f = (f.isOptional && !f.type.isCollection) := by simp [Message.hasOwnChoice, hchoice]
    cases ho : f.isOptional && !f.type.isCollection with
    | true => simp [remembered, hown, ho, fieldDescriptor_name]
    | false => simp [remembered, hown, ho, hplain]

/-- The first pass: places are counted from the fields that are there already. -/
theorem foldl_put (d : Draft) (fields : List Field) :
    fields.foldl (Draft.put s owner m) d =
      { d with
        fields := d.fields ++ fields.map (s.firstField owner m)
        entries := d.entries ++ fields.filterMap s.entryOf?
        waiting := d.waiting ++ remembered m d.fields.length fields } := by
  induction fields generalizing d with
  | nil => simp [remembered]
  | cons f rest ih =>
    rw [List.foldl_cons, ih, put_eq]
    cases hown : m.hasOwnChoice f <;> cases hentry : s.entryOf? f <;> simp [remembered, hown, hentry]

omit s owner m in
theorem attach_eq {d : Draft} {done rest : List DraftField} {field : DraftField} (name : String)
    (hfields : d.fields = done ++ field :: rest) :
    d.attach (name, done.length) = some { d with
      choices := d.choices ++ ["_" ++ name]
      fields := (done ++ [{ field with position := some (Int32.ofNat d.choices.length) }]) ++ rest } := by
  simp [Draft.attach, hfields]

/-- The second pass: what was remembered of the fields behind those that are done. -/
theorem foldlM_attach {d : Draft} {done : List DraftField} {fields : List Field}
    (hfields : d.fields = done ++ fields.map (s.firstField owner m)) :
    (remembered m done.length fields).foldlM Draft.attach d =
      some { d with
        choices := d.choices ++ (fields.filter m.hasOwnChoice).map ("_" ++ ·.name)
        fields := done ++ (s.fieldDescriptors owner m d.choices.length fields).map DraftField.of } := by
  induction fields generalizing d done with
  | nil =>
    rw [List.map_nil, List.append_nil] at hfields
    simp [remembered, fieldDescriptors, ← hfields]
  | cons f rest ih =>
    have hlength : ∀ field, done.length + 1 = (done ++ [field]).length := by simp
    have hchoice := fieldDescriptor_choice s owner f
    rw [remembered]
    cases hown : m.hasOwnChoice f with
    | true =>
      have hfirst : { s.firstField owner m f with position := some (Int32.ofNat d.choices.length) } =
          DraftField.of { s.fieldDescriptor owner f with choice := some d.choices.length, isOptional := true } := by
        simp [firstField, DraftField.of, hown, hchoice]
      rw [if_pos rfl, List.foldlM_cons, attach_eq f.name hfields, hfirst, hlength]
      refine (ih rfl).trans ?_
      simp [fieldDescriptors, hown]
    | false =>
      have hfirst : s.firstField owner m f =
          DraftField.of { s.fieldDescriptor owner f with choice := m.choiceOf? f.number } := by
        simp [firstField, DraftField.of, hown, fieldDescriptor_isOptional, hchoice]
      rw [if_neg Bool.false_ne_true, hlength (s.firstField owner m f), ih (by simp [hfields])]
      simp [fieldDescriptors, hown, hfirst]

theorem draft_eq :
    s.draft owner m = some {
      choices := m.choices.map (·.name) ++ (m.fields.filter m.hasOwnChoice).map ("_" ++ ·.name)
      fields := (s.fieldDescriptors owner m m.choices.length m.fields).map DraftField.of
      entries := m.fields.filterMap s.entryOf?
      waiting := remembered m 0 m.fields } := by
  unfold draft
  rw [foldl_put]
  refine (foldlM_attach s owner m (List.nil_append _).symm).trans ?_
  simp

end Passes

/-- A position is that of a choice of the message, or of one of as many more as fields have their own. -/
theorem choice_lt {s : Schema} {owner : DeclId} {m : Message} {fields : List Field} {own i : Nat} {fd : FieldDescriptor}
    (hfd : fd ∈ s.fieldDescriptors owner m own fields) (hi : fd.choice = some i) (hown : m.choices.length ≤ own) :
    i < own + (fields.filter m.hasOwnChoice).length := by
  induction fields generalizing own with
  | nil => simp [fieldDescriptors] at hfd
  | cons f rest ih =>
    rw [fieldDescriptors] at hfd
    cases hf : m.hasOwnChoice f with
    | true =>
      rw [hf, if_pos rfl, List.mem_cons] at hfd
      rw [List.filter_cons_of_pos hf, List.length_cons]
      rcases hfd with rfl | hfd
      · obtain rfl := Option.some.inj hi
        omega
      · have := ih hfd (by omega)
        omega
    | false =>
      rw [hf, if_neg Bool.false_ne_true, List.mem_cons] at hfd
      rw [List.filter_cons_of_neg (by simp [hf])]
      rcases hfd with rfl | hfd
      · have := Message.choiceOf?_lt hi
        omega
      · exact ih hfd hown

/-- The descriptor of a message is what two passes put down: the same choices, the same fields with their positions in 32
bits, and the same entries in front of what is nested. Up to 2³¹ choices, the positions are those counted. -/
theorem messagesOf_drafted (s : Schema) (depth : Nat) {id : DeclId} {d : Declaration} {m : Message}
    (hd : s.decls[id]? = some d) (hm : d.message? = some m) :
    ∃ md draft, s.messagesOf (depth + 1) [id] = [md] ∧ s.draft id m = some draft ∧ md.choices = draft.choices ∧
      md.fields.map DraftField.of = draft.fields ∧ md.messages = draft.entries ++ s.messagesOf depth m.nested ∧
      (md.choices.length ≤ 2 ^ 31 →
        draft.fields.map (·.position.map Int32.toInt) = md.fields.map fun fd => fd.choice.map Int.ofNat) := by
  simp only [messagesOf, List.filterMap_cons, hd, hm, Option.map_some, List.filterMap_nil]
  refine ⟨_, _, rfl, draft_eq s id m, rfl, rfl, rfl, fun hmany => ?_⟩
  rw [List.length_append, List.length_map, List.length_map] at hmany
  rw [List.map_map]
  refine List.map_congr_left fun fd hfd => ?_
  cases hi : fd.choice with
  | none => simp [DraftField.of, hi]
  | some i =>
    have hlt := choice_lt hfd hi le_rfl
    simp [DraftField.of, hi, Int32.toInt_ofNat_of_lt (show i < 2 ^ 31 by omega)]

end ProtoRecovery.Schema
