import ProtoRecovery.Proofs.Recovery.Settle
import ProtoRecovery.Schema.Descriptor
/-!
# Choices in descriptors

The descriptor of a message lists the choices of the message and then one more for each optional field. One pass over
the fields hands the positions out, counting as it goes; in the end each field points at its choice, and a choice that
was made for one field belongs to that field alone.
-/

namespace ProtoRecovery.Schema

namespace Message

/-- Fields in order, choices that share no number, and nothing optional that is in a choice or is a collection. -/
structure Arranged (m : Message) : Prop where
  ascending : Ascending m.fields
  disjoint : m.choices.Pairwise fun c c' => ∀ n ∈ c.numbers, n ∉ c'.numbers
  optional : ∀ f ∈ m.fields, f.isOptional = true →
    (∀ c ∈ m.choices, f.number ∉ c.numbers) ∧ f.type.isCollection = false

def optionals (m : Message) : List Field := m.fields.filter (·.isOptional)

/-- What the descriptor of a field says about choices, where `choices` are those of the message's descriptor. -/
structure Placed (m : Message) (choices : List String) (f : Field) (fd : FieldDescriptor) : Prop where
  name : fd.name = f.name
  number : fd.number = f.number
  optional : fd.isOptional = f.isOptional
  member : ∀ i c, m.choices[i]? = some c → (fd.choice = some i ↔ f.number ∈ c.numbers)
  own : f.isOptional = true → ∃ j, m.optionals[j]? = some f ∧ fd.choice = some (m.choices.length + j) ∧
    choices[m.choices.length + j]? = some ("_" ++ f.name)
  plain : f.isOptional = false → (∀ c ∈ m.choices, f.number ∉ c.numbers) → fd.choice = none
  inside : ∀ i, fd.choice = some i → i < choices.length

/-- The layout of a message's fields and choices in its descriptor. -/
structure LaidOut (m : Message) (md : MessageDescriptor) : Prop where
  choices : md.choices = m.choices.map (·.name) ++ m.optionals.map ("_" ++ ·.name)
  placed : List.Forall₂ (m.Placed md.choices) m.fields md.fields
  ascending : md.fields.Pairwise fun fd fd' => fd.number < fd'.number
  alone : ∀ fd ∈ md.fields, fd.isOptional = true → ∀ fd' ∈ md.fields, fd'.choice = fd.choice → fd' = fd

/-! ## Members of choices -/

section Arranged
variable {m : Message} (h : m.Arranged)
include h

/-- As choices share no number, the first that lists a number is the only one. -/
theorem Arranged.choiceOf?_eq_some_iff {n : Int} {i : Nat} {c : Choice} (hc : m.choices[i]? = some c) :
    m.choiceOf? n = some i ↔ n ∈ c.numbers := by
  obtain ⟨hi, rfl⟩ := List.getElem?_eq_some_iff.1 hc
  rw [choiceOf?, List.findIdx?_eq_some_iff_getElem]
  constructor
  · rintro ⟨_, hn, _⟩
    simpa using hn
  · intro hn
    refine ⟨hi, by simpa using hn, fun j hji hj => ?_⟩
    have hj : n ∈ m.choices[j].numbers := by simpa using hj
    exact List.pairwise_iff_getElem.1 h.disjoint j i (hji.trans hi) hi hji n hj hn

theorem Arranged.hasOwnChoice_eq {f : Field} (hf : f ∈ m.fields) : m.hasOwnChoice f = f.isOptional := by
  unfold hasOwnChoice
  cases ho : f.isOptional with
  | false => simp
  | true =>
    obtain ⟨hchoices, htype⟩ := h.optional f hf ho
    have hnone : m.choiceOf? f.number = none := by
      rw [choiceOf?, List.findIdx?_eq_none_iff]
      simpa using hchoices
    simp [hnone, htype]

end Arranged

theorem choiceOf?_lt {m : Message} {n : Int} {i : Nat} (h : m.choiceOf? n = some i) : i < m.choices.length :=
  (List.findIdx?_eq_some_iff_getElem.1 h).1

end Message

/-! ## Positions handed out in one pass -/

@[simp] theorem FieldDescriptor.withType_name (s : Schema) (fd : FieldDescriptor) (type : FieldType) :
    (fd.withType s type).name = fd.name := by cases type <;> rfl

@[simp] theorem FieldDescriptor.withType_number (s : Schema) (fd : FieldDescriptor) (type : FieldType) :
    (fd.withType s type).number = fd.number := by cases type <;> rfl

@[simp] theorem FieldDescriptor.withType_isOptional (s : Schema) (fd : FieldDescriptor) (type : FieldType) :
    (fd.withType s type).isOptional = fd.isOptional := by cases type <;> rfl

section Pass
variable (s : Schema) (owner : DeclId)

theorem fieldDescriptor_name (f : Field) : (s.fieldDescriptor owner f).name = f.name := by
  unfold fieldDescriptor
  split <;> simp

theorem fieldDescriptor_number (f : Field) : (s.fieldDescriptor owner f).number = f.number := by
  unfold fieldDescriptor
  split <;> simp

theorem fieldDescriptor_isOptional (f : Field) : (s.fieldDescriptor owner f).isOptional = false := by
  unfold fieldDescriptor
  split <;> simp

/-- The descriptor of a field that comes after others: a choice of its own stands behind those of the message and
those that the others got. -/
def descriptorAfter (m : Message) (before : List Field) (f : Field) : FieldDescriptor :=
  { s.fieldDescriptor owner f with
    choice :=
      if m.hasOwnChoice f then some (m.choices.length + before.countP m.hasOwnChoice) else m.choiceOf? f.number
    isOptional := m.hasOwnChoice f }

/-- The pass has counted, wherever it is, the fields behind it that got choices of their own. -/
theorem forall₂_descriptorAfter (m : Message) (before : List Field) {fields : List Field}
    (hsplit : m.fields = before ++ fields) :
    List.Forall₂ (fun f fd => ∃ before rest, m.fields = before ++ f :: rest ∧ fd = s.descriptorAfter owner m before f)
      fields (s.fieldDescriptors owner m (m.choices.length + before.countP m.hasOwnChoice) fields) := by
  induction fields generalizing before with
  | nil => exact .nil
  | cons f rest ih =>
    have hrest := ih (before ++ [f]) (by simpa using hsplit)
    rw [List.countP_append, List.countP_singleton, ← Nat.add_assoc] at hrest
    rw [fieldDescriptors]
    cases hown : m.hasOwnChoice f with
    | true =>
      rw [hown] at hrest
      exact .cons ⟨before, rest, hsplit, by simp [descriptorAfter, hown]⟩ hrest
    | false =>
      rw [hown] at hrest
      refine .cons ⟨before, rest, hsplit, ?_⟩ hrest
      simp [descriptorAfter, hown, ← fieldDescriptor_isOptional s owner f]

end Pass

/-! ## The layout -/

namespace Message

section Layout
variable {s : Schema} {owner : DeclId} {m : Message} (h : m.Arranged)
include h

theorem Arranged.filter_hasOwnChoice : m.fields.filter m.hasOwnChoice = m.optionals :=
  List.filter_congr fun _ hf => h.hasOwnChoice_eq hf

/-- The fields counted before an optional one give its place among the optional ones. -/
theorem Arranged.optionals_getElem? {before rest : List Field} {f : Field} (hsplit : m.fields = before ++ f :: rest)
    (ho : f.isOptional = true) : m.optionals[before.countP m.hasOwnChoice]? = some f := by
  have hown : m.hasOwnChoice f = true := (h.hasOwnChoice_eq (by simp [hsplit])).trans ho
  rw [← h.filter_hasOwnChoice, hsplit, List.filter_append, List.countP_eq_length_filter,
    List.getElem?_append_right (Nat.le_refl _), Nat.sub_self, List.filter_cons_of_pos hown]
  rfl

theorem Arranged.placed {choices : List String}
    (hchoices : choices = m.choices.map (·.name) ++ m.optionals.map ("_" ++ ·.name))
    {before rest : List Field} {f : Field} (hsplit : m.fields = before ++ f :: rest) :
    m.Placed choices f (s.descriptorAfter owner m before f) := by
  have hf : f ∈ m.fields := by simp [hsplit]
  have hown := h.hasOwnChoice_eq hf
  have hchoice : (s.descriptorAfter owner m before f).choice =
      if f.isOptional then some (m.choices.length + before.countP m.hasOwnChoice) else m.choiceOf? f.number := by
    rw [descriptorAfter, hown]
  have hnamed : f.isOptional = true →
      choices[m.choices.length + before.countP m.hasOwnChoice]? = some ("_" ++ f.name) := by
    intro ho
    rw [hchoices, List.getElem?_append_right (by simp)]
    simp [h.optionals_getElem? hsplit ho]
  refine ⟨fieldDescriptor_name s owner f, fieldDescriptor_number s owner f, hown, ?_, ?_, ?_, ?_⟩
  · intro i c hc
    rw [hchoice]
    cases ho : f.isOptional with
    | false => exact h.choiceOf?_eq_some_iff hc
    | true =>
      obtain ⟨hi, rfl⟩ := List.getElem?_eq_some_iff.1 hc
      have hout := (h.optional f hf ho).1 _ (List.getElem_mem hi)
      simp only [if_true, Option.some.injEq, hout, iff_false]
      omega
  · intro ho
    exact ⟨_, h.optionals_getElem? hsplit ho, by rw [hchoice, if_pos ho], hnamed ho⟩
  · intro ho hout
    rw [hchoice, ho, if_neg Bool.false_ne_true, choiceOf?, List.findIdx?_eq_none_iff]
    simpa using hout
  · intro i hi
    rw [hchoice] at hi
    cases ho : f.isOptional with
    | false =>
      rw [ho, if_neg Bool.false_ne_true] at hi
      have hlt := choiceOf?_lt hi
      simp only [hchoices, List.length_append, List.length_map]
      omega
    | true =>
      rw [ho, if_pos rfl, Option.some.injEq] at hi
      exact hi ▸ (List.getElem?_eq_some_iff.1 (hnamed ho)).1

end Layout

section Alone
variable {m : Message} {choices : List String} {f f' : Field} {fd fd' : FieldDescriptor}

/-- A field that is not optional points at a choice of the message or at none. -/
theorem Placed.lt_of_choice_eq (h : m.Placed choices f fd) (ho : f.isOptional = false) {i : Nat}
    (hi : fd.choice = some i) : i < m.choices.length := by
  by_cases hout : ∀ c ∈ m.choices, f.number ∉ c.numbers
  · have hnone := h.plain ho hout
    rw [hi] at hnone
    cases hnone
  · simp only [not_forall, not_not] at hout
    obtain ⟨c, hc, hn⟩ := hout
    obtain ⟨k, hk⟩ := List.mem_iff_getElem?.1 hc
    have hchoice := (h.member k c hk).2 hn
    obtain rfl : i = k := by simpa [hi] using hchoice
    exact (List.getElem?_eq_some_iff.1 hk).1

theorem Placed.eq_of_choice_eq (h : m.Placed choices f fd) (h' : m.Placed choices f' fd') (ho : f.isOptional = true)
    (heq : fd'.choice = fd.choice) : f' = f := by
  obtain ⟨j, hj, hchoice, -⟩ := h.own ho
  cases ho' : f'.isOptional with
  | false =>
    have hlt := h'.lt_of_choice_eq ho' (heq.trans hchoice)
    omega
  | true =>
    obtain ⟨j', hj', hchoice', -⟩ := h'.own ho'
    obtain rfl : j' = j := by simpa [hchoice, hchoice'] using heq
    exact Option.some.inj (hj'.symm.trans hj)

theorem exists_placed {fields : List Field} {fds : List FieldDescriptor}
    (h : List.Forall₂ (m.Placed choices) fields fds) (hfd : fd ∈ fds) : ∃ f, m.Placed choices f fd := by
  obtain ⟨k, hk, rfl⟩ := List.getElem_of_mem hfd
  exact ⟨_, h.get (h.length_eq ▸ hk) hk⟩

end Alone

theorem Arranged.laidOut {m : Message} (h : m.Arranged) {md : MessageDescriptor}
    (hchoices : md.choices = m.choices.map (·.name) ++ m.optionals.map ("_" ++ ·.name))
    (hplaced : List.Forall₂ (m.Placed md.choices) m.fields md.fields) : m.LaidOut md := by
  have hnumbers : md.fields.map (·.number) = m.fields.map (·.number) := by
    rw [← List.forall₂_eq_eq_eq, List.forall₂_map_left_iff, List.forall₂_map_right_iff]
    exact (hplaced.imp fun _ _ hf => hf.number).flip
  have hascending : (md.fields.map (·.number)).Pairwise (· < ·) := by
    rw [hnumbers, List.pairwise_map]
    exact h.ascending
  refine ⟨hchoices, hplaced, List.pairwise_map.1 hascending, ?_⟩
  intro fd hfd ho fd' hfd' heq
  obtain ⟨f, hf⟩ := exists_placed hplaced hfd
  obtain ⟨f', hf'⟩ := exists_placed hplaced hfd'
  obtain rfl := hf.eq_of_choice_eq hf' (hf.optional.symm.trans ho) heq
  exact List.inj_on_of_nodup_map hascending.nodup hfd' hfd (hf'.number.trans hf.number.symm)

end Message

/-- However deep messages are laid out, the descriptor of a message whose choices are in order points each field at
its choice: a member at the choice that lists it, an optional field at one behind all those of the message that is for
it alone, and any other field at none. -/
theorem messagesOf_laidOut (s : Schema) (depth : Nat) {id : DeclId} {d : Declaration} {m : Message}
    (hd : s.decls[id]? = some d) (hm : d.message? = some m) (h : m.Arranged) :
    ∃ md, s.messagesOf (depth + 1) [id] = [md] ∧ md.name = d.name ∧ m.LaidOut md := by
  have hpass := s.forall₂_descriptorAfter id m [] (List.nil_append m.fields).symm
  rw [List.countP_nil, Nat.add_zero] at hpass
  simp only [messagesOf, List.filterMap_cons, hd, hm, Option.map_some, List.filterMap_nil, h.filter_hasOwnChoice]
  refine ⟨_, rfl, rfl, h.laidOut rfl (hpass.imp ?_)⟩
  rintro f fd ⟨before, rest, hsplit, rfl⟩
  exact h.placed rfl hsplit

/-- Two choices, two optional fields around a member, a list and a map. -/
def mixedMessage : Message where
  fields := [
    { name := "label", number := 1, type := .scalar .string, isDeprecated := false, isOptional := true },
    { name := "text", number := 2, type := .scalar .string, isDeprecated := false, isOptional := false },
    { name := "weights", number := 4, type := .map (.scalar .string) (.scalar .double), isDeprecated := false,
      isOptional := false },
    { name := "count", number := 5, type := .scalar .int32, isDeprecated := true, isOptional := true },
    { name := "parts", number := 7, type := .repeated (.scalar .bytes), isDeprecated := false, isOptional := false },
    { name := "code", number := 9, type := .scalar .uint32, isDeprecated := false, isOptional := false },
    { name := "flag", number := 10, type := .scalar .bool, isDeprecated := false, isOptional := false }]
  choices := [⟨"status", [9]⟩, ⟨"payload", [10, 2]⟩]

def mixedDeclaration : Declaration := { name := "Mixed", isDeprecated := false, body := .message mixedMessage }

theorem mixedMessage_laidOut : mixedMessage.Arranged ∧
    ∃ md, messagesOf { decls := [mixedDeclaration] } 1 [0] = [md] ∧ md.name = "Mixed" ∧ mixedMessage.LaidOut md :=
  have h : mixedMessage.Arranged := by
    refine ⟨by simp [Message.Ascending, mixedMessage], by simp [mixedMessage], ?_⟩
    simp [mixedMessage, FieldType.isCollection]
  ⟨h, messagesOf_laidOut { decls := [mixedDeclaration] } 0 (d := mixedDeclaration) rfl rfl h⟩

end ProtoRecovery.Schema
