import ProtoRecovery.Proofs.Recovery.Settle
/-!
# Well-formed messages

Whatever the properties of a class are, sorting its choices out leaves a well-formed message, as long as no choice
lists a number that is not positive.
-/

namespace ProtoRecovery

open Schema (Field Choice Message)

namespace Schema.Message

/-- One field for each number; choices that are not empty, list positive numbers of fields and share none; and
nothing optional that is in a choice or is a collection. -/
structure WellFormed (m : Message) : Prop where
  ascending : Ascending m.fields
  keyed : ∀ f ∈ m.fields, m.field? f.number = some f
  nonempty : ∀ c ∈ m.choices, c.numbers ≠ []
  members : ∀ c ∈ m.choices, ∀ n ∈ c.numbers, 0 < n ∧ (m.field? n).isSome = true
  disjoint : (m.choices.flatMap (·.numbers)).Nodup
  optional : ∀ f ∈ m.fields, f.isOptional = true →
    (∀ c ∈ m.choices, f.number ∉ c.numbers) ∧ f.type.isCollection = false

theorem field?_of_ascending {m : Message} (h : Ascending m.fields) {f : Field} (hf : f ∈ m.fields) :
    m.field? f.number = some f := by
  obtain ⟨before, rest, hsplit⟩ := List.append_of_mem hf
  unfold field?
  rw [hsplit, List.find?_append, List.find?_cons_of_pos (by simp), Option.or_eq_right_of_none]
  rw [List.find?_eq_none]
  intro g hg hnumber
  rw [Ascending, hsplit] at h
  have hlt := (List.pairwise_append.1 h).2.2 g hg f (by simp)
  have heq : g.number = f.number := eq_of_beq hnumber
  omega

theorem wellFormed_empty : WellFormed {} where
  ascending := .nil
  keyed := by simp
  nonempty := by simp
  members := by simp
  disjoint := by simp
  optional := by simp

/-- What is nested in a message does not matter. -/
theorem WellFormed.of_eq {m m' : Message} (h : m.WellFormed) (hf : m'.fields = m.fields)
    (hc : m'.choices = m.choices) : m'.WellFormed := by
  have hfield : ∀ n, m'.field? n = m.field? n := fun n => by rw [field?, field?, hf]
  constructor
  · exact hf ▸ h.ascending
  · intro f hm
    rw [hfield]
    exact h.keyed f (hf ▸ hm)
  · exact fun c hm => h.nonempty c (hc ▸ hm)
  · intro c hm n hn
    rw [hfield]
    exact h.members c (hc ▸ hm) n hn
  · exact hc ▸ h.disjoint
  · intro f hm ho
    obtain ⟨hchoices, htype⟩ := h.optional f (hf ▸ hm) ho
    exact ⟨fun c hm' => hchoices c (hc ▸ hm'), htype⟩

/-- A message whose properties are still being read. -/
structure Draft (m : Message) : Prop where
  ascending : Ascending m.fields
  positive : ∀ c ∈ m.choices, ∀ n ∈ c.numbers, 0 < n

theorem draft_empty : Draft {} := ⟨.nil, by simp⟩

theorem Draft.insert {m : Message} (h : m.Draft) (f : Field) : (m.insert f).Draft :=
  ⟨ascending_insertAscending f h.ascending, h.positive⟩

theorem Draft.addChoice {m : Message} (h : m.Draft) {c : Choice} (hc : ∀ n ∈ c.numbers, 0 < n) :
    Draft { m with choices := m.choices ++ [c] } := by
  refine ⟨h.ascending, fun d hd => ?_⟩
  rcases List.mem_append.1 hd with hd | hd
  · exact h.positive d hd
  · rw [List.mem_singleton.1 hd]
    exact hc

end Schema.Message

namespace Recovery

open Schema.Message (Ascending WellFormed Draft)

theorem settleNumbers_spec (isThere : Int → Bool) (claimed numbers : List Int) :
    let s := settleNumbers isThere claimed numbers
    s.claimed = s.kept.reverse ++ claimed ∧ s.kept.Nodup ∧
      ∀ n ∈ s.kept, n ∈ numbers ∧ isThere n = true ∧ n ∉ claimed := by
  induction numbers generalizing claimed with
  | nil => simp [settleNumbers]
  | cons n rest ih =>
    unfold settleNumbers
    dsimp only
    split
    · rename_i hkeep
      obtain ⟨hthere, hfresh⟩ : isThere n = true ∧ n ∉ claimed := by simpa using hkeep
      obtain ⟨hclaimed, hnodup, hkept⟩ := ih (n :: claimed)
      refine ⟨by simp [hclaimed], List.nodup_cons.2 ⟨fun hmem => ?_, hnodup⟩, fun k hk => ?_⟩
      · exact (hkept n hmem).2.2 (by simp)
      · rcases List.mem_cons.1 hk with rfl | hk
        · exact ⟨by simp, hthere, hfresh⟩
        · obtain ⟨hmem, hk', hnew⟩ := hkept k hk
          exact ⟨by simp [hmem], hk', fun hc => hnew (by simp [hc])⟩
    · obtain ⟨hclaimed, hnodup, hkept⟩ := ih claimed
      exact ⟨hclaimed, hnodup, fun k hk => ⟨by simp [(hkept k hk).1], (hkept k hk).2⟩⟩

/-- What choices keep is there, is kept by one choice only, and was listed by that choice. -/
theorem settleChoices_spec (isThere : Int → Bool) (claimed : List Int) (cs : List Choice) :
    let xs := settleChoices isThere claimed cs
    (xs.flatMap (·.2.kept)).Nodup ∧ (∀ n ∈ xs.flatMap (·.2.kept), isThere n = true ∧ n ∉ claimed) ∧
      ∀ x ∈ xs, ∀ n ∈ x.2.kept, ∃ c ∈ cs, n ∈ c.numbers := by
  induction cs generalizing claimed with
  | nil => simp [settleChoices]
  | cons c rest ih =>
    obtain ⟨hclaimed, hnodup, hkept⟩ := settleNumbers_spec isThere claimed c.numbers
    obtain ⟨hnodup', hthere', hlisted⟩ := ih (settleNumbers isThere claimed c.numbers).claimed
    unfold settleChoices
    dsimp only
    refine ⟨?_, ?_, ?_⟩
    · rw [List.flatMap_cons]
      refine List.nodup_append'.2 ⟨hnodup, hnodup', fun n hn hn' => ?_⟩
      exact (hthere' n hn').2 (by rw [hclaimed]; simp [hn])
    · intro n hn
      rw [List.flatMap_cons] at hn
      rcases List.mem_append.1 hn with hn | hn
      · exact (hkept n hn).2
      · refine ⟨(hthere' n hn).1, fun hc => (hthere' n hn).2 ?_⟩
        rw [hclaimed]
        simp [hc]
    · intro x hx n hn
      rcases List.mem_cons.1 hx with rfl | hx
      · exact ⟨c, by simp, (hkept n hn).1⟩
      · obtain ⟨d, hd, hnd⟩ := hlisted x hx n hn
        exact ⟨d, by simp [hd], hnd⟩

/-- The choices that are left, by what each keeps. -/
def leftChoices (xs : List (String × Settled)) : List Choice :=
  xs.filterMap fun (name, s) => if s.kept.isEmpty then none else some ⟨name, s.kept⟩

theorem mem_leftChoices {xs : List (String × Settled)} {c : Choice} (h : c ∈ leftChoices xs) :
    c.numbers ≠ [] ∧ ∃ x ∈ xs, x.2.kept = c.numbers := by
  obtain ⟨⟨name, s⟩, hx, hc⟩ := List.mem_filterMap.1 h
  dsimp only at hc
  split at hc
  · cases hc
  · rename_i hne
    cases hc
    exact ⟨by simpa using hne, (name, s), hx, rfl⟩

theorem numbers_leftChoices (xs : List (String × Settled)) :
    (leftChoices xs).flatMap (·.numbers) = xs.flatMap (·.2.kept) := by
  induction xs with
  | nil => rfl
  | cons x rest ih =>
    obtain ⟨name, s⟩ := x
    rw [leftChoices, List.filterMap_cons, ← leftChoices]
    cases hkept : s.kept with
    | nil => simp [hkept, ih]
    | cons n ns => simp [hkept, ih]

theorem settle_eq (m : Message) :
    (settle m).1 = { m with
      fields := m.fields.map (settledField
        ((settleChoices (fun n => (m.field? n).isSome) [] m.choices).flatMap (·.2.kept)))
      choices := leftChoices (settleChoices (fun n => (m.field? n).isSome) [] m.choices) } := rfl

theorem not_optional_settledField {claimed : List Int} {f : Field} (h : (settledField claimed f).isOptional = true) :
    f.number ∉ claimed ∧ f.type.isCollection = false := by
  unfold settledField at h
  split at h
  · cases h
  · rename_i hplain
    simpa using hplain

/-- A draft is well formed once its choices are sorted out. -/
theorem wellFormed_settle {m : Message} (h : m.Draft) : (settle m).1.WellFormed := by
  have hspec := settleChoices_spec (fun n => (m.field? n).isSome) [] m.choices
  rw [settle_eq]
  generalize settleChoices (fun n => (m.field? n).isSome) [] m.choices = xs at hspec
  obtain ⟨hnodup, hthere, hlisted⟩ := hspec
  have hnumbers := numbers_leftChoices xs
  generalize hclaimed : xs.flatMap (·.2.kept) = claimed at hnodup hthere hnumbers
  have hmap : (m.fields.map (settledField claimed)).map (·.number) = m.fields.map (·.number) := by
    simp [Function.comp_def, number_settledField]
  have hascending : Ascending (m.fields.map (settledField claimed)) := by
    refine List.pairwise_map.2 (h.ascending.imp fun hlt => ?_)
    rwa [number_settledField, number_settledField]
  have hchoice : ∀ c ∈ leftChoices xs, ∀ n ∈ c.numbers, n ∈ claimed := fun c hc n hn =>
    hnumbers ▸ List.mem_flatMap.2 ⟨c, hc, hn⟩
  constructor
  · exact hascending
  · exact fun f hf => Schema.Message.field?_of_ascending hascending hf
  · exact fun c hc => (mem_leftChoices hc).1
  · intro c hc n hn
    obtain ⟨-, x, hx, hkept⟩ := mem_leftChoices hc
    obtain ⟨d, hd, hnd⟩ := hlisted x hx n (hkept ▸ hn)
    refine ⟨h.positive d hd n hnd, ?_⟩
    rw [Schema.Message.field?_isSome]
    show n ∈ (m.fields.map (settledField claimed)).map (·.number)
    rw [hmap, ← Schema.Message.field?_isSome]
    exact (hthere n (hchoice c hc n hn)).1
  · exact hnumbers ▸ hnodup
  · intro f hf ho
    obtain ⟨g, hg, rfl⟩ := List.mem_map.1 hf
    obtain ⟨hfree, htype⟩ := not_optional_settledField ho
    rw [number_settledField, type_settledField]
    exact ⟨fun c hc hn => hfree (hchoice c hc _ hn), htype⟩

end Recovery

end ProtoRecovery
