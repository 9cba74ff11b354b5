import Mathlib
import ProtoRecovery.Recovery.Message
/-!
# Fields in order, and choices that stay

Fields get to their places one by one, and in the end a message's choices are sorted out. Where no number is
given twice nothing is lost on the way: every field is there, and every choice keeps all of its members.
-/

namespace ProtoRecovery

open Schema (Field Choice Message)

/-! ## Fields in ascending order -/

namespace Schema.Message

/-- Fields in ascending order of their numbers. -/
def Ascending (fs : List Field) : Prop := fs.Pairwise fun f g => f.number < g.number

theorem mem_insertAscending {f g : Field} {fs : List Field} (h : g ∈ insertAscending f fs) : g = f ∨ g ∈ fs := by
  induction fs with
  | nil => exact .inl (by simpa [insertAscending] using h)
  | cons x rest ih =>
    unfold insertAscending at h
    split at h
    · simpa using h
    · split at h
      · rcases List.mem_cons.1 h with h | h
        · exact .inl h
        · exact .inr (by simp [h])
      · rcases List.mem_cons.1 h with h | h
        · exact .inr (by simp [h])
        · exact (ih h).imp_right fun h => by simp [h]

theorem ascending_insertAscending {fs : List Field} (f : Field) (h : Ascending fs) :
    Ascending (insertAscending f fs) := by
  induction fs with
  | nil => exact List.pairwise_singleton ..
  | cons x rest ih =>
    obtain ⟨hx, hrest⟩ := List.pairwise_cons.1 h
    unfold insertAscending
    split
    · rename_i hlt
      refine List.pairwise_cons.2 ⟨fun g hg => ?_, h⟩
      rcases List.mem_cons.1 hg with rfl | hg
      · exact hlt
      · exact hlt.trans (hx g hg)
    · split
      · rename_i heq
        exact List.pairwise_cons.2 ⟨fun g hg => heq ▸ hx g hg, hrest⟩
      · refine List.pairwise_cons.2 ⟨fun g hg => ?_, ih hrest⟩
        rcases mem_insertAscending hg with rfl | hg
        · omega
        · exact hx g hg

/-- A field with a number of its own is put in, and no other gives way. -/
theorem insertAscending_perm {f : Field} {fs : List Field} (h : f.number ∉ fs.map (·.number)) :
    (insertAscending f fs).Perm (f :: fs) := by
  induction fs with
  | nil => exact .refl _
  | cons x rest ih =>
    simp only [List.map_cons, List.mem_cons, not_or] at h
    unfold insertAscending
    split
    · exact .refl _
    · rw [if_neg h.1]
      exact ((ih h.2).cons x).trans (.swap f x rest)

theorem field?_isSome {m : Message} {n : Int} : (m.field? n).isSome = true ↔ n ∈ m.fields.map (·.number) := by
  simp [field?, List.find?_isSome]

end Schema.Message

/-! ## Choices that keep their members -/

namespace Recovery

theorem settleNumbers_of_fresh {isThere : Int → Bool} {claimed numbers : List Int}
    (hthere : ∀ n ∈ numbers, isThere n = true) (hnodup : numbers.Nodup) (hfresh : ∀ n ∈ numbers, n ∉ claimed) :
    settleNumbers isThere claimed numbers = ⟨numbers, [], numbers.reverse ++ claimed⟩ := by
  induction numbers generalizing claimed with
  | nil => rfl
  | cons n rest ih =>
    obtain ⟨hn, hrest⟩ := List.nodup_cons.1 hnodup
    -- The number is claimed now, and no later one is the same.
    have hclaimed : ∀ k ∈ rest, k ∉ n :: claimed := by
      intro k hk hmem
      rcases List.mem_cons.1 hmem with rfl | hmem
      · exact hn hk
      · exact hfresh k (by simp [hk]) hmem
    unfold settleNumbers
    rw [if_pos (by simp [hthere n (by simp), hfresh n (by simp)]),
      ih (fun k hk => hthere k (by simp [hk])) hrest hclaimed]
    simp

/-- What becomes of a choice that keeps all of its members. -/
def Intact (c : Choice) (x : String × Settled) : Prop := x.1 = c.name ∧ x.2.kept = c.numbers ∧ x.2.dropped = []

theorem settleChoices_of_fresh {isThere : Int → Bool} {claimed : List Int} {cs : List Choice}
    (hthere : ∀ c ∈ cs, ∀ n ∈ c.numbers, isThere n = true) (hnodup : (cs.flatMap (·.numbers)).Nodup)
    (hfresh : ∀ n ∈ cs.flatMap (·.numbers), n ∉ claimed) :
    List.Forall₂ Intact cs (settleChoices isThere claimed cs) := by
  induction cs generalizing claimed with
  | nil => exact .nil
  | cons c rest ih =>
    rw [List.flatMap_cons, List.nodup_append'] at hnodup
    obtain ⟨hc, hrest, hdisjoint⟩ := hnodup
    have hsettled : settleNumbers isThere claimed c.numbers = ⟨c.numbers, [], c.numbers.reverse ++ claimed⟩ :=
      settleNumbers_of_fresh (hthere c (by simp)) hc fun n hn => hfresh n (by simp [hn])
    unfold settleChoices
    rw [hsettled]
    refine .cons ⟨rfl, rfl, rfl⟩ (ih (fun d hd => hthere d (by simp [hd])) hrest fun n hn hmem => ?_)
    rcases List.mem_append.1 hmem with hmem | hmem
    · exact hdisjoint (List.mem_reverse.1 hmem) hn
    · exact hfresh n (by rw [List.flatMap_cons]; exact List.mem_append_right _ hn) hmem

section Intact
variable {cs : List Choice} {xs : List (String × Settled)} (h : List.Forall₂ Intact cs xs)
include h

theorem kept_of_intact : xs.flatMap (·.2.kept) = cs.flatMap (·.numbers) := by
  induction h with
  | nil => rfl
  | cons hx _ ih => rw [List.flatMap_cons, List.flatMap_cons, ih, hx.2.1]

theorem choices_of_intact (hne : ∀ c ∈ cs, c.numbers ≠ []) :
    (xs.filterMap fun (name, s) => if s.kept.isEmpty then none else some (Choice.mk name s.kept)) = cs := by
  induction h with
  | nil => rfl
  | @cons c x cs xs hx _ ih =>
    obtain ⟨name, s⟩ := x
    obtain ⟨rfl, hkept, -⟩ := hx
    dsimp only at hkept
    have hc : s.kept.isEmpty = false := by simpa [hkept] using hne c (by simp)
    rw [List.filterMap_cons, ih fun d hd => hne d (by simp [hd])]
    simp only [hc, Bool.false_eq_true, if_false]
    rw [hkept]

theorem anomalies_of_intact (hne : ∀ c ∈ cs, c.numbers ≠ []) :
    (xs.flatMap fun (name, s) => (choiceAnomalies s).map (name, ·)) = [] := by
  induction h with
  | nil => rfl
  | @cons c x cs xs hx _ ih =>
    obtain ⟨name, s⟩ := x
    obtain ⟨-, hkept, hdropped⟩ := hx
    dsimp only at hkept hdropped
    have hc : s.kept.isEmpty = false := by simpa [hkept] using hne c (by simp)
    rw [List.flatMap_cons, ih fun d hd => hne d (by simp [hd])]
    simp [choiceAnomalies, hdropped, hc]

end Intact

/-- What sorting out makes of a field, given the numbers that choices hold. -/
def settledField (claimed : List Int) (f : Field) : Field :=
  if claimed.contains f.number || f.type.isCollection then { f with isOptional := false } else f

theorem name_settledField (claimed : List Int) (f : Field) : (settledField claimed f).name = f.name := by
  unfold settledField
  split <;> rfl

theorem number_settledField (claimed : List Int) (f : Field) : (settledField claimed f).number = f.number := by
  unfold settledField
  split <;> rfl

theorem type_settledField (claimed : List Int) (f : Field) : (settledField claimed f).type = f.type := by
  unfold settledField
  split <;> rfl

/-- A message whose choices hold fields of their own stays as it is, apart from what is optional. -/
theorem settle_of_fresh {m : Message}
    (hthere : ∀ c ∈ m.choices, ∀ n ∈ c.numbers, n ∈ m.fields.map (·.number))
    (hnodup : (m.choices.flatMap (·.numbers)).Nodup) (hne : ∀ c ∈ m.choices, c.numbers ≠ []) :
    settle m = ({ m with fields := m.fields.map (settledField (m.choices.flatMap (·.numbers))) }, []) := by
  have hintact : List.Forall₂ Intact m.choices (settleChoices (fun n => (m.field? n).isSome) [] m.choices) :=
    settleChoices_of_fresh (fun c hc n hn => Schema.Message.field?_isSome.2 (hthere c hc n hn)) hnodup (by simp)
  unfold settle
  simp only [kept_of_intact hintact, choices_of_intact hintact hne, anomalies_of_intact hintact hne]
  rfl

end Recovery

end ProtoRecovery
