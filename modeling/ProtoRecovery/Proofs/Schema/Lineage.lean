import ProtoRecovery.Proofs.Schema.Scope
/-!
# Full names and relative names

A declaration has two names in writing: the full one, and the one that `qualify` gives it inside another declaration.
The two agree: the full name of what is around a declaration and the relative name from there make its full name, and
from anywhere else the relative name is all of it.
-/

namespace ProtoRecovery.Schema

/-- The declarations from a place outwards, innermost first. Only where the parents come to an end are there any. -/
inductive Lineage (s : Schema) : Option DeclId → List DeclId → Prop
  | outermost : Lineage s none []
  | inner {id : DeclId} {around : List DeclId} (hid : id < s.size) (haround : Lineage s (s.parentOf? id) around) :
      Lineage s (some id) (id :: around)

/-- A declaration is around another: it is the parent of that one, or around the parent. -/
def Around (s : Schema) (a d : DeclId) : Prop := Relation.TransGen (fun x p => s.parentOf? x = some p) d a

variable {s : Schema}

/-! ## What is around a declaration -/

namespace Lineage

variable {place : Option DeclId} {line : List DeclId}

theorem lt_size (h : s.Lineage place line) : ∀ x ∈ line, x < s.size := by
  induction h with
  | outermost => simp
  | inner hid _ ih =>
    intro x hx
    rcases List.mem_cons.1 hx with rfl | hx
    · exact hid
    · exact ih x hx

theorem unique {line' : List DeclId} (h : s.Lineage place line) (h' : s.Lineage place line') : line' = line := by
  induction h generalizing line' with
  | outermost =>
    cases h'
    rfl
  | inner _ _ ih =>
    cases h' with
    | inner _ haround' => rw [ih haround']

/-- Each declaration of a lineage starts the rest of it. -/
theorem exists_split (h : s.Lineage place line) {x : DeclId} (hx : x ∈ line) :
    ∃ before around, line = before ++ x :: around ∧ s.Lineage (some x) (x :: around) := by
  induction h with
  | outermost => simp at hx
  | @inner id around hid haround ih =>
    rcases List.mem_cons.1 hx with rfl | hx
    · exact ⟨[], around, rfl, .inner hid haround⟩
    · obtain ⟨before, rest, rfl, hrest⟩ := ih hx
      exact ⟨id :: before, rest, rfl, hrest⟩

theorem nodup (h : s.Lineage place line) : line.Nodup := by
  induction h with
  | outermost => exact List.nodup_nil
  | @inner id around hid haround ih =>
    refine List.nodup_cons.2 ⟨fun hmem => ?_, ih⟩
    -- Its lineage would be a proper part of itself.
    obtain ⟨before, rest, hsplit, hrest⟩ := haround.exists_split hmem
    have hsame : id :: rest = id :: around := (inner hid haround).unique hrest
    have hlength := congrArg List.length hsplit
    have hlength' := congrArg List.length hsame
    simp only [List.length_append, List.length_cons] at hlength hlength'
    omega

theorem length_le (h : s.Lineage place line) : line.length ≤ s.size := by
  have hmem : line ⊆ List.range s.size := fun x hx => List.mem_range.2 (h.lt_size x hx)
  have hle := (List.subperm_of_subset h.nodup hmem).length_le
  rwa [List.length_range] at hle

theorem mem_iff (h : s.Lineage place line) {x : DeclId} : x ∈ line ↔ ∃ d, place = some d ∧ s.Inside d x := by
  induction h with
  | outermost => simp
  | @inner id around _ _ ih =>
    rw [List.mem_cons, ih]
    constructor
    · rintro (rfl | ⟨p, hp, hin⟩)
      · exact ⟨x, rfl, .refl⟩
      · exact ⟨id, rfl, .head hp hin⟩
    · rintro ⟨d, hd, hin⟩
      obtain rfl : id = d := Option.some.inj hd
      rcases Relation.ReflTransGen.cases_head hin with rfl | ⟨p, hp, hin⟩
      · exact .inl rfl
      · exact .inr ⟨p, hp, hin⟩

theorem mem_iff_around {id : DeclId} (h : s.Lineage (s.parentOf? id) line) {x : DeclId} :
    x ∈ line ↔ s.Around x id := by
  rw [h.mem_iff, Around, Relation.TransGen.head'_iff]
  rfl

/-! ## Names along a lineage -/

theorem outward_eq (h : s.Lineage place line) (stop : DeclId → Bool) {depth : Nat} (hdepth : line.length ≤ depth) :
    s.outward stop depth place = (line.takeWhile fun x => !stop x).map s.nameOf := by
  induction h generalizing depth with
  | outermost => cases depth <;> rfl
  | @inner id around _ _ ih =>
    cases depth with
    | zero => simp at hdepth
    | succ depth =>
      rw [List.length_cons, Nat.add_le_add_iff_right] at hdepth
      rw [outward, ih hdepth]
      cases hstop : stop id <;> simp [hstop]

theorem fullName_eq {id : DeclId} (h : s.Lineage (some id) line) :
    s.fullName id = "." ++ dotted (line.map s.nameOf) := by
  have hall : (line.takeWhile fun _ => !false) = line := List.takeWhile_eq_self_iff.2 fun _ _ => rfl
  rw [fullName, h.outward_eq _ h.length_le, hall]

theorem qualify_eq {source target : DeclId} (h : s.Lineage (s.parentOf? target) line) :
    s.qualify source target = dotted ((target :: line.takeWhile fun x => !x == source).map s.nameOf) := by
  rw [qualify, h.outward_eq _ h.length_le, List.map_cons]

end Lineage

/-- Inside what is around it a declaration is called by the rest of its full name, and by all of it anywhere else. -/
theorem fullName_eq_qualify {source target : DeclId} {line : List DeclId} (h : s.Lineage (some target) line) :
    (s.Around source target → s.fullName target = s.fullName source ++ "." ++ s.qualify source target) ∧
      (¬ s.Around source target → s.fullName target = "." ++ s.qualify source target) := by
  have hfull := h.fullName_eq
  cases h with
  | @inner _ around _ haround =>
    rw [hfull, haround.qualify_eq, ← haround.mem_iff_around]
    constructor
    · intro hsource
      obtain ⟨before, rest, rfl, hrest⟩ := haround.exists_split hsource
      have hbefore : ((before ++ source :: rest).takeWhile fun x => !x == source) = before := by
        have hnot : ∀ x ∈ before, (!x == source) = true := by
          rintro x hx
          rw [Bool.not_eq_true', beq_eq_false_iff_ne]
          rintro rfl
          exact (List.nodup_append.1 haround.nodup).2.2 x hx x (by simp) rfl
        rw [List.takeWhile_append_of_pos hnot]
        simp
      rw [hbefore, hrest.fullName_eq, ← List.cons_append, List.map_append,
        dotted_append (by simp) (by simp)]
      simp only [String.append_assoc]
    · intro hsource
      have hall : (around.takeWhile fun x => !x == source) = around := by
        refine List.takeWhile_eq_self_iff.2 fun x hx => ?_
        rw [Bool.not_eq_true', beq_eq_false_iff_ne]
        rintro rfl
        exact hsource hx
      rw [hall]

/-- `D` inside `C` inside `A`: named from `A`, which is around it, and from `B`, which is not. -/
theorem fullName_eq_qualify_namesakes :
    namesakes.Lineage (some 4) [4, 3, 0] ∧ namesakes.Around 0 4 ∧ ¬ namesakes.Around 2 4 ∧
      namesakes.fullName 4 = ".A.C.D" ∧ namesakes.fullName 0 = ".A" ∧ namesakes.qualify 0 4 = "C.D" ∧
      namesakes.qualify 2 4 = "A.C.D" ∧
      namesakes.fullName 4 = namesakes.fullName 0 ++ "." ++ namesakes.qualify 0 4 ∧
      namesakes.fullName 4 = "." ++ namesakes.qualify 2 4 := by
  have hroot : namesakes.Lineage (some 0) [0] := .inner (by decide) .outermost
  have hline : namesakes.Lineage (namesakes.parentOf? 4) [3, 0] := .inner (by decide) hroot
  have hlineage : namesakes.Lineage (some 4) [4, 3, 0] := .inner (by decide) hline
  have haround : namesakes.Around 0 4 := hline.mem_iff_around.1 (by decide)
  have hapart : ¬ namesakes.Around 2 4 := fun h => absurd (hline.mem_iff_around.2 h) (by decide)
  exact ⟨hlineage, haround, hapart, by decide +kernel, by decide +kernel, by decide +kernel, by decide +kernel,
    (fullName_eq_qualify hlineage).1 haround, (fullName_eq_qualify hlineage).2 hapart⟩

end ProtoRecovery.Schema
