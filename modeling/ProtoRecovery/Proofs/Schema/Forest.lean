import ProtoRecovery.Proofs.Schema.Nesting
/-!
# Forests

A schema is a forest if everything in it has one place: at the top of one file, or in one message. What is
inside a declaration is then all found by descending from it.
-/

namespace ProtoRecovery.Schema

open Relation (ReflTransGen)

/-- Every place that a schema has, by the declaration in it. -/
def listed (s : Schema) : List DeclId :=
  (List.range s.files.length).flatMap s.topsOf ++ (List.range s.size).flatMap s.nestedIn

/-- Every declaration has a file and one place, and places agree with parents and files. -/
structure Forest (s : Schema) : Prop where
  filed : ∀ d < s.size, ∃ f, s.fileOf? d = some f
  once : ∀ d < s.size, s.listed.count d = 1
  listed_lt : ∀ d ∈ s.listed, d < s.size
  mem_nestedIn : ∀ d m, d ∈ s.nestedIn m ↔ s.parentOf? d = some m
  mem_topsOf : ∀ d < s.size, (∃ f, d ∈ s.topsOf f) ↔ s.parentOf? d = none
  top_file : ∀ d f, d ∈ s.topsOf f → s.fileOf? d = some f
  nested_file : ∀ d p, s.parentOf? d = some p → s.fileOf? d = s.fileOf? p
  parents_end : WellFounded fun p d => s.parentOf? d = some p

/-! ## Places -/

theorem listed_congr {s s' : Schema} (hsize : s'.size = s.size) (hfiles : s'.files.length = s.files.length)
    (htops : ∀ f, s'.topsOf f = s.topsOf f) (hnested : ∀ x, s'.nestedIn x = s.nestedIn x) :
    s'.listed = s.listed := by
  unfold listed
  rw [hsize, hfiles, funext htops, funext hnested]

/-- One list that gets longer by an element makes all of them together longer by it. -/
theorem perm_flatMap_of_append {α β : Type} [DecidableEq α] {l : List α} {f g : α → List β} {a : α} {b : β}
    (hl : l.Nodup) (ha : a ∈ l) (hg : ∀ x, g x = if x = a then f x ++ [b] else f x) :
    (l.flatMap g).Perm (b :: l.flatMap f) := by
  induction l with
  | nil => simp at ha
  | cons x rest ih =>
    obtain ⟨hx, hrest⟩ := List.nodup_cons.1 hl
    by_cases hxa : x = a
    · have hsame : rest.flatMap g = rest.flatMap f := by
        refine List.flatMap_congr fun y hy => ?_
        rw [hg, if_neg]
        rintro rfl
        exact hx (hxa ▸ hy)
      rw [List.flatMap_cons, List.flatMap_cons, hsame, hg, if_pos hxa, List.append_assoc]
      exact List.perm_middle
    · have ha' : a ∈ rest := (List.mem_cons.1 ha).resolve_left (Ne.symm hxa)
      rw [List.flatMap_cons, List.flatMap_cons, hg, if_neg hxa]
      exact ((ih hrest ha').append_left _).trans List.perm_middle

theorem listed_nest {s : Schema} {p c : DeclId} (hp : (s.outlineOf? p).map (·.kind) = some .message)
    (hlt : p < s.size) : (s.nest p c).listed.Perm (c :: s.listed) := by
  unfold listed
  rw [length_files_nest, size_nest, funext (topsOf_nest (s := s) (p := p) (c := c))]
  have h := perm_flatMap_of_append (f := s.nestedIn) (b := c) List.nodup_range (List.mem_range.2 hlt)
    fun x => nestedIn_nest (c := c) (x := x) hp
  exact (h.append_left _).trans List.perm_middle

theorem listed_nest_of_ne {s : Schema} {p c : DeclId} (hp : (s.outlineOf? p).map (·.kind) ≠ some .message) :
    (s.nest p c).listed = s.listed :=
  listed_congr size_nest length_files_nest topsOf_nest fun _ => nestedIn_nest_of_ne hp

/-! ## Inside -/

section Inside
variable {s : Schema}

/-- Whatever is inside two declarations has one of them inside the other. -/
theorem inside_total {x a b : DeclId} (ha : s.Inside x a) (hb : s.Inside x b) : s.Inside a b ∨ s.Inside b a := by
  refine Relation.ReflTransGen.total_of_right_unique ?_ ha hb
  intro y p q hp hq
  exact Option.some.inj (hp.symm.trans hq)

theorem Inside.eq_of_root {x r : DeclId} (h : s.Inside x r) (hx : s.parentOf? x = none) : x = r := by
  rcases Relation.ReflTransGen.cases_head h with rfl | ⟨p, hp, -⟩
  · rfl
  · rw [hx] at hp
    cases hp

theorem eq_of_roots {x a b : DeclId} (ha : s.Inside x a) (hb : s.Inside x b) (hroot : s.parentOf? a = none)
    (hroot' : s.parentOf? b = none) : a = b := by
  rcases inside_total ha hb with hab | hba
  · exact hab.eq_of_root hroot
  · exact (hba.eq_of_root hroot').symm

end Inside

/-! ## Descending reaches everything inside -/

theorem mem_descend_mono {s : Schema} {depth depth' : Nat} {x id : DeclId} (h : x ∈ s.descend depth id)
    (hle : depth ≤ depth') : x ∈ s.descend depth' id := by
  induction depth generalizing id depth' with
  | zero => simp [descend] at h
  | succ depth ih =>
    obtain ⟨n, rfl⟩ : ∃ n, depth' = n + 1 := ⟨depth' - 1, by omega⟩
    simp only [descend, List.mem_cons, List.mem_flatMap] at h ⊢
    rcases h with rfl | ⟨c, hc, hx⟩
    · exact .inl rfl
    · exact .inr ⟨c, hc, ih hx (Nat.le_of_succ_le_succ hle)⟩

theorem mem_descend_of_isChain {s : Schema} (l : List DeclId) (id : DeclId)
    (hn : ∀ x p, s.Inside p id → s.parentOf? x = some p → x ∈ s.nestedIn p)
    (hl : List.IsChain (fun p x => s.parentOf? x = some p) (id :: l)) :
    (id :: l).getLast (List.cons_ne_nil _ _) ∈ s.descend (l.length + 1) id := by
  induction l generalizing id with
  | nil => simp [descend]
  | cons x rest ih =>
    obtain ⟨hx, hrest⟩ := List.isChain_cons_cons.1 hl
    rw [List.getLast_cons (List.cons_ne_nil _ _), List.length_cons, descend, List.mem_cons, List.mem_flatMap]
    exact .inr ⟨x, hn x id .refl hx, ih x (fun y p hp => hn y p (hp.tail hx)) hrest⟩

theorem lt_size_of_isChain {s : Schema} {l : List DeclId} {id x : DeclId}
    (hl : List.IsChain (fun p x => s.parentOf? x = some p) (id :: l)) (hx : x ∈ l) : x < s.size := by
  induction l generalizing id with
  | nil => simp at hx
  | cons y rest ih =>
    obtain ⟨hy, hrest⟩ := List.isChain_cons_cons.1 hl
    rcases List.mem_cons.1 hx with rfl | hx
    · exact lt_size_of_parentOf? hy
    · exact ih hrest hx

/-- Declarations have a level: how deep they are nested. -/
theorem exists_level {s : Schema} (h : WellFounded fun p d => s.parentOf? d = some p) :
    ∃ level : DeclId → Nat, (∀ x, s.parentOf? x = none → level x = 0) ∧
      ∀ x p, s.parentOf? x = some p → level x = level p + 1 := by
  let above : (d : DeclId) → (∀ p, s.parentOf? d = some p → Nat) → Nat :=
    fun d level => match hp : s.parentOf? d with
      | none => 0
      | some p => level p hp + 1
  refine ⟨h.fix above, fun x hx => ?_, fun x p hp => ?_⟩
  · rw [h.fix_eq]
    simp only [above]
    split
    · rfl
    · rename_i q hq
      rw [hx] at hq
      cases hq
  · rw [h.fix_eq]
    simp only [above]
    split
    · rename_i hnone
      rw [hnone] at hp
      cases hp
    · rename_i q hq
      obtain rfl : q = p := Option.some.inj (hq.symm.trans hp)
      rfl

/-- If every step up leads to a lower rank, no chain of parents is longer than there are declarations. -/
theorem length_le_of_isChain {s : Schema} {rank : DeclId → Nat}
    (hrank : ∀ x p, s.parentOf? x = some p → rank p < rank x) {l : List DeclId} {id : DeclId} (hid : id < s.size)
    (hl : List.IsChain (fun p x => s.parentOf? x = some p) (id :: l)) : (id :: l).length ≤ s.size := by
  have hpairs : List.Pairwise (fun a b => rank a < rank b) (id :: l) :=
    List.isChain_iff_pairwise.1 (hl.imp fun p x hp => hrank x p hp)
  -- Ranks rise along the chain, so no declaration is on it twice.
  have hnodup : (id :: l).Nodup := hpairs.imp fun hab hne => absurd (hne ▸ hab) (lt_irrefl _)
  have hmem : id :: l ⊆ List.range s.size := by
    intro y hy
    rcases List.mem_cons.1 hy with rfl | hy
    · exact List.mem_range.2 hid
    · exact List.mem_range.2 (lt_size_of_isChain hl hy)
  have := (List.subperm_of_subset hnodup hmem).length_le
  rwa [List.length_range] at this

theorem mem_descendants_of_inside {s : Schema} (rank : DeclId → Nat)
    (hrank : ∀ x p, s.parentOf? x = some p → rank p < rank x)
    {x id : DeclId} (hn : ∀ x p, s.Inside p id → s.parentOf? x = some p → x ∈ s.nestedIn p) (hid : id < s.size)
    (h : s.Inside x id) : x ∈ s.descendants id := by
  obtain ⟨l, hl, rfl⟩ := List.exists_isChain_cons_of_relationReflTransGen (Relation.reflTransGen_swap.2 h)
  exact mem_descend_mono (mem_descend_of_isChain l id hn hl) (length_le_of_isChain hrank hid hl)

/-! ## Trees of a forest -/

section Forest
variable {s : Schema}

theorem Forest.nodup_listed (h : s.Forest) : s.listed.Nodup := by
  apply List.nodup_iff_count_le_one.2
  intro d
  by_cases hd : d ∈ s.listed
  · exact (h.once d (h.listed_lt d hd)).le
  · rw [List.count_eq_zero_of_not_mem hd]
    exact Nat.zero_le _

theorem Forest.nodup_nestedIn (h : s.Forest) (p : DeclId) : (s.nestedIn p).Nodup := by
  by_cases hp : p < s.size
  · refine h.nodup_listed.sublist (List.Sublist.trans ?_ (List.sublist_append_right _ _))
    exact List.sublist_flatten_of_mem (List.mem_map_of_mem (List.mem_range.2 hp))
  · have hnone : s.decls[p]? = none := List.getElem?_eq_none (not_lt.1 hp)
    simp [nestedIn, hnone]

theorem Forest.file_of_inside (h : s.Forest) {d r : DeclId} (hd : s.Inside d r) : s.fileOf? d = s.fileOf? r := by
  induction hd with
  | refl => rfl
  | tail _ hp ih => exact ih.trans (h.nested_file _ _ hp)

theorem Forest.parent_lt (h : s.Forest) {d p : DeclId} (hp : s.parentOf? d = some p) : p < s.size := by
  by_contra hlt
  have hnone : s.decls[p]? = none := List.getElem?_eq_none (not_lt.1 hlt)
  have hmem := (h.mem_nestedIn d p).2 hp
  simp [nestedIn, hnone] at hmem

/-- Every declaration is inside one at the top of its file. -/
theorem Forest.exists_top (h : s.Forest) (d : DeclId) (hd : d < s.size) :
    ∃ r f, r < s.size ∧ s.Inside d r ∧ s.parentOf? r = none ∧ r ∈ s.topsOf f ∧ s.fileOf? d = some f := by
  induction d using h.parents_end.induction with
  | _ d ih =>
    cases hp : s.parentOf? d with
    | none =>
      obtain ⟨f, hf⟩ := (h.mem_topsOf d hd).2 hp
      exact ⟨d, f, hd, .refl, hp, hf, h.top_file d f hf⟩
    | some p =>
      obtain ⟨r, f, hr, hin, hroot, hf, hfile⟩ := ih p hp (h.parent_lt hp)
      exact ⟨r, f, hr, .head hp hin, hroot, hf, (h.nested_file d p hp).trans hfile⟩

end Forest

end ProtoRecovery.Schema
