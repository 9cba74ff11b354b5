import ProtoRecovery.Proofs.Schema.Nesting
/-!
# Who waited for a place, and what was declared meanwhile

Positions tell the order of declarations. A declaration nested in a later one waited for its place until
that one was finished, and with it everything that can be reached from there through later positions. A
finished schema thus still tells what had no file while a declaration was built.
-/

namespace ProtoRecovery.Schema

open Relation (ReflTransGen)

/-- A declaration is nested in another, or mentions it. -/
def Leads (s : Schema) (x y : DeclId) : Prop := s.parentOf? x = some y ∨ .reference y ∈ s.leavesOf x

/-- `d` was declared while `a` waited for its place. -/
def Meanwhile (s : Schema) (a d : DeclId) : Prop :=
  ∃ p, s.parentOf? a = some p ∧ a < p ∧ ReflTransGen (fun x y => a < y ∧ s.Leads x y) p d

/-- Something around `t`, at a position from `lo` on, waited for its place while `d` was declared. -/
def WaitsFrom (s : Schema) (lo d t : DeclId) : Prop := ∃ a, lo ≤ a ∧ s.Inside t a ∧ s.Meanwhile a d

/-- What a file has to import for a type that one of its declarations mentions. -/
def leafImport (s : Schema) (file : FileId) : FieldType → Option Import
  | .wellKnown w => some (.wellKnown w.file)
  | .reference t =>
    match s.fileOf? t with
    | some other => if other = file then none else some (.file other)
    | none => none
  | _ => none

/-- A type that `d` mentions was met when all that matters had a file: `d` and what the type refers to. -/
def OnTimeFrom (s : Schema) (lo d : DeclId) (leaf : FieldType) : Prop :=
  ¬s.WaitsFrom lo d d ∧ ∀ t, leaf = .reference t → ¬s.WaitsFrom lo d t

/-- `d` is in a file and mentions, on time, a type for which the file needs an import. -/
def RecordedFrom (s : Schema) (lo d : DeclId) (file : FileId) (i : Import) : Prop :=
  s.fileOf? d = some file ∧
    ∃ leaf ∈ s.leavesOf d, s.leafImport file leaf = some i ∧ s.OnTimeFrom lo d leaf

/-! ## Paths -/

/-- A path does not leave a set that no step leaves. -/
theorem reflTransGen_stays {α : Type} {R : α → α → Prop} {P : α → Prop}
    (hP : ∀ x y, P x → R x y → P y) {x y : α} (hx : P x) (h : ReflTransGen R x y) : P y := by
  induction h with
  | refl => exact hx
  | tail _ hr ih => exact hP _ _ ih hr

/-- Two relations that agree on a set, which one of them does not leave, have the same paths from there. -/
theorem reflTransGen_congr_on {α : Type} {R R' : α → α → Prop} {P : α → Prop}
    (hR : ∀ x y, P x → (R x y ↔ R' x y)) (hP : ∀ x y, P x → R x y → P y) {x y : α} (hx : P x) :
    ReflTransGen R x y ↔ ReflTransGen R' x y := by
  constructor
  · intro h
    induction h with
    | refl => exact .refl
    | tail hxy hr ih => exact ih.tail ((hR _ _ (reflTransGen_stays hP hx hxy)).1 hr)
  · intro h
    induction h with
    | refl => exact .refl
    | tail _ hr ih => exact ih.tail ((hR _ _ (reflTransGen_stays hP hx ih)).2 hr)

theorem Meanwhile.lt {s : Schema} {a d : DeclId} (h : s.Meanwhile a d) : a < d := by
  obtain ⟨p, -, hap, hpath⟩ := h
  exact reflTransGen_stays (P := (a < ·)) (fun _ _ _ h => h.1) hap hpath

theorem not_waitsFrom_self {s : Schema} {d t : DeclId} : ¬s.WaitsFrom d d t := by
  rintro ⟨a, ha, -, h⟩
  exact absurd h.lt (not_lt.2 ha)

theorem leafImport_congr {s s' : Schema} {file : FileId} {leaf : FieldType}
    (h : ∀ t, leaf = .reference t → s'.fileOf? t = s.fileOf? t) :
    s'.leafImport file leaf = s.leafImport file leaf := by
  cases leaf with
  | reference t => simp only [leafImport, h t rfl]
  | _ => rfl

/-! ## Schemas that agree up to a position -/

/-- Up to a position nothing is different, and nothing there leads beyond it. -/
structure AgreeTo (n : Nat) (s s' : Schema) : Prop where
  same : ∀ x < n, s'.outlineOf? x = s.outlineOf? x
  closed : ∀ x y, x < n → s.Leads x y → y < n

namespace AgreeTo
variable {n : Nat} {s s' : Schema} (h : AgreeTo n s s') {lo a d t x y : Nat}
include h

theorem fileOf? (hx : x < n) : s'.fileOf? x = s.fileOf? x := fileOf?_congr (h.same x hx)

theorem parentOf? (hx : x < n) : s'.parentOf? x = s.parentOf? x := parentOf?_congr (h.same x hx)

theorem leavesOf (hx : x < n) : s'.leavesOf x = s.leavesOf x := leavesOf_congr (h.same x hx)

theorem leads (hx : x < n) : s.Leads x y ↔ s'.Leads x y := by
  unfold Leads
  rw [h.parentOf? hx, h.leavesOf hx]

theorem inside (hx : x < n) : s.Inside x y ↔ s'.Inside x y :=
  reflTransGen_congr_on (P := (· < n)) (fun u w hu => by rw [h.parentOf? hu])
    (fun u w hu huw => h.closed u w hu (.inl huw)) hx

theorem meanwhile (ha : a < n) : s.Meanwhile a d ↔ s'.Meanwhile a d := by
  unfold Meanwhile
  rw [h.parentOf? ha]
  refine exists_congr fun p => and_congr_right fun hp => and_congr_right fun _ => ?_
  exact reflTransGen_congr_on (P := (· < n)) (fun u w hu => and_congr_right fun _ => h.leads hu)
    (fun u w hu huw => h.closed u w hu huw.2) (h.closed a p ha (.inl hp))

theorem meanwhile_lt (ha : a < n) (hm : s'.Meanwhile a d) : d < n := by
  obtain ⟨p, hp, -, hpath⟩ := (h.meanwhile ha).2 hm
  exact reflTransGen_stays (P := (· < n)) (fun u w hu huw => h.closed u w hu huw.2)
    (h.closed a p ha (.inl hp)) hpath

theorem waitsFrom (hd : d < n) (ht : t < n) : s.WaitsFrom lo d t ↔ s'.WaitsFrom lo d t := by
  constructor
  · rintro ⟨a, hlo, hin, hm⟩
    exact ⟨a, hlo, (h.inside ht).1 hin, (h.meanwhile (hm.lt.trans hd)).1 hm⟩
  · rintro ⟨a, hlo, hin, hm⟩
    exact ⟨a, hlo, (h.inside ht).2 hin, (h.meanwhile (hm.lt.trans hd)).2 hm⟩

/-- What was declared up to the position was recorded then, or never. -/
theorem recordedFrom {file : FileId} {i : Import} (hd : d < n) :
    s.RecordedFrom lo d file i ↔ s'.RecordedFrom lo d file i := by
  unfold RecordedFrom
  rw [h.fileOf? hd, h.leavesOf hd]
  refine and_congr_right fun _ => exists_congr fun leaf => and_congr_right fun hl => ?_
  have ht : ∀ t, leaf = .reference t → t < n := fun t ht => h.closed d t hd (.inr (ht ▸ hl))
  rw [leafImport_congr fun t e => h.fileOf? (ht t e)]
  refine and_congr_right fun _ => and_congr (not_congr (h.waitsFrom hd hd)) ?_
  exact forall_congr' fun t => forall_congr' fun e => not_congr (h.waitsFrom hd (ht t e))

/-- Nothing from before the position waits while something later is declared. -/
theorem waitsFrom_raise (hlo : lo ≤ n) (hd : n ≤ d) : s'.WaitsFrom lo d t ↔ s'.WaitsFrom n d t := by
  constructor
  · rintro ⟨a, -, hin, hm⟩
    refine ⟨a, not_lt.1 fun ha => ?_, hin, hm⟩
    exact absurd (h.meanwhile_lt ha hm) (not_lt.2 hd)
  · rintro ⟨a, ha, hin, hm⟩
    exact ⟨a, hlo.trans ha, hin, hm⟩

theorem recordedFrom_raise {file : FileId} {i : Import} (hlo : lo ≤ n) (hd : n ≤ d) :
    s'.RecordedFrom lo d file i ↔ s'.RecordedFrom n d file i := by
  simp only [RecordedFrom, OnTimeFrom, h.waitsFrom_raise hlo hd]

end AgreeTo

/-! ## Nesting -/

section Nest
variable {s : Schema} {p c : DeclId} {lo a d t x y : Nat}

theorem leavesOf_nest : (s.nest p c).leavesOf x = s.leavesOf x := leavesOf_content content_nest

theorem leads_nest (hc : c < s.size) (hx : x ≠ c) : s.Leads x y ↔ (s.nest p c).Leads x y := by
  unfold Leads
  rw [leavesOf_nest, parentOf?_nest hc, if_neg hx]

theorem inside_of_inside_nest (hc : c < s.size) (h : (s.nest p c).Inside x c) : s.Inside x c := by
  induction h using ReflTransGen.head_induction_on with
  | refl => exact .refl
  | @head u w hp _ ih =>
    by_cases hu : u = c
    · exact hu ▸ .refl
    · rw [parentOf?_nest hc, if_neg hu] at hp
      exact .head hp ih

theorem inside_nest (hc : c < s.size) (hx : ¬(s.nest p c).Inside x c) :
    s.Inside x a ↔ (s.nest p c).Inside x a := by
  refine (reflTransGen_congr_on (P := fun u => ¬(s.nest p c).Inside u c) ?_ ?_ hx).symm
  · intro u w hu
    have huc : u ≠ c := fun h => hu (h ▸ .refl)
    rw [parentOf?_nest hc, if_neg huc]
  · exact fun u w hu hp hw => hu (.head hp hw)

/-- Later declarations that waited are not affected. -/
theorem meanwhile_nest (hc : c < s.size) (ha : c < a) : s.Meanwhile a d ↔ (s.nest p c).Meanwhile a d := by
  unfold Meanwhile
  rw [parentOf?_nest hc, if_neg ha.ne']
  refine exists_congr fun q => and_congr_right fun _ => and_congr_right fun hq => ?_
  refine reflTransGen_congr_on (P := (a < ·)) (fun u w hu => and_congr_right fun _ => ?_)
    (fun _ _ _ h => h.1) hq
  exact leads_nest hc (ha.trans hu).ne'

section Linked
variable (hs : s.Linked) (hc : s.Loose c)
include hs hc

theorem fileOf?_of_inside_nest (h : (s.nest p c).Inside x c) : s.fileOf? x = none := by
  cases hf : s.fileOf? x with
  | none => rfl
  | some f =>
    have := (inside_of_inside_nest hc.lt h).file hs hf
    rw [hc.file] at this
    cases this

variable (hp : p < s.size)
include hp

theorem fileOf?_nest_of_not_inside (h : ¬(s.nest p c).Inside x c) :
    (s.nest p c).fileOf? x = s.fileOf? x := by
  cases hf : (s.nest p c).fileOf? x with
  | some f =>
    rcases fileOf?_nest_cases hs hc hp hf with hf | ⟨-, hin⟩
    · exact hf.symm
    · exact absurd hin h
  | none =>
    cases hg : s.fileOf? x with
    | none => rfl
    | some g => rw [fileOf?_nest_of_some hs hc hp hg] at hf; cases hf

theorem outlineOf?_nest_of_not_inside (h : ¬(s.nest p c).Inside x c) :
    (s.nest p c).outlineOf? x = s.outlineOf? x := by
  have hx : x ≠ c := fun e => h (e ▸ .refl)
  have hfile := fileOf?_nest_of_not_inside hs hc hp h
  have hparent : (s.nest p c).parentOf? x = s.parentOf? x := (parentOf?_nest hc.lt).trans (if_neg hx)
  have hcontent := content_nest (s := s) (p := p) (c := c) (x := x)
  rw [fileOf?_eq, fileOf?_eq] at hfile
  rw [parentOf?_eq, parentOf?_eq] at hparent
  cases h₁ : (s.nest p c).outlineOf? x with
  | none => cases h₂ : s.outlineOf? x <;> simp_all
  | some o =>
    cases h₂ : s.outlineOf? x with
    | none => simp_all
    | some o' =>
      obtain ⟨file, parent, types, kind⟩ := o
      obtain ⟨file', parent', types', kind'⟩ := o'
      simp_all [Outline.content]

/-- While everything after `c` was declared, `c` and all inside it had no file, and all else is as before. -/
theorem recordedFrom_nest {file : FileId} {i : Import} (hw : (s.nest p c).Meanwhile c d) :
    s.RecordedFrom (c + 1) d file i ↔ (s.nest p c).RecordedFrom c d file i := by
  have waits_inside : ∀ t, (s.nest p c).Inside t c → (s.nest p c).WaitsFrom c d t :=
    fun t ht => ⟨c, le_refl c, ht, hw⟩
  have waits_iff : ∀ t, ¬(s.nest p c).Inside t c →
      (s.WaitsFrom (c + 1) d t ↔ (s.nest p c).WaitsFrom c d t) := by
    intro t ht
    constructor
    · rintro ⟨a, ha, hin, hm⟩
      exact ⟨a, Nat.le_of_succ_le ha, (inside_nest hc.lt ht).1 hin, (meanwhile_nest hc.lt ha).1 hm⟩
    · rintro ⟨a, ha, hin, hm⟩
      have hac : a ≠ c := fun e => ht (e ▸ hin)
      have ha : c < a := lt_of_le_of_ne ha hac.symm
      exact ⟨a, ha, (inside_nest hc.lt ht).2 hin, (meanwhile_nest hc.lt ha).2 hm⟩
  unfold RecordedFrom
  rw [leavesOf_nest]
  -- What is inside `c` had no file then, and it waits now.
  by_cases hin : (s.nest p c).Inside d c
  · rw [fileOf?_of_inside_nest hs hc hin]
    constructor
    · rintro ⟨h, -⟩
      cases h
    · rintro ⟨-, leaf, -, -, hself, -⟩
      exact absurd (waits_inside d hin) hself
  rw [fileOf?_nest_of_not_inside hs hc hp hin]
  refine and_congr_right fun _ => exists_congr fun leaf => and_congr_right fun _ => ?_
  have hself : ¬s.WaitsFrom (c + 1) d d ↔ ¬(s.nest p c).WaitsFrom c d d := not_congr (waits_iff d hin)
  -- The same goes for a type that refers inside `c`; for all others nothing is different.
  by_cases href : ∃ t, leaf = .reference t ∧ (s.nest p c).Inside t c
  · obtain ⟨t, rfl, ht⟩ := href
    constructor
    · rintro ⟨h, -⟩
      simp [leafImport, fileOf?_of_inside_nest hs hc ht] at h
    · rintro ⟨-, -, h⟩
      exact absurd (waits_inside t ht) (h t rfl)
  · have hout : ∀ t, leaf = .reference t → ¬(s.nest p c).Inside t c := fun t e ht => href ⟨t, e, ht⟩
    rw [leafImport_congr fun t e => fileOf?_nest_of_not_inside hs hc hp (hout t e)]
    refine and_congr_right fun _ => and_congr hself ?_
    exact forall_congr' fun t => forall_congr' fun e => not_congr (waits_iff t (hout t e))

end Linked

end Nest

/-! ## Filling a body in -/

/-- One declaration gets the types it mentions; all else that matters for placing stays. -/
structure Filled (id : DeclId) (leaves : List FieldType) (s s' : Schema) : Prop where
  size : s'.size = s.size
  others : ∀ x, x ≠ id → s'.outlineOf? x = s.outlineOf? x
  file : ∀ x, s'.fileOf? x = s.fileOf? x
  parent : ∀ x, s'.parentOf? x = s.parentOf? x
  kind : (s'.outlineOf? id).map (·.kind) = (s.outlineOf? id).map (·.kind)
  leaves : ∀ leaf, leaf ∈ s'.leavesOf id ↔ leaf ∈ leaves
  nested : ∀ x, s'.nestedIn x = s.nestedIn x
  imports : ∀ f, s'.importsOf f = s.importsOf f
  tops : ∀ f, s'.topsOf f = s.topsOf f
  files : s'.files.length = s.files.length

namespace Filled
variable {id : Nat} {leaves : List FieldType} {s s' : Schema} (h : Filled id leaves s s') {a d t x y : Nat}
include h

theorem linked (hs : s.Linked) : s'.Linked := hs.transfer h.size.ge h.files.ge h.parent h.file h.nested

theorem mem_leavesOf {leaf : FieldType} (hx : leaf ∈ s'.leavesOf x) : leaf ∈ s.leavesOf x ∨ leaf ∈ leaves := by
  by_cases hxid : x = id
  · exact .inr ((h.leaves leaf).1 (hxid ▸ hx))
  · exact .inl (leavesOf_congr (h.others x hxid) ▸ hx)

theorem inside : s.Inside x y ↔ s'.Inside x y := by
  unfold Inside
  simp only [h.parent]

theorem leads (hx : x ≠ id) : s.Leads x y ↔ s'.Leads x y := by
  unfold Leads
  rw [h.parent, leavesOf_congr (h.others x hx)]

theorem meanwhile (ha : id ≤ a) : s.Meanwhile a d ↔ s'.Meanwhile a d := by
  unfold Meanwhile
  rw [h.parent]
  refine exists_congr fun q => and_congr_right fun _ => and_congr_right fun hq => ?_
  refine reflTransGen_congr_on (P := (a < ·)) (fun u w hu => and_congr_right fun _ => ?_)
    (fun _ _ _ h => h.1) hq
  exact h.leads (lt_of_le_of_lt ha hu).ne'

theorem waitsFrom : s.WaitsFrom id d t ↔ s'.WaitsFrom id d t := by
  unfold WaitsFrom
  refine exists_congr fun a => and_congr_right fun ha => ?_
  rw [h.inside, h.meanwhile ha]

theorem recordedFrom {file : FileId} {i : Import} (hd : d ≠ id) :
    s.RecordedFrom id d file i ↔ s'.RecordedFrom id d file i := by
  unfold RecordedFrom OnTimeFrom
  rw [h.file, leavesOf_congr (h.others d hd), h.waitsFrom]
  simp only [h.waitsFrom, leafImport_congr fun t _ => h.file t]

/-- What the filled declaration itself mentions is always on time, as far as later positions go. -/
theorem recordedFrom_self {file : FileId} {i : Import} :
    s'.RecordedFrom id id file i ↔
      s.fileOf? id = some file ∧ ∃ leaf ∈ leaves, s.leafImport file leaf = some i := by
  unfold RecordedFrom OnTimeFrom
  simp only [h.file, h.leaves, not_waitsFrom_self, leafImport_congr fun t _ => h.file t]
  simp

end Filled

end ProtoRecovery.Schema
