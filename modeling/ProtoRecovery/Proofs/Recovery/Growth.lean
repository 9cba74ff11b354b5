import ProtoRecovery.Proofs.Recovery.Effects
import ProtoRecovery.Proofs.Recovery.Session
/-!
# How a schema grows

A derivation leaves alone what was there before it and adds declarations at the end. `Grown` tells which
imports come with them; it is kept by putting derivations one after the other and by each rule.
-/

namespace ProtoRecovery.Recovery

open Relation (ReflTransGen)
open Schema (DeclId FileId FieldType Kind Import AgreeTo Filled)

variable {ρ : Type} {c : Catalog ρ}

/-- What holds of a ledger at every moment. -/
structure Sound (L : Ledger) : Prop where
  linked : L.schema.Linked
  closed : ∀ x y, L.schema.Leads x y → y < L.schema.size
  memo : ∀ e ∈ L.memo, e.2 < L.schema.size

/-- Declarations from `lo` on are new, and imports are as they call for, but for some of another origin. -/
structure Grown (lo : Nat) (own : FileId → Import → Prop) (L L' : Ledger) : Prop where
  sound : Sound L'
  size_le : L.schema.size ≤ L'.schema.size
  old : ∀ x < lo, L'.schema.outlineOf? x = L.schema.outlineOf? x
  imports : ∀ f i, i ∈ L'.schema.importsOf f ↔
    i ∈ L.schema.importsOf f ∨ (∃ d, lo ≤ d ∧ L'.schema.RecordedFrom lo d f i) ∨ own f i

/-- A path through positions from `lo` on. -/
def Reaches (S : Schema) (lo : Nat) : DeclId → DeclId → Prop :=
  ReflTransGen fun x y => lo ≤ y ∧ S.Leads x y

/-- A declaration that was added last and has nothing but its kind. -/
structure Fresh (S : Schema) (k : Kind) (id : Nat) : Prop where
  last : S.size = id + 1
  loose : S.Loose id
  nested : S.nestedIn id = []
  leaves : S.leavesOf id = []
  kind : kindOf? S id = some k
  apart : ∀ x y, S.Leads x y → y < id

/-- What recovering a class does. -/
structure Recovered (id : DeclId) (L L' : Ledger) : Prop where
  grown : Grown L.schema.size (fun _ _ => False) L L'
  lt : id < L'.schema.size
  reached : ∀ x, L.schema.size ≤ x → x < L'.schema.size →
    id = L.schema.size ∧ Reaches L'.schema L.schema.size id x

/-- What placing a fresh declaration does. -/
structure Placed (k : Kind) (id : DeclId) (L L' : Ledger) : Prop where
  grown : Grown id (fun _ _ => False) L L'
  leaves : L'.schema.leavesOf id = []
  kind : kindOf? L'.schema id = some k
  reached : ∀ x, id < x → x < L'.schema.size → Reaches L'.schema id id x

/-- What mentioning types does: the file of the declaration imports them. -/
structure Mentioned (source : DeclId) (leaves : List FieldType) (L L' : Ledger) : Prop where
  grown : Grown L.schema.size
    (fun f i => L'.schema.fileOf? source = some f ∧ ∃ leaf ∈ leaves, L'.schema.leafImport f leaf = some i) L L'
  lt : ∀ t, .reference t ∈ leaves → t < L'.schema.size
  reached : ∀ x, L.schema.size ≤ x → x < L'.schema.size →
    ∃ t, .reference t ∈ leaves ∧ L.schema.size ≤ t ∧ Reaches L'.schema L.schema.size t x

section Grown
variable {lo : Nat} {own own' : FileId → Import → Prop} {L L₁ L₂ : Ledger}

theorem not_recordedFrom_of_size_le {S : Schema} {d : Nat} {f : FileId} {i : Import} (h : S.size ≤ d) :
    ¬S.RecordedFrom lo d f i :=
  fun hr => absurd (Schema.lt_size_of_fileOf? hr.1) (not_lt.2 h)

theorem not_recordedFrom_of_leavesOf {S : Schema} {d : Nat} {f : FileId} {i : Import} (h : S.leavesOf d = []) :
    ¬S.RecordedFrom lo d f i := by
  rintro ⟨-, leaf, hl, -⟩
  simp [h] at hl

theorem Grown.refl (hL : Sound L) : Grown L.schema.size (fun _ _ => False) L L where
  sound := hL
  size_le := le_refl _
  old _ _ := rfl
  imports f i := by
    constructor
    · exact .inl
    · rintro (h | ⟨d, hd, hr⟩ | h)
      · exact h
      · exact absurd hr (not_recordedFrom_of_size_le hd)
      · exact h.elim

theorem Grown.agree (h₁ : Sound L₁) (h₂ : Grown L₁.schema.size own L₁ L₂) :
    AgreeTo L₁.schema.size L₁.schema L₂.schema :=
  ⟨h₂.old, fun x y _ h => h₁.closed x y h⟩

theorem Grown.trans (h₁ : Grown lo own L L₁) (h₂ : Grown L₁.schema.size own' L₁ L₂)
    (hlo : lo ≤ L₁.schema.size) : Grown lo (fun f i => own f i ∨ own' f i) L L₂ where
  sound := h₂.sound
  size_le := h₁.size_le.trans h₂.size_le
  old x hx := (h₂.old x (lt_of_lt_of_le hx hlo)).trans (h₁.old x hx)
  imports f i := by
    have hagree := h₂.agree h₁.sound
    -- What was there after the first part is recorded as it was, and what came later waited for nothing before it.
    have hsplit : (∃ d, lo ≤ d ∧ L₂.schema.RecordedFrom lo d f i) ↔
        (∃ d, lo ≤ d ∧ L₁.schema.RecordedFrom lo d f i) ∨
          ∃ d, L₁.schema.size ≤ d ∧ L₂.schema.RecordedFrom L₁.schema.size d f i := by
      constructor
      · rintro ⟨d, hd, hr⟩
        rcases lt_or_ge d L₁.schema.size with hlt | hge
        · exact .inl ⟨d, hd, (hagree.recordedFrom hlt).2 hr⟩
        · exact .inr ⟨d, hge, (hagree.recordedFrom_raise hlo hge).1 hr⟩
      · rintro (⟨d, hd, hr⟩ | ⟨d, hd, hr⟩)
        · exact ⟨d, hd, (hagree.recordedFrom (Schema.lt_size_of_fileOf? hr.1)).1 hr⟩
        · exact ⟨d, hlo.trans hd, (hagree.recordedFrom_raise hlo hd).2 hr⟩
    rw [h₂.imports, h₁.imports, hsplit]
    simp only [or_assoc]
    exact or_congr_right (or_congr_right or_left_comm)

theorem Grown.congr_own (h : Grown lo own L L₁) (ho : ∀ f i, own f i ↔ own' f i) : Grown lo own' L L₁ :=
  ⟨h.sound, h.size_le, h.old, fun f i => by rw [h.imports, ho]⟩

end Grown

section Reaches
variable {S S' : Schema} {lo n x y : Nat}

theorem Reaches.mono_lo {lo' : Nat} (hlo : lo' ≤ lo) (h : Reaches S lo x y) : Reaches S lo' x y :=
  ReflTransGen.mono (fun _ _ h => ⟨hlo.trans h.1, h.2⟩) _ _ h

theorem Reaches.agree (ha : AgreeTo n S S') (hx : x < n) (h : Reaches S lo x y) : Reaches S' lo x y :=
  (Schema.reflTransGen_congr_on (P := (· < n)) (fun _ _ hu => and_congr_right fun _ => ha.leads hu)
    (fun _ _ hu huw => ha.closed _ _ hu huw.2) hx).1 h

end Reaches

/-! ## Placing -/

section Place
variable {k : Kind} {id p : Nat} {L L₁ : Ledger}

theorem kindOf?_congr {S S' : Schema} {x : DeclId}
    (h : (S'.outlineOf? x).map Schema.Outline.content = (S.outlineOf? x).map Schema.Outline.content) :
    kindOf? S' x = kindOf? S x := by
  unfold kindOf?
  cases h₁ : S'.outlineOf? x <;> cases h₂ : S.outlineOf? x <;> simp_all [Schema.Outline.content]

theorem sound_nest (h : Sound L₁) (hl : L₁.schema.Loose id) (hp : p < L₁.schema.size) :
    Sound (L₁.changed (·.nest p id)) where
  linked := Schema.linked_nest h.linked hl hp
  closed x y hxy := by
    show y < (L₁.schema.nest p id).size
    rw [Schema.size_nest]
    by_cases hx : x = id
    · rcases hxy with hy | hy
      · rw [show (L₁.changed (·.nest p id)).schema.parentOf? x = some p by
          rw [hx]; exact (Schema.parentOf?_nest hl.lt).trans (if_pos rfl)] at hy
        cases hy
        exact hp
      · exact h.closed x y (.inr (Schema.leavesOf_nest ▸ hy))
    · exact h.closed x y ((Schema.leads_nest hl.lt hx).2 hxy)
  memo e he := by
    show e.2 < (L₁.schema.nest p id).size
    rw [Schema.size_nest]
    exact h.memo e he

section Nest
variable (hf : Fresh L.schema k id) (hr : Recovered p L L₁)
include hf hr

theorem loose_of_recovered : L₁.schema.Loose id := by
  have hself := hr.grown.old id hf.loose.lt
  exact ⟨lt_of_lt_of_le hf.loose.lt hr.grown.size_le, (Schema.fileOf?_congr hself).trans hf.loose.file,
    (Schema.parentOf?_congr hself).trans hf.loose.parent⟩

theorem parentOf?_nest_fresh : (L₁.schema.nest p id).parentOf? id = some p :=
  (Schema.parentOf?_nest (loose_of_recovered hf hr).lt).trans (if_pos rfl)

theorem leavesOf_nest_fresh : (L₁.schema.nest p id).leavesOf id = [] := by
  rw [Schema.leavesOf_nest, Schema.leavesOf_congr (hr.grown.old id hf.loose.lt), hf.leaves]

/-- Whatever was declared since can be reached from the message around. -/
theorem path_nest {d : Nat} (hd : id < d) (hds : d < L₁.schema.size) :
    id < p ∧ ReflTransGen (fun x y => id < y ∧ (L₁.schema.nest p id).Leads x y) p d := by
  obtain ⟨hp, hreach⟩ := hr.reached d (hf.last ▸ hd) hds
  rw [hf.last] at hp hreach
  have hip : id < p := hp ▸ Nat.lt_succ_self id
  refine ⟨hip, (Schema.reflTransGen_congr_on (P := (id < ·)) ?_ (fun _ _ _ h => h.1) hip).1 hreach⟩
  exact fun u w hu => and_congr_right fun _ =>
    Schema.leads_nest (loose_of_recovered hf hr).lt (Nat.ne_of_gt hu)

/-- Nothing from before is inside the fresh declaration. -/
theorem not_inside_nest {x : Nat} (hx : x < id) : ¬(L₁.schema.nest p id).Inside x id := by
  intro hin
  have hagree : AgreeTo id L.schema L₁.schema :=
    ⟨fun y hy => hr.grown.old y (hy.trans hf.loose.lt), fun y z _ h => hf.apart y z h⟩
  have hpath := (hagree.inside hx).2 (Schema.inside_of_inside_nest (loose_of_recovered hf hr).lt hin)
  exact absurd (Schema.reflTransGen_stays (P := (· < id)) (fun u w _ h => hf.apart u w (.inl h)) hx hpath)
    (lt_irrefl _)

/-- While the fresh declaration waited, all that came after it was declared; so what these mention is recorded
just as it was, and the fresh one mentions nothing yet. -/
theorem recorded_nest {f : FileId} {i : Import} :
    (∃ d, L.schema.size ≤ d ∧ L₁.schema.RecordedFrom L.schema.size d f i) ↔
      ∃ d, id ≤ d ∧ (L₁.schema.nest p id).RecordedFrom id d f i := by
  have hloose := loose_of_recovered hf hr
  have hsame : ∀ d, id < d → d < L₁.schema.size →
      (L₁.schema.RecordedFrom (id + 1) d f i ↔ (L₁.schema.nest p id).RecordedFrom id d f i) :=
    fun d hd hds => Schema.recordedFrom_nest hr.grown.sound.linked hloose hr.lt
      ⟨p, parentOf?_nest_fresh hf hr, path_nest hf hr hd hds⟩
  rw [hf.last]
  constructor
  · rintro ⟨d, hd, hrec⟩
    exact ⟨d, Nat.le_of_succ_le hd, (hsame d hd (Schema.lt_size_of_fileOf? hrec.1)).1 hrec⟩
  · rintro ⟨d, hd, hrec⟩
    rcases Nat.lt_or_eq_of_le hd with hd | rfl
    · have hds : d < L₁.schema.size := Schema.size_nest (s := L₁.schema) ▸ Schema.lt_size_of_fileOf? hrec.1
      exact ⟨d, hd, (hsame d hd hds).2 hrec⟩
    · exact absurd hrec (not_recordedFrom_of_leavesOf (leavesOf_nest_fresh hf hr))

theorem grown_nest : Grown id (fun _ _ => False) L (L₁.changed (·.nest p id)) where
  sound := sound_nest hr.grown.sound (loose_of_recovered hf hr) hr.lt
  size_le := hr.grown.size_le.trans Schema.size_nest.ge
  old x hx := by
    rw [← hr.grown.old x (hx.trans hf.loose.lt)]
    exact Schema.outlineOf?_nest_of_not_inside hr.grown.sound.linked (loose_of_recovered hf hr) hr.lt
      (not_inside_nest hf hr hx)
  imports f i := by
    show i ∈ (L₁.schema.nest p id).importsOf f ↔ _
    rw [Schema.importsOf_nest, hr.grown.imports, recorded_nest hf hr]
    rfl

/-- A fresh declaration is nested once the message around it is there. -/
theorem placed_nest : Placed k id L (L₁.changed (·.nest p id)) where
  grown := grown_nest hf hr
  leaves := leavesOf_nest_fresh hf hr
  kind := (kindOf?_congr Schema.content_nest).trans
    ((kindOf?_congr (congrArg _ (hr.grown.old id hf.loose.lt))).trans hf.kind)
  reached x hx hxs := by
    obtain ⟨hip, hreach⟩ := path_nest hf hr hx (Schema.size_nest (s := L₁.schema) ▸ hxs)
    refine .head ⟨hip.le, .inl (parentOf?_nest_fresh hf hr)⟩ ?_
    exact ReflTransGen.mono (fun _ _ h => ⟨h.1.le, h.2⟩) _ _ hreach

end Nest

section OpenFile
variable {t : ρ} (hf : Fresh L.schema k id) (hL : Sound L)
include hf

theorem leavesOf_openFile (x : DeclId) : (openFile c t id L.schema).leavesOf x = L.schema.leavesOf x :=
  Schema.leavesOf_content (content_openFile hf.nested hf.loose.lt)

include hL

theorem sound_openFile : Sound (L.changed (openFile c t id)) where
  linked := linked_openFile hf.nested hf.loose.lt hL.linked hf.loose
  closed x y hxy := by
    refine lt_of_lt_of_eq (hL.closed x y ?_) (size_openFile hf.nested hf.loose.lt).symm
    exact hxy.imp (fun h => (parentOf?_openFile hf.nested hf.loose.lt).symm.trans h)
      (fun h => leavesOf_openFile hf x ▸ h)
  memo e he := lt_of_lt_of_eq (hL.memo e he) (size_openFile hf.nested hf.loose.lt).symm

theorem grown_openFile : Grown id (fun _ _ => False) L (L.changed (openFile c t id)) where
  sound := sound_openFile hf hL
  size_le := (size_openFile hf.nested hf.loose.lt).ge
  old x hx := (outlineOf?_openFile hf.nested hf.loose.lt).trans (if_neg hx.ne)
  imports f i := by
    show i ∈ (openFile c t id L.schema).importsOf f ↔ _
    rw [importsOf_openFile hf.nested hf.loose.lt]
    constructor
    · exact .inl
    · rintro (h | ⟨d, hd, hr⟩ | h)
      · exact h
      · -- The fresh declaration is the only new one, and it mentions nothing yet.
        have hds : d < id + 1 :=
          hf.last ▸ size_openFile (c := c) hf.nested hf.loose.lt ▸ Schema.lt_size_of_fileOf? hr.1
        obtain rfl : d = id := Nat.le_antisymm (Nat.le_of_lt_succ hds) hd
        exact absurd hr (not_recordedFrom_of_leavesOf ((leavesOf_openFile hf d).trans hf.leaves))
      · exact h.elim

/-- A fresh declaration that belongs to no message gets a file. -/
theorem placed_openFile : Placed k id L (L.changed (openFile c t id)) where
  grown := grown_openFile hf hL
  leaves := (leavesOf_openFile hf id).trans hf.leaves
  kind := (kindOf?_congr (content_openFile hf.nested hf.loose.lt)).trans hf.kind
  reached x hx hxs := by
    have hlt : x < id + 1 := hf.last ▸ size_openFile (c := c) hf.nested hf.loose.lt ▸ hxs
    exact absurd hx (Nat.not_lt.2 (Nat.le_of_lt_succ hlt))

end OpenFile

end Place

/-! ## Recovering -/

section Recover
variable {k : Kind} {id : Nat} {L L₁ L₂ : Ledger} {leaves : List FieldType} {S : Schema}
  {fullName name : String} {isDeprecated : Bool}

theorem leads_declared {x y : DeclId} :
    (L.declared fullName name isDeprecated k).schema.Leads x y ↔ L.schema.Leads x y := by
  unfold Schema.Leads Ledger.declared
  rw [Schema.parentOf?_declare, Schema.leavesOf_declare]

theorem loose_declared : (L.declared fullName name isDeprecated k).schema.Loose L.schema.size := by
  have hnone := Schema.outlineOf?_eq_none.2 (le_refl L.schema.size)
  refine ⟨lt_of_lt_of_eq (Nat.lt_succ_self _) (Schema.size_declare ..).symm, ?_, ?_⟩
  · rw [Ledger.declared, Schema.fileOf?_declare, Schema.fileOf?_eq, hnone]
    rfl
  · rw [Ledger.declared, Schema.parentOf?_declare, Schema.parentOf?_eq, hnone]
    rfl

theorem kindOf?_declared (x : DeclId) :
    kindOf? (L.declared fullName name isDeprecated k).schema x =
      if x = L.schema.size then some k else kindOf? L.schema x := by
  rw [kindOf?, Ledger.declared, Schema.outlineOf?_declare]
  split <;> simp [kindOf?]

theorem fresh_declared (hL : Sound L) :
    Fresh (L.declared fullName name isDeprecated k).schema k L.schema.size where
  last := Schema.size_declare ..
  loose := loose_declared
  nested := by
    rw [Ledger.declared, Schema.nestedIn_declare]
    simp [Schema.nestedIn, Schema.size]
  leaves := by
    rw [Ledger.declared, Schema.leavesOf_declare, Schema.leavesOf, Schema.outlineOf?_eq_none.2 (le_refl _)]
    rfl
  kind := (kindOf?_declared _).trans (if_pos rfl)
  apart x y hxy := hL.closed x y (leads_declared.1 hxy)

theorem sound_declared (hL : Sound L) : Sound (L.declared fullName name isDeprecated k) := by
  have hsize : (L.declared fullName name isDeprecated k).schema.size = L.schema.size + 1 :=
    Schema.size_declare ..
  refine ⟨Schema.linked_declare hL.linked name isDeprecated k, ?_, ?_⟩
  · exact fun x y hxy => hsize ▸ Nat.lt_succ_of_lt (hL.closed x y (leads_declared.1 hxy))
  · intro e he
    rw [hsize]
    rcases List.mem_append.1 he with he | he
    · exact Nat.lt_succ_of_lt (hL.memo e he)
    · rw [List.mem_singleton.1 he]
      exact Nat.lt_succ_self _

theorem sound_filled (h : Filled id leaves L.schema S) (hL : Sound L)
    (hl : ∀ t, .reference t ∈ leaves → t < L.schema.size) : Sound ⟨S, L.memo⟩ where
  linked := h.linked hL.linked
  closed x y hxy := by
    refine lt_of_lt_of_eq ?_ h.size.symm
    by_cases hx : x = id
    · rcases hxy with hp | hy
      · exact hL.closed x y (.inl (h.parent x ▸ hp))
      · exact hl y ((h.leaves _).1 (hx ▸ hy))
    · exact hL.closed x y ((h.leads hx).2 hxy)
  memo e he := lt_of_lt_of_eq (hL.memo e he) h.size.symm

section Made
variable (hp : Placed k L.schema.size (L.declared fullName name isDeprecated k) L₁)
  (hm : Mentioned L.schema.size leaves L₁ L₂) (hS : Filled L.schema.size leaves L₂.schema S)
include hp

theorem lt_size_of_placed : L.schema.size < L₁.schema.size :=
  lt_of_lt_of_le (lt_of_lt_of_eq (Nat.lt_succ_self _) (Schema.size_declare ..).symm) hp.grown.size_le

include hm

theorem lt_size_of_mentioned : L.schema.size < L₂.schema.size :=
  lt_of_lt_of_le (lt_size_of_placed hp) hm.grown.size_le

/-- The declaration mentions nothing until its body is filled in. -/
theorem leavesOf_of_mentioned : L₂.schema.leavesOf L.schema.size = [] :=
  ((hm.grown.agree hp.grown.sound).leavesOf (lt_size_of_placed hp)).trans hp.leaves

include hS

/-- Paths that were there before the body was filled in are there still. -/
theorem reaches_filled {lo x y : Nat} (h : Reaches L₂.schema lo x y) : Reaches S lo x y := by
  refine ReflTransGen.mono (fun u w huw => ⟨huw.1, ?_⟩) _ _ h
  by_cases hu : u = L.schema.size
  · subst hu
    exact huw.2.imp (fun h => (hS.parent _).trans h) (fun h => by simp [leavesOf_of_mentioned hp hm] at h)
  · exact (hS.leads hu).1 huw.2

theorem grown_made : Grown L.schema.size (fun _ _ => False) L ⟨S, L₂.memo⟩ where
  sound := sound_filled hS hm.grown.sound hm.lt
  size_le := (lt_size_of_mentioned hp hm).le.trans hS.size.ge
  old x hx := by
    have hgrown := hp.grown.trans hm.grown (lt_size_of_placed hp).le
    refine (hS.others x hx.ne).trans ((hgrown.old x hx).trans ?_)
    exact (Schema.outlineOf?_declare ..).trans (if_neg hx.ne)
  imports f i := by
    show i ∈ S.importsOf f ↔ _
    rw [hS.imports, (hp.grown.trans hm.grown (lt_size_of_placed hp).le).imports]
    refine or_congr Iff.rfl ?_
    -- What was mentioned is recorded of the declaration itself, all else of the same ones as before.
    constructor
    · rintro (⟨d, hd, hr⟩ | h | ⟨hfile, leaf, hleaf, hi⟩)
      · have hne : d ≠ L.schema.size := by
          rintro rfl
          exact not_recordedFrom_of_leavesOf (leavesOf_of_mentioned hp hm) hr
        exact .inl ⟨d, hd, (hS.recordedFrom hne).1 hr⟩
      · exact h.elim
      · exact .inl ⟨L.schema.size, le_refl _, hS.recordedFrom_self.2 ⟨hfile, leaf, hleaf, hi⟩⟩
    · rintro (⟨d, hd, hr⟩ | h)
      · by_cases hne : d = L.schema.size
        · subst hne
          exact .inr (.inr (hS.recordedFrom_self.1 hr))
        · exact .inl ⟨d, hd, (hS.recordedFrom hne).2 hr⟩
      · exact h.elim

/-- A class that is met first: its declaration, its place, what it mentions, and its body. -/
theorem recovered_made : Recovered L.schema.size L ⟨S, L₂.memo⟩ where
  grown := grown_made hp hm hS
  lt := lt_of_lt_of_eq (lt_size_of_mentioned hp hm) hS.size.symm
  reached x hx hxs := by
    refine ⟨rfl, ?_⟩
    have hlt := lt_size_of_placed hp
    replace hxs : x < L₂.schema.size := hS.size ▸ hxs
    rcases Nat.lt_or_eq_of_le hx with hx | rfl
    · rcases lt_or_ge x L₁.schema.size with hx₁ | hx₁
      · exact reaches_filled hp hm hS ((hp.reached x hx hx₁).agree (hm.grown.agree hp.grown.sound) hlt)
      · obtain ⟨t, ht, hle, hreach⟩ := hm.reached x hx₁ hxs
        refine .head ⟨hlt.le.trans hle, .inr ((hS.leaves _).2 ht)⟩ ?_
        exact reaches_filled hp hm hS (hreach.mono_lo hlt.le)
    · exact .refl

end Made

end Recover

/-! ## Mentioning -/

section Mention
variable {lo : Nat} {own : FileId → Import → Prop} {L L₁ L₂ : Ledger} {S : Schema} {source : DeclId}

theorem sound_onlyImports (h : OnlyImports L.schema S) (hL : Sound L) : Sound ⟨S, L.memo⟩ where
  linked := h.linked hL.linked
  closed x y hxy := by
    refine lt_of_lt_of_eq (hL.closed x y ?_) h.size.symm
    exact hxy.imp (fun hp => h.parentOf? x ▸ hp) (fun hy => Schema.leavesOf_congr (h.outlineOf? x) ▸ hy)
  memo e he := lt_of_lt_of_eq (hL.memo e he) h.size.symm

theorem grown_onlyImports (hg : Grown lo (fun _ _ => False) L L₁) (h : OnlyImports L₁.schema S)
    (hi : ∀ f i, i ∈ S.importsOf f ↔ i ∈ L₁.schema.importsOf f ∨ own f i) :
    Grown lo own L ⟨S, L₁.memo⟩ where
  sound := sound_onlyImports h hg.sound
  size_le := hg.size_le.trans h.size.ge
  old x hx := (h.outlineOf? x).trans (hg.old x hx)
  imports f i := by
    have hagree : AgreeTo L₁.schema.size L₁.schema S :=
      ⟨fun x _ => h.outlineOf? x, fun x y _ hxy => hg.sound.closed x y hxy⟩
    have hrec : (∃ d, lo ≤ d ∧ L₁.schema.RecordedFrom lo d f i) ↔ ∃ d, lo ≤ d ∧ S.RecordedFrom lo d f i := by
      refine exists_congr fun d => and_congr_right fun _ => ?_
      rcases lt_or_ge d L₁.schema.size with hd | hd
      · exact hagree.recordedFrom hd
      · exact iff_of_false (not_recordedFrom_of_size_le hd) (not_recordedFrom_of_size_le (h.size ▸ hd))
    rw [hi, hg.imports, hrec, or_false, or_assoc]

theorem mentioned_nothing (hL : Sound L) : Mentioned source [] L L where
  grown := (Grown.refl hL).congr_own (by simp)
  lt t ht := by simp at ht
  reached x hx hxs := absurd hxs (not_lt.2 hx)

theorem mentioned_scalar (hL : Sound L) (k : Schema.Scalar) : Mentioned source [.scalar k] L L where
  grown := (Grown.refl hL).congr_own (by simp [Schema.leafImport])
  lt t ht := by simp at ht
  reached x hx hxs := absurd hxs (not_lt.2 hx)

theorem mentioned_wellKnown (hL : Sound L) (w : Schema.WellKnown) :
    Mentioned source [.wellKnown w] L (L.changed (linkPath source w.file)) where
  grown := by
    refine grown_onlyImports (Grown.refl hL) onlyImports_linkPath fun f i => ?_
    rw [mem_importsOf_linkPath hL.linked]
    simp [Ledger.changed, onlyImports_linkPath.fileOf? source, Schema.leafImport]
  lt t ht := by simp at ht
  reached x hx hxs := absurd (lt_of_lt_of_eq hxs onlyImports_linkPath.size) (not_lt.2 hx)

theorem mentioned_reference {target : DeclId} (hr : Recovered target L L₁) :
    Mentioned source [.reference target] L (L₁.changed (linkFiles source target)) where
  grown := by
    refine grown_onlyImports hr.grown onlyImports_linkFiles fun f i => ?_
    rw [mem_importsOf_linkFiles hr.grown.sound.linked]
    have hfile : ∀ x, (L₁.changed (linkFiles source target)).schema.fileOf? x = L₁.schema.fileOf? x :=
      onlyImports_linkFiles.fileOf?
    simp [hfile, Schema.leafImport_congr fun t _ => hfile t]
  lt t ht := by
    obtain rfl : t = target := by simpa using ht
    exact lt_of_lt_of_eq hr.lt onlyImports_linkFiles.size.symm
  reached x hx hxs := by
    obtain ⟨rfl, hreach⟩ := hr.reached x hx (lt_of_lt_of_eq hxs onlyImports_linkFiles.size)
    refine ⟨_, List.mem_singleton_self _, le_refl _, ?_⟩
    refine ReflTransGen.mono (fun u w huw => ⟨huw.1, ?_⟩) _ _ hreach
    have houtline : (linkFiles source L.schema.size L₁.schema).outlineOf? u = L₁.schema.outlineOf? u :=
      onlyImports_linkFiles.outlineOf? u
    exact huw.2.imp (fun h => (Schema.parentOf?_congr houtline).trans h)
      (fun h => (Schema.leavesOf_congr houtline).symm ▸ h)

theorem mentioned_append {first second : List FieldType} (hsource : source < L.schema.size)
    (h₁ : Mentioned source first L L₁) (h₂ : Mentioned source second L₁ L₂) :
    Mentioned source (first ++ second) L L₂ := by
  have hagree := h₂.grown.agree h₁.grown.sound
  have hfile := hagree.fileOf? (lt_of_lt_of_le hsource h₁.grown.size_le)
  refine ⟨(h₁.grown.trans h₂.grown h₁.grown.size_le).congr_own fun f i => ?_, ?_, ?_⟩
  · have hfirst : (∃ leaf ∈ first, L₁.schema.leafImport f leaf = some i) ↔
        ∃ leaf ∈ first, L₂.schema.leafImport f leaf = some i := by
      refine exists_congr fun leaf => and_congr_right fun hl => ?_
      rw [Schema.leafImport_congr fun t e => hagree.fileOf? (h₁.lt t (e ▸ hl))]
    rw [← hfile, hfirst, ← and_or_left]
    simp only [List.mem_append, or_and_right, exists_or]
  · intro t ht
    rcases List.mem_append.1 ht with ht | ht
    · exact lt_of_lt_of_le (h₁.lt t ht) h₂.grown.size_le
    · exact h₂.lt t ht
  · intro x hx hxs
    rcases lt_or_ge x L₁.schema.size with hx₁ | hx₁
    · obtain ⟨t, ht, hle, hreach⟩ := h₁.reached x hx hx₁
      exact ⟨t, List.mem_append_left _ ht, hle, hreach.agree hagree (h₁.lt t ht)⟩
    · obtain ⟨t, ht, hle, hreach⟩ := h₂.reached x hx₁ hxs
      exact ⟨t, List.mem_append_right _ ht, h₁.grown.size_le.trans hle, hreach.mono_lo h₁.grown.size_le⟩

end Mention

/-! ## Derivations -/

/-- What a derivation shows of its goal. -/
def Explained : Goal ρ → Ledger → Ledger → Prop
  | .recover _ _ id, L, L' => Sound L → Recovered id L L'
  | .place k _ id, L, L' => Sound L → Fresh L.schema k id → Placed k id L L'
  | .mention source leaves, L, L' => Sound L → source < L.schema.size → Mentioned source leaves L L'

theorem mem_of_lookup {α β : Type} [BEq α] [LawfulBEq α] {l : List (α × β)} {a : α} {b : β}
    (h : l.lookup a = some b) : (a, b) ∈ l := by
  obtain ⟨before, after, rfl, -⟩ := List.lookup_eq_some_iff.1 h
  simp

theorem recovered_known {L : Ledger} {id : DeclId} {fullName : String} (hL : Sound L)
    (h : L.memo.lookup fullName = some id) : Recovered id L L where
  grown := .refl hL
  lt := hL.memo _ (mem_of_lookup h)
  reached _ hx hxs := absurd hxs (not_lt.2 hx)

theorem explained_of_done {v : View c} {goal : Goal ρ} {L L' : Ledger} (h : Done v goal L L') :
    Explained goal L L' := by
  induction h with
  | known _ hf => exact fun hL => recovered_known hL hf
  | made _ _ _ _ hfinish ihp ihm =>
    intro hL
    have hp := ihp (sound_declared hL) (fresh_declared hL)
    have hsize := lt_of_lt_of_le (fresh_declared hL).loose.lt hp.grown.size_le
    have hm := ihm hp.grown.sound hsize
    have hkind := (kindOf?_congr (congrArg _ (hm.grown.old _ hsize))).trans hp.kind
    exact recovered_made hp hm (filled_of_finish hfinish hkind)
  | nested _ _ _ ih => exact fun hL hf => placed_nest hf (ih hL)
  | filed _ => exact fun hL hf => placed_openFile hf hL
  | nothing => exact fun hL _ => mentioned_nothing hL
  | scalar => exact fun hL _ => mentioned_scalar hL _
  | wellKnown => exact fun hL _ => mentioned_wellKnown hL _
  | reference _ ih => exact fun hL _ => mentioned_reference (ih hL)
  | append _ _ ih₁ ih₂ =>
    intro hL hsource
    have h₁ := ih₁ hL hsource
    exact mentioned_append hsource h₁ (ih₂ h₁.grown.sound (lt_of_lt_of_le hsource h₁.grown.size_le))

theorem sound_nothing : Sound {} where
  linked := by constructor <;> simp [Schema.nestedIn, Schema.parentOf?, Schema.fileOf?]
  closed := by simp [Schema.Leads, Schema.parentOf?, Schema.leavesOf, Schema.outlineOf?]
  memo := by simp

/-- Everything that is built has the imports that were called for on time. -/
theorem grown_of_built {v : View c} {L : Ledger} (h : Built v L) : Grown 0 (fun _ _ => False) {} L := by
  induction h with
  | nothing => exact Grown.refl sound_nothing
  | more _ hd ih =>
    have hr : Recovered _ _ _ := explained_of_done hd ih.sound
    exact (ih.trans hr.grown (Nat.zero_le _)).congr_own (by simp)

end ProtoRecovery.Recovery
