import ProtoRecovery.Proofs.Managed.Output
import ProtoRecovery.Proofs.Managed.Success
import ProtoRecovery.Proofs.Recovery.Shelves
/-!
# What a session declares

A session that asks for classes one after the other declares these and all that they refer to, and nothing else. Where a
declaration is, what it holds and where its file comes from is told by its class alone.
-/

namespace ProtoRecovery.Managed

open Recovery (Gives Reached Request State start)
open Relation (ReflTransGen)
open Schema (DeclId)

/-- Requests one after the other that all end well. -/
def Completes (lib : Library) (names : Option Identifier.Dictionary) : List (Request TypeRef) → State TypeRef →
    State TypeRef → Prop
  | [], s, s' => s = s'
  | q :: rest, s, s' => ∃ o s₁, Gives (q.run lib.catalog names) s o s₁ ∧ Completes lib names rest s₁ s'

variable {R : Reader} {qs : List Root} {s s' : State TypeRef}

theorem reached_of_completes (h : Completes R.lib R.names (qs.map (·.request R.options)) s s')
    (hs : Reached R.lib.catalog R.names (PlainHolder R.lib) s) : Reached R.lib.catalog R.names (PlainHolder R.lib) s' := by
  induction qs generalizing s with
  | nil => exact (show s = s' from h) ▸ hs
  | cons q rest ih =>
    obtain ⟨o, s₁, hg, h⟩ := h
    refine ih h (.step hs ?_ hg)
    cases q <;> trivial

section Legible
variable (hl : R.lib.Legible) (hw : R.lib.WellNamed) (hspelled : ∀ q ∈ qs, q.type.Spelled)
include hl hw hspelled

theorem adds_of_completes (h : Completes R.lib R.names (qs.map (·.request R.options)) s s') (hs : Clear s.pool) :
    (∀ q ∈ qs, q.Fits R.lib) ∧ ∃ new, Adds R (qs.map (·.type)) new [] s s' := by
  induction qs generalizing s with
  | nil => exact ⟨by simp, [], (show s = s' from h) ▸ (Browsed.refl hs).adds⟩
  | cons q rest ih =>
    obtain ⟨o, s₁, hg, h⟩ := h
    obtain ⟨hfits, new, hadds⟩ := root_tells hl hw hs (hspelled q (by simp)) hg
    obtain ⟨hrest, more, hadds'⟩ := ih (fun q hq => hspelled q (by simp [hq])) h hadds.pool
    exact ⟨List.forall_mem_cons.2 ⟨hfits, hrest⟩, new ++ more, hadds.trans hadds'⟩

/-- Classes that can be read are all recovered, in whatever order they are asked for. -/
theorem exists_completes (hready : ∀ q ∈ qs, R.Ready q.type) (hfits : ∀ q ∈ qs, q.Fits R.lib)
    (hreached : Reached R.lib.catalog R.names (PlainHolder R.lib) s) (hs : Clear s.pool) :
    ∃ s', Completes R.lib R.names (qs.map (·.request R.options)) s s' := by
  induction qs generalizing s with
  | nil => exact ⟨s, rfl⟩
  | cons q rest ih =>
    have hq := hspelled q (by simp)
    obtain ⟨o, s₁, hg⟩ := gives_root hl hw hs hq (keyed_of_reached hreached) (hready q (by simp)) (hfits q (by simp))
    obtain ⟨-, new, hadds⟩ := root_tells hl hw hs hq hg
    have hreached₁ : Reached R.lib.catalog R.names (PlainHolder R.lib) s₁ := by
      refine .step hreached ?_ hg
      cases q <;> trivial
    obtain ⟨s', h⟩ := ih (fun q hq => hspelled q (by simp [hq])) (fun q hq => hready q (by simp [hq]))
      (fun q hq => hfits q (by simp [hq])) hreached₁ hadds.pool
    exact ⟨s', o, s₁, hg, h⟩

end Legible

/-! ## The classes of a session -/

/-- In a state, the classes `new` are declared in order, for the sake of `roots`. -/
structure Declares (R : Reader) (roots new : List TypeRef) (s : State TypeRef) : Prop where
  legible : R.lib.Legible
  wellNamed : R.lib.WellNamed
  reached : Reached R.lib.catalog R.names (PlainHolder R.lib) s
  adds : Adds R roots new [] (start R.lib.catalog) s
  roots : ∀ r ∈ roots, r.Spelled

/-- A session from the start declares classes for the sake of those that it asks for. -/
theorem exists_declares (hl : R.lib.Legible) (hw : R.lib.WellNamed) (hspelled : ∀ q ∈ qs, q.type.Spelled)
    (h : Completes R.lib R.names (qs.map (·.request R.options)) (start R.lib.catalog) s) :
    (∀ q ∈ qs, q.Fits R.lib) ∧ ∃ new, Declares R (qs.map (·.type)) new s := by
  obtain ⟨hfits, new, hadds⟩ := adds_of_completes hl hw hspelled h (clear_start hl)
  exact ⟨hfits, new, hl, hw, reached_of_completes h .start, hadds, by simpa using hspelled⟩

namespace Declares
variable {roots new : List TypeRef} (h : Declares R roots new s) {t u : TypeRef} {i : DeclId}
include h

theorem size : s.schema.size = new.length := h.adds.size.trans (Nat.zero_add _)

/-- Each declaration is that of a class. -/
theorem exists_class (hi : i < s.schema.size) : ∃ t, new[i]? = some t :=
  ⟨_, List.getElem?_eq_getElem (hi.trans_eq h.size)⟩

theorem memo : s.memo = noted 0 new := h.adds.memo.trans (List.nil_append _)

theorem told (hi : new[i]? = some t) : Told R s i t := by
  have htold := h.adds.told i t hi
  rwa [show (start R.lib.catalog).schema.size + i = i from Nat.zero_add i] at htold

theorem orderly :
    Recovery.Orderly (R.lib.viewFrom s.pool (keyed_of_reached h.reached) (PlainHolder R.lib)) fun t => t.key.length :=
  orderly_viewFrom h.wellNamed (keyed_of_reached h.reached)

theorem arranged :
    ∃ types, Recovery.Arranged (R.lib.viewFrom s.pool (keyed_of_reached h.reached) (PlainHolder R.lib)) types [] s.ledger :=
  Recovery.arranged_of_built h.orderly.toOrdered (built_in_view h.reached)

/-- Each class is noted, under its own name and once. -/
theorem find? (hi : new[i]? = some t) : s.find? t.key = some i := by
  obtain ⟨types, ha⟩ := h.arranged
  have hlt : i < types.length := by
    rw [ha.size]
    exact (List.getElem?_eq_some_iff.1 hi).1.trans_eq h.size.symm
  have hfound : s.memo.lookup types[i].key = some i := (ha.memo _ i).2 ⟨types[i], List.getElem?_eq_getElem hlt, rfl⟩
  -- What is noted at a position is the class declared there.
  obtain ⟨j, u, hu, hkey, hij⟩ := mem_noted (h.memo ▸ Recovery.mem_of_lookup hfound)
  obtain rfl : i = j := hij.trans (Nat.zero_add j)
  obtain rfl : t = u := Option.some.inj (hi.symm.trans hu)
  rw [hkey]
  exact hfound

theorem of_find? {n : String} (hn : s.find? n = some i) : ∃ t, new[i]? = some t ∧ t.key = n := by
  obtain ⟨j, t, ht, hkey, hij⟩ := mem_noted (h.memo ▸ Recovery.mem_of_lookup hn)
  obtain rfl : i = j := hij.trans (Nat.zero_add j)
  exact ⟨t, ht, hkey⟩

theorem refIn (hi : new[i]? = some t) : Managed.refIn s t = i := by
  rw [Managed.refIn, h.find? hi]
  rfl

theorem getElem?_refIn (ht : t ∈ new) : new[Managed.refIn s t]? = some t := by
  obtain ⟨i, hi⟩ := List.mem_iff_getElem?.1 ht
  rw [h.refIn hi]
  exact hi

theorem nodup : new.Nodup := by
  rw [List.nodup_iff_getElem?_ne_getElem?]
  intro i j hij hj heq
  obtain ⟨t, ht⟩ : ∃ t, new[i]? = some t := ⟨_, List.getElem?_eq_getElem (hij.trans hj)⟩
  have hi := h.find? ht
  rw [h.find? (heq ▸ ht)] at hi
  exact hij.ne' (Option.some.inj hi)

/-- A class that is noted is one of them. -/
theorem mem_of_met (ht : t.Spelled) (hmet : Met s t) : t ∈ new := by
  obtain ⟨i, hi⟩ := Option.isSome_iff_exists.1 hmet
  obtain ⟨u, hu, hkey⟩ := h.of_find? hi
  obtain rfl := (h.told hu).1.eq_of_key ht hkey
  exact List.mem_of_getElem? hu

/-- The classes are the roots and all that these refer to. -/
theorem mem_iff : u ∈ new ↔ ∃ r ∈ roots, ReflTransGen R.Refers r u := by
  constructor
  · exact h.adds.reached u
  · rintro ⟨r, hr, hreach⟩
    induction hreach with
    | refl => exact h.mem_of_met (h.roots r hr) (h.adds.met r hr)
    | @tail x y _ hxy ih =>
      obtain ⟨i, hi⟩ := List.mem_iff_getElem?.1 ih
      obtain ⟨-, P, hP, hmet, -⟩ := h.told hi
      obtain ⟨P', hP', hy⟩ := hxy
      obtain rfl : P = P' := Option.some.inj (hP.symm.trans hP')
      exact h.mem_of_met ((knows_of_mem_classes hP hy).spelled h.legible) (hmet y hy)

theorem ready (ht : t ∈ new) : R.Ready t := by
  intro u hu
  obtain ⟨r, hr, hreach⟩ := h.mem_iff.1 ht
  obtain ⟨i, hi⟩ := List.mem_iff_getElem?.1 (h.mem_iff.2 ⟨r, hr, hreach.trans hu⟩)
  obtain ⟨-, P, hP, -⟩ := h.told hi
  exact ⟨P, hP⟩

/-! ## Places -/

/-- Every class stands for itself. -/
theorem stands (hi : new[i]? = some t) : s.pool.lookup t.key = some t := by
  obtain ⟨types, ha⟩ := h.arranged
  obtain ⟨t', ht', hname⟩ := (ha.memo t.key i).1 (h.find? hi)
  obtain ⟨k, -, hfits⟩ := ha.fits i t' ht'
  have hstands : s.pool.lookup t'.key = some t' := hfits.stands
  rw [show t'.key = t.key from hname] at hstands
  rw [hstands, h.adds.pool t t' (h.told hi).1 hstands]

theorem parentOf? (hi : new[i]? = some t) :
    s.schema.parentOf? i = (R.lib.ownerOf? t).map (Managed.refIn s) := by
  obtain ⟨types, ha⟩ := h.arranged
  obtain ⟨-, P, hP, -⟩ := h.told hi
  obtain ⟨content, hcontent, -⟩ := Option.map_eq_some_iff.1 hP
  have hkind : R.lib.catalog.isMessage t = true ∨ R.lib.catalog.isEnum t = true := by
    by_cases he : R.lib.catalog.isEnum t = true
    · exact .inr he
    · exact .inl (isMessage_of_content hcontent (Bool.not_eq_true _ ▸ he))
  have howner := (answers_owner? h.legible h.wellNamed t s.pool h.adds.pool).2
  cases ho : R.lib.ownerOf? t with
  | none => exact Recovery.parentOf?_of_memo h.orderly ha (h.stands hi) hkind (h.find? hi) (howner.trans ho)
  | some o =>
    obtain ⟨p, hp, hparent⟩ :=
      Recovery.parentOf?_of_memo h.orderly ha (h.stands hi) hkind (h.find? hi) (howner.trans ho)
    refine hparent.trans ?_
    rw [Option.map_some, Managed.refIn, show s.find? o.key = some p from hp]
    rfl

theorem forest : s.schema.Forest := by
  obtain ⟨types, ha⟩ := h.arranged
  exact Recovery.forest_of_arranged ha h.orderly

theorem dated : s.schema.Dated := Recovery.dated_of_built (built_in_view h.reached)

theorem oneTop : s.schema.OneTop := Recovery.oneTop_of_shelved (Recovery.shelved_of_built (built_in_view h.reached))

/-- A class that belongs to no message is in a file of its own place. -/
theorem placeOf? (hi : new[i]? = some t) (hroot : s.schema.parentOf? i = none) :
    s.schema.placeOf? i = some (some (R.lib.catalog.assembly t), R.lib.catalog.namespaceName? t) := by
  have hlt : i < s.schema.size := (List.getElem?_eq_some_iff.1 hi).1.trans_eq h.size.symm
  obtain ⟨f, hf⟩ := (h.forest.mem_topsOf i hlt).2 hroot
  obtain ⟨file, u, hfile, hu, hfound, -, hassembly, hnamespace⟩ :=
    Recovery.exists_class_of_top (Recovery.shelved_of_built (built_in_view h.reached)) hf
  have hu : s.pool.lookup u.key = some u := hu
  -- The file was opened for the class that is noted at its top, and that is this one.
  obtain ⟨t', ht', hkey⟩ := h.of_find? hfound
  obtain rfl : t = t' := Option.some.inj (hi.symm.trans ht')
  obtain rfl : u = t := h.adds.pool t u (h.told hi).1 (hkey ▸ hu)
  unfold Schema.placeOf?
  rw [h.forest.top_file i f hf, Option.bind_some, show s.schema.files[f]? = some file from hfile, Option.map_some,
    hassembly, hnamespace]

end Declares

end ProtoRecovery.Managed
