import ProtoRecovery.Managed.Catalog
import ProtoRecovery.Proofs.Recovery.Visits
/-!
# The pool of a library

References get into the pool under their own keys and never leave it, so whatever was looked up during a
session is found again in the end. That makes the last pool a view of the whole session.
-/

namespace ProtoRecovery.Managed

open Catalog (Pool Look)
open Recovery (View Manner Roams owner? Extends extends_resolve Lasts lasts_pure lasts_bind lasts_resolve? lasts_owner?)

variable {lib : Library} {α β : Type}

/-- Every reference in a pool is there under its own key. -/
def Keyed (pool : Pool TypeRef) : Prop := ∀ k r, pool.lookup k = some r → r.key = k

theorem resolve_of_found {p : Pool TypeRef} {r first : TypeRef} (h : p.lookup r.key = some first) :
    (lib.catalog.resolve r).run p = (first, p) := by
  have hk : lib.catalog.key? r = some r.key := rfl
  simp [Catalog.resolve, StateT.run, hk, h]

theorem resolve_of_new {p : Pool TypeRef} {r : TypeRef} (h : p.lookup r.key = none) :
    (lib.catalog.resolve r).run p = (r, (r.key, r) :: p) := by
  have hk : lib.catalog.key? r = some r.key := rfl
  simp [Catalog.resolve, StateT.run, hk, h]

theorem keyed_resolve {p : Pool TypeRef} (hp : Keyed p) (r : TypeRef) :
    Keyed ((lib.catalog.resolve r).run p).2 := by
  cases h : p.lookup r.key with
  | some first => rwa [resolve_of_found h]
  | none =>
    rw [resolve_of_new h]
    intro k x hx
    rw [List.lookup_cons] at hx
    split at hx
    · rename_i hk
      cases hx
      exact (eq_of_beq hk).symm
    · exact hp k x hx

/-! ## Members of a type -/

/-- A condition that held before a question if it holds after it. -/
def Backs (sees : Pool TypeRef → Prop) (q : Look TypeRef α) : Prop := ∀ p, sees (q.run p).2 → sees p

theorem backs_bind {sees : Pool TypeRef → Prop} {q : Look TypeRef α} {f : α → Look TypeRef β}
    (hq : Backs sees q) (hf : ∀ a, Backs sees (f a)) : Backs sees (q >>= f) :=
  fun p hs => hq p (hf _ _ hs)

theorem backs_pure {sees : Pool TypeRef → Prop} {a : α} : Backs sees (pure a) := fun _ => id

section Members
variable {sees : Pool TypeRef → Prop} (hr : ∀ r, Backs sees (lib.catalog.resolve r))
include hr

theorem backs_basesOf (limit : Nat) (r : TypeRef) : Backs sees (lib.basesOf limit r) := by
  induction limit generalizing r with
  | zero => exact backs_pure
  | succ limit ih =>
    have hbase : Backs sees (lib.simpleCatalog.baseOf? r) := by
      unfold Catalog.baseOf?
      cases lib.simpleCatalog.base? r with
      | none => exact backs_pure
      | some base => exact backs_bind (hr base) fun _ => backs_pure
    refine backs_bind hbase fun o => ?_
    cases o with
    | none => exact backs_pure
    | some base =>
      dsimp only
      split
      · exact backs_pure
      · exact backs_bind (ih base) fun _ => backs_pure

end Members

theorem backs_collect (sees : Pool TypeRef → Prop) (hr : ∀ r, Backs sees (lib.catalog.resolve r))
    (members : Bool → Definition → List α) (r : TypeRef) : Backs sees (lib.collect members r) :=
  backs_bind (backs_basesOf hr _ r) fun _ => backs_pure

/-- What look-ups keep is kept while members are collected. -/
theorem keeps_collect {P : Pool TypeRef → Prop} (hP : ∀ r p, P p → P ((lib.catalog.resolve r).run p).2)
    (members : Bool → Definition → List α) (r : TypeRef) (p : Pool TypeRef) (hp : P p) :
    P ((lib.collect members r).run p).2 := by
  by_contra hlost
  exact backs_collect (fun q => ¬P q) (fun r q h hq => h (hP r q hq)) members r p hlost hp

theorem lasts_basesOf {pool : Pool TypeRef} (limit : Nat) (r : TypeRef) : Lasts pool (lib.basesOf limit r) := by
  induction limit generalizing r with
  | zero => exact lasts_pure
  | succ limit ih =>
    refine lasts_bind (lasts_resolve? _) fun o => ?_
    cases o with
    | none => exact lasts_pure
    | some base =>
      dsimp only
      split
      · exact lasts_pure
      · exact lasts_bind (ih base) fun _ => lasts_pure

theorem lasts_collect {pool : Pool TypeRef} (members : Bool → Definition → List α) (r : TypeRef) :
    Lasts pool (lib.collect members r) :=
  lasts_bind (lasts_basesOf _ r) fun _ => lasts_pure

/-! ## The last pool as a view -/

/-- Types as they stand in a pool. -/
def Library.viewFrom (lib : Library) (pool : Pool TypeRef) (hpool : Keyed pool) (holder : TypeRef → Prop) :
    View lib.catalog where
  sees p := Extends p pool
  stands t := pool.lookup t.key = some t
  owner t o := ((owner? lib.catalog t).run pool).1 = o
  holder := holder
  resolve r p h := by
    refine ⟨(extends_resolve lib.catalog r p).trans h, ?_⟩
    cases hp : p.lookup r.key with
    | some first =>
      rw [resolve_of_found hp] at h ⊢
      have hfirst := h _ _ hp
      rwa [hpool _ _ hfirst]
    | none =>
      rw [resolve_of_new hp] at h ⊢
      exact h _ _ (by simp)
  methods := backs_collect (Extends · pool) (fun r p h => (extends_resolve lib.catalog r p).trans h) _
  properties := backs_collect (Extends · pool) (fun r p h => (extends_resolve lib.catalog r p).trans h) _
  owner_of t p _ h := by rw [(lasts_owner? t p h).2]

/-- A view by which a condition that look-ups keep, once broken, was broken from the start. -/
def Library.viewAgainst (lib : Library) (P : Pool TypeRef → Prop)
    (hP : ∀ r p, P p → P ((lib.catalog.resolve r).run p).2) (holder : TypeRef → Prop) : View lib.catalog where
  sees p := ¬P p
  stands _ := True
  owner _ _ := True
  holder := holder
  resolve r p h := ⟨fun hp => h (hP r p hp), trivial⟩
  methods := backs_collect (fun p => ¬P p) (fun r p h hp => h (hP r p hp)) _
  properties := backs_collect (fun p => ¬P p) (fun r p h hp => h (hP r p hp)) _
  owner_of _ _ _ _ := trivial

section Reached
variable {names : Option Identifier.Dictionary} {holder : TypeRef → Prop} {s : Recovery.State TypeRef}

/-- What look-ups keep holds of the pool of every session. -/
theorem pool_of_reached (h : Recovery.Reached lib.catalog names holder s) (P : Pool TypeRef → Prop)
    (hP : ∀ r p, P p → P ((lib.catalog.resolve r).run p).2) (hstart : P lib.catalog.pool) : P s.pool := by
  by_contra hs
  exact Recovery.sees_of_reached (v := lib.viewAgainst P hP holder) h hs hstart

theorem lookup_map_key {rs : List TypeRef} {k : String} {r : TypeRef}
    (h : (rs.map fun r => (r.key, r)).lookup k = some r) : r.key = k := by
  obtain ⟨before, after, he, -⟩ := List.lookup_eq_some_iff.1 h
  have hm : (k, r) ∈ rs.map fun r => (r.key, r) := he ▸ by simp
  obtain ⟨x, -, hx⟩ := List.mem_map.1 hm
  obtain ⟨rfl, rfl⟩ := Prod.mk.inj hx
  rfl

theorem keyed_of_reached (h : Recovery.Reached lib.catalog names holder s) : Keyed s.pool :=
  pool_of_reached h Keyed (fun r _ hp => keyed_resolve hp r) fun _ _ hk => lookup_map_key hk

theorem built_in_view (h : Recovery.Reached lib.catalog names holder s) :
    Recovery.Built (lib.viewFrom s.pool (keyed_of_reached h) holder) s.ledger :=
  Recovery.built_of_reached h fun _ _ => id

end Reached

/-! ## Pools throughout a session -/

/-- A library is asked in a manner that its look-ups keep to. -/
theorem roams_of_resolve {M : Manner TypeRef} (hrefl : ∀ p, M.goes p p)
    (htrans : ∀ p q r, M.goes p q → M.goes q r → M.goes p r)
    (hresolve : ∀ r p, M.goes p ((lib.catalog.resolve r).run p).2)
    (hfound : ∀ r p, M.stands ((lib.catalog.resolve r).run p).2 ((lib.catalog.resolve r).run p).1)
    (hstays : ∀ p q t, M.goes p q → M.stands p t → M.stands q t) : Roams lib.catalog M where
  refl := hrefl
  trans := htrans
  resolve := hresolve
  methods t p := keeps_collect (fun r q h => htrans _ _ _ h (hresolve r q)) _ t p (hrefl p)
  properties t p := keeps_collect (fun r q h => htrans _ _ _ h (hresolve r q)) _ t p (hrefl p)
  found := hfound
  stays := hstays

theorem roams_library (lib : Library) : Roams lib.catalog .growing :=
  roams_of_resolve .refl (fun _ _ _ => .trans) (extends_resolve lib.catalog) (fun _ _ => trivial)
    fun _ _ _ _ _ => trivial

/-- Pools grow and stay keyed, and types stand for their keys. -/
abbrev mannerKeyed (holder : TypeRef → Prop) : Manner TypeRef where
  goes p q := Extends p q ∧ (Keyed p → Keyed q)
  stands p t := Keyed p → p.lookup t.key = some t
  holder := holder

theorem keyed_of_extends {p q : Pool TypeRef} (h : Extends p q) (hq : Keyed q) : Keyed p :=
  fun k r hr => hq k r (h k r hr)

theorem lookup_resolve {p : Pool TypeRef} (hp : Keyed p) (r : TypeRef) :
    ((lib.catalog.resolve r).run p).2.lookup ((lib.catalog.resolve r).run p).1.key =
      some ((lib.catalog.resolve r).run p).1 := by
  cases h : p.lookup r.key with
  | some first => rw [resolve_of_found h, hp _ _ h, h]
  | none =>
    rw [resolve_of_new h]
    simp

theorem roams_keyed (lib : Library) (holder : TypeRef → Prop) : Roams lib.catalog (mannerKeyed holder) :=
  roams_of_resolve (fun p => ⟨.refl p, id⟩) (fun _ _ _ h h' => ⟨h.1.trans h'.1, h'.2 ∘ h.2⟩)
    (fun r p => ⟨extends_resolve lib.catalog r p, fun hp => keyed_resolve hp r⟩)
    (fun r p h => lookup_resolve (keyed_of_extends (extends_resolve lib.catalog r p) h) r)
    fun _ _ _ h ht hq => h.1 _ _ (ht (keyed_of_extends h.1 hq))

theorem keyed_start (lib : Library) : Keyed lib.catalog.pool := fun _ _ hk => lookup_map_key hk

theorem keyed_of_visited {names : Option Identifier.Dictionary} {s : Recovery.State TypeRef}
    (h : Recovery.Visited lib.catalog names s) : Keyed s.pool :=
  Recovery.attempted_invariant (P := fun s => Keyed s.pool) (h.attempted fun _ => trivial)
    (roams_keyed lib fun _ => True) (keyed_start lib) fun _ _ he hs => (he.pool (roams_keyed lib _)).2 hs

end ProtoRecovery.Managed
