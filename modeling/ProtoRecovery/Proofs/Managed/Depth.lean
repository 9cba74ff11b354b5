import ProtoRecovery.Proofs.Managed.Records
/-!
# How deep a recovery from a library goes

What a recovery can enter has a key among those of the references that are there, and a key is shorter than that of a
type it is an argument of. So there is a bound on how deep calls go, and the depth that a recovery is allowed is beyond it.
-/

namespace ProtoRecovery.Managed

open Catalog (Pool)
open Recovery (Agree Kin Setting State Options outcome agree_pure agree_bind depthFor recoverMessage recoverEnum)

/-! ## How much is in a reference -/

namespace TypeRef

theorem length_partsAll : (rs : List TypeRef) → (partsAll rs).length = weightAll rs
  | [] => rfl
  | ⟨name, args⟩ :: rest => by
    rw [partsAll, weightAll, parts, weight, List.length_append, List.length_cons, length_partsAll args,
      length_partsAll rest]

theorem length_key_le_keyRest {a : TypeRef} {rs : List TypeRef} (h : a ∈ rs) : a.key.length ≤ (keyRest rs).length := by
  induction rs with
  | nil => simp at h
  | cons r rest ih =>
    simp only [keyRest, String.length_append]
    rcases List.mem_cons.1 h with rfl | h
    · omega
    · have := ih h
      omega

/-- An argument has a shorter key. -/
theorem length_key_arg {a t : TypeRef} (h : a ∈ t.args) : a.key.length < t.key.length := by
  obtain ⟨name, args⟩ := t
  cases args with
  | nil => simp at h
  | cons r rest =>
    have hone : ("]" : String).length = 1 := by decide
    simp only [key, String.length_append, hone]
    rcases List.mem_cons.1 h with rfl | h
    · omega
    · have := length_key_le_keyRest h
      omega

end TypeRef

/-! ## Keys that bound a recovery -/

/-- A reference and all that is in it have keys among some. -/
def Covers (keys : Finset String) (r : TypeRef) : Prop := ∀ x : TypeRef, x.Within r → x.key ∈ keys

/-- A plain name, or a reference with keys among some. -/
def Modest (keys : Finset String) (r : TypeRef) : Prop := r.args = [] ∨ Covers keys r

/-- References in a pool are there under their own keys, and are modest. -/
def Tame (keys : Finset String) (pool : Pool TypeRef) : Prop :=
  ∀ k r, pool.lookup k = some r → r.key = k ∧ Modest keys r

variable {lib : Library} {keys : Finset String}

theorem modest_named (name : String) : Modest keys (.named name) := .inl rfl

theorem Modest.argument {r a : TypeRef} (h : Modest keys r) (ha : a ∈ r.args) : Covers keys a := by
  rcases h with h | h
  · rw [h] at ha
    cases ha
  · exact fun x hx => h x (.arg ha hx)

theorem tame_cons {pool : Pool TypeRef} {r : TypeRef} (hp : Tame keys pool) (hr : Modest keys r) :
    Tame keys ((r.key, r) :: pool) := by
  intro k x hx
  rw [List.lookup_cons] at hx
  split at hx
  · rename_i hk
    cases hx
    exact ⟨(eq_of_beq hk).symm, hr⟩
  · exact hp k x hx

/-- Whatever a reference is looked up as has its key. -/
theorem tame_resolve {pool : Pool TypeRef} {r : TypeRef} (hp : Tame keys pool) (hr : Modest keys r) :
    Tame keys ((lib.catalog.resolve r).run pool).2 ∧ Modest keys ((lib.catalog.resolve r).run pool).1 ∧
      ((lib.catalog.resolve r).run pool).1.key = r.key := by
  cases h : pool.lookup r.key with
  | some first =>
    rw [resolve_of_found h]
    obtain ⟨hkey, hfirst⟩ := hp _ _ h
    exact ⟨hp, hfirst, hkey⟩
  | none =>
    rw [resolve_of_new h]
    exact ⟨tame_cons hp hr, hr, rfl⟩

/-- What bounds the recoveries from a library: the keys of all that its definitions refer to, and of these themselves. -/
structure Library.Bounded (lib : Library) (keys : Finset String) : Prop where
  reference : ∀ r ∈ lib.references, Covers keys r
  entry : ∀ e ∈ lib.entries, e.fullName ∈ keys

theorem Library.Bounded.admits (h : lib.Bounded keys) : lib.Admits (Modest keys) where
  entry _ _ := modest_named _
  around _ _ _ _ := modest_named _
  reference r hr := .inr (h.reference r hr)
  mark _ _ _ _ := modest_named _

theorem exists_definition {t : TypeRef} (h : lib.catalog.isMessage t = true ∨ lib.catalog.isEnum t = true) :
    ∃ d, lib.definitionOf? t = some d := by
  have hany : ∃ p : Definition → Bool, (lib.definitionOf? t).any p = true := by
    rcases h with h | h
    · simp only [Catalog.isMessage, Bool.and_eq_true] at h
      exact ⟨_, h.1.2⟩
    · exact ⟨_, h⟩
  obtain ⟨p, hp⟩ := hany
  cases hd : lib.definitionOf? t with
  | none => simp [hd] at hp
  | some d => exact ⟨d, rfl⟩

theorem Library.Bounded.key_mem (h : lib.Bounded keys) {t : TypeRef} (ht : Modest keys t)
    (hk : lib.catalog.isMessage t = true ∨ lib.catalog.isEnum t = true) : t.key ∈ keys := by
  rcases ht with ht | ht
  · obtain ⟨d, hd⟩ := exists_definition hk
    obtain ⟨e, he, hname, -⟩ := exists_entry_of_definition hd
    obtain ⟨name, args⟩ := t
    obtain rfl : args = [] := ht
    show name ∈ keys
    rw [← show e.fullName = name from hname]
    exact h.entry e he
  · exact ht t .refl

/-- How many of the keys are shorter than that of a reference. -/
def rankIn (keys : Finset String) (t : TypeRef) : Nat := (keys.filter (·.length < t.key.length)).card

theorem rankIn_lt {a t : TypeRef} (ha : a.key ∈ keys) (h : a.key.length < t.key.length) :
    rankIn keys a < rankIn keys t := by
  refine Finset.card_lt_card ((Finset.ssubset_iff_of_subset ?_).2 ⟨a.key, ?_, ?_⟩)
  · intro k hk
    simp only [Finset.mem_filter] at hk ⊢
    exact ⟨hk.1, hk.2.trans h⟩
  · simp [ha, h]
  · simp

/-! ## Libraries side by side -/

/-- Where two pools agree on each of some references, they agree on all of them. -/
theorem agree_resolveAll {near : Pool TypeRef → Pool TypeRef → Prop} {seen : TypeRef → Prop}
    (hresolve : ∀ r, seen r → Agree near (lib.catalog.resolve r) fun x => seen x ∧ x.key = r.key) {rs : List TypeRef}
    (hrs : ∀ r ∈ rs, seen r) :
    Agree near (lib.catalog.resolveAll rs) fun xs => ∀ x ∈ xs, seen x ∧ ∃ r ∈ rs, x.key = r.key := by
  induction rs with
  | nil => exact agree_pure (by simp)
  | cons r rest ih =>
    refine agree_bind (hresolve r (hrs r (by simp))) fun x hx => ?_
    refine agree_bind (ih fun y hy => hrs y (by simp [hy])) fun xs hxs => agree_pure ?_
    refine List.forall_mem_cons.2 ⟨⟨hx.1, r, by simp, hx.2⟩, fun y hy => ?_⟩
    obtain ⟨hy, r', hr', hkey⟩ := hxs y hy
    exact ⟨hy, r', by simp [hr'], hkey⟩

/-- Pools of a library that answer alike, as far as look-ups show it. -/
def Library.kin (lib : Library) (near : Pool TypeRef → Pool TypeRef → Prop) (seen : TypeRef → Prop)
    (hbound : lib.Bounded keys) (hadmits : lib.Admits seen) (hmodest : ∀ r, seen r → Modest keys r)
    (hargument : ∀ r, seen r → ∀ a ∈ r.args, seen a)
    (hresolve : ∀ r, seen r → Agree near (lib.catalog.resolve r) fun x => seen x ∧ x.key = r.key) :
    Kin lib.catalog where
  near := near
  seen := seen
  keys := keys
  rank := rankIn keys
  resolve r hr p p' hp := (hresolve r hr p p' hp).imp_right (And.imp_right And.left)
  declaring _ _ := hadmits.declaring
  attributes := hadmits.attributes
  fields _ _ := hadmits.field
  properties := by
    refine agree_collect hadmits (fun r hr p p' hp => ?_) fun e he isInherited p => hadmits.property he
    exact (hresolve r hr p p' hp).imp_right (And.imp_right And.left)
  arguments t ht p p' hp := by
    obtain ⟨heq, hp, hxs⟩ := agree_resolveAll hresolve (hargument t ht) p p' hp
    refine ⟨heq, hp, fun x hx => ?_⟩
    obtain ⟨hseen, a, ha, hkey⟩ := hxs x hx
    refine ⟨hseen, rankIn_lt ?_ ?_⟩
    · rw [hkey]
      exact (hmodest t ht).argument ha a .refl
    · rw [hkey]
      exact TypeRef.length_key_arg ha
  rank_le t := Finset.card_filter_le ..
  key_mem t ht hk := hbound.key_mem (hmodest t ht) hk

/-- A library with itself. -/
def Library.alone (lib : Library) (hbound : lib.Bounded keys) : Kin lib.catalog :=
  lib.kin (fun p p' => p = p' ∧ Tame keys p) (Modest keys) hbound hbound.admits (fun _ => id)
    (fun _ hr _ ha => .inr (hr.argument ha)) fun r hr => by
      rintro p _ ⟨rfl, hp⟩
      obtain ⟨hp, hx, hkey⟩ := tame_resolve hp hr
      exact ⟨rfl, ⟨rfl, hp⟩, hx, hkey⟩

/-! ## The depth that is allowed -/

/-- The keys of what there is in a library, and of some more references. -/
def Library.keysWith (lib : Library) (rs : List TypeRef) : Finset String :=
  ((TypeRef.partsAll (lib.references ++ rs)).map (·.key) ++ lib.entries.map (·.fullName)).toFinset

theorem covers_keysWith {r : TypeRef} {rs : List TypeRef} (h : r ∈ lib.references ++ rs) :
    Covers (lib.keysWith rs) r := by
  intro x hx
  rw [Library.keysWith, List.mem_toFinset, List.mem_append]
  exact .inl (List.mem_map_of_mem (TypeRef.mem_partsAll h (TypeRef.mem_parts hx)))

theorem bounded_keysWith (rs : List TypeRef) : lib.Bounded (lib.keysWith rs) where
  reference r hr := covers_keysWith (List.mem_append_left _ hr)
  entry e he := by
    rw [Library.keysWith, List.mem_toFinset, List.mem_append]
    exact .inr (List.mem_map_of_mem he)

theorem tame_keysWith {pool : Pool TypeRef} {rs : List TypeRef} (hp : Keyed pool) (hrs : ∀ x ∈ pool, x.2 ∈ rs) :
    Tame (lib.keysWith rs) pool := by
  intro k r hr
  refine ⟨hp k r hr, .inr (covers_keysWith (List.mem_append_right _ ?_))⟩
  obtain ⟨before, after, he, -⟩ := List.lookup_eq_some_iff.1 hr
  exact hrs (k, r) (he ▸ by simp)

theorem weightAll_append (rs ts : List TypeRef) :
    TypeRef.weightAll (rs ++ ts) = TypeRef.weightAll rs + TypeRef.weightAll ts := by
  induction rs with
  | nil => simp [TypeRef.weightAll]
  | cons r rest ih =>
    simp only [List.cons_append, TypeRef.weightAll, ih]
    omega

theorem card_keysWith_le (rs : List TypeRef) : (lib.keysWith rs).card ≤ lib.catalog.extent + TypeRef.weightAll rs := by
  refine (List.toFinset_card_le _).trans (le_of_eq ?_)
  rw [List.length_append, List.length_map, List.length_map, TypeRef.length_partsAll, weightAll_append]
  show _ = TypeRef.weightAll lib.references + lib.entries.length + _
  omega

/-- The references in a pool. -/
def held (pool : Pool TypeRef) : List TypeRef := pool.map (·.2)

theorem foldl_weight (pool : Pool TypeRef) (n : Nat) :
    pool.foldl (fun n (_, r) => n + lib.catalog.weight r) n = n + TypeRef.weightAll (held pool) := by
  induction pool generalizing n with
  | nil => simp [held, TypeRef.weightAll]
  | cons x rest ih =>
    rw [List.foldl_cons, ih]
    exact Nat.add_assoc n x.2.weight (TypeRef.weightAll (held rest))

/-- The depth that a recovery is allowed is enough for whatever may be left to enter. -/
theorem enough_depth (v : Kin lib.catalog) (s₁ : State TypeRef) {s : State TypeRef} {t : TypeRef}
    (h : v.keys.card ≤ lib.catalog.extent + t.weight + TypeRef.weightAll (held s.pool)) :
    v.need s₁ + (v.keys.card + 1) ≤ depthFor lib.catalog s t := by
  have hunmet : v.unmet s₁ ≤ v.keys.card := Finset.card_filter_le ..
  have hmul := Nat.mul_le_mul_right (v.keys.card + 2) hunmet
  have hdepth : depthFor lib.catalog s t =
      (lib.catalog.extent + t.weight + 3 + TypeRef.weightAll (held s.pool)) *
        (lib.catalog.extent + t.weight + 3 + TypeRef.weightAll (held s.pool)) := by
    unfold depthFor
    dsimp only
    rw [foldl_weight]
    rfl
  have hsize : v.keys.card + 3 ≤ lib.catalog.extent + t.weight + 3 + TypeRef.weightAll (held s.pool) := by omega
  have hsquare := Nat.mul_le_mul hsize hsize
  rw [hdepth, Kin.need]
  nlinarith

section Alone
variable {names : Option Identifier.Dictionary} {options : Options} {s : State TypeRef} (t : TypeRef)

/-- A library with itself, as far as the recovery of a type can go from a state. -/
abbrev Library.aloneFor (lib : Library) (s : State TypeRef) (t : TypeRef) : Kin lib.catalog :=
  lib.alone (bounded_keysWith (t :: held s.pool))

theorem seen_aloneFor (s : State TypeRef) : (lib.aloneFor s t).seen t := .inr (covers_keysWith (by simp))

theorem same_aloneFor (hs : Keyed s.pool) : (lib.aloneFor s t).Same s s :=
  ⟨rfl, rfl, rfl, rfl, tame_keysWith hs fun _ hx => List.mem_cons_of_mem _ (List.mem_map_of_mem hx)⟩

theorem enough_aloneFor (s : State TypeRef) :
    (lib.aloneFor s t).need s + ((lib.aloneFor s t).keys.card + 1) ≤ depthFor lib.catalog s t :=
  enough_depth _ s ((card_keysWith_le _).trans_eq (by rw [TypeRef.weightAll, Nat.add_assoc]))

/-- Calls that are allowed the depth for a type, or more, end alike. -/
theorem deep_aloneFor (names : Option Identifier.Dictionary) (options : Options) {depth : Nat}
    (hd : depthFor lib.catalog s t ≤ depth) :
    (lib.aloneFor s t).Deep (depthFor lib.catalog s t) (Recovery.callsWithin ⟨lib.catalog, names, options⟩ depth)
      (Recovery.callsWithin ⟨lib.catalog, names, options⟩ (depthFor lib.catalog s t)) :=
  Recovery.deep_callsWithin ⟨lib.catalog, names, options⟩ _ hd le_rfl

variable (hs : Keyed s.pool)
include hs

theorem bounded_recoverMessage (name : String) :
    (outcome (recoverMessage ⟨lib.catalog, names, options⟩ t) s).1 ≠ .error (.endlessType name) := by
  unfold recoverMessage
  rw [Recovery.outcome_callsFor]
  exact ((deep_aloneFor t names options le_rfl).message (seen_aloneFor t s) (same_aloneFor t hs)
    ((Nat.le_add_right ..).trans (enough_aloneFor t s))).bounded name

theorem bounded_recoverEnum (name : String) :
    (outcome (recoverEnum ⟨lib.catalog, names, options⟩ t) s).1 ≠ .error (.endlessType name) := by
  unfold recoverEnum
  rw [Recovery.outcome_callsFor]
  exact ((deep_aloneFor t names options le_rfl).enum (seen_aloneFor t s) (same_aloneFor t hs)
    ((Nat.le_add_right ..).trans (enough_aloneFor t s))).bounded name

end Alone

end ProtoRecovery.Managed
