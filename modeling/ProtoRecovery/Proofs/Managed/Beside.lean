import ProtoRecovery.Proofs.Managed.Depth
/-!
# Pools that differ in private types

Of two recoveries, each may look up types that the other has no part in. If no type in sight can be taken for one of
these, then whatever else is looked up is answered alike.
-/

namespace ProtoRecovery.Managed

open Catalog (Pool Look)
open Recovery (Agree Kin State)

/-- Types in sight that nothing else in sight can be taken for. -/
structure Private (own sight : TypeRef → Prop) : Prop where
  seen : ∀ x, own x → sight x
  apart : ∀ x r, own x → sight r → r.key = x.key → r = x

/-- References in a pool are in sight, and there under their own keys. -/
def Sighted (sight : TypeRef → Prop) (pool : Pool TypeRef) : Prop :=
  ∀ k r, pool.lookup k = some r → r.key = k ∧ sight r

/-- Two pools with the same types, apart from private ones. -/
structure Beside (own sight : TypeRef → Prop) (p q : Pool TypeRef) : Prop where
  left : Sighted sight p
  right : Sighted sight q
  same : ∀ k, (∀ x, own x → x.key ≠ k) → p.lookup k = q.lookup k

section Beside
variable {lib : Library} {own sight : TypeRef → Prop} {p q : Pool TypeRef}

theorem Beside.symm (h : Beside own sight p q) : Beside own sight q p :=
  ⟨h.right, h.left, fun k hk => (h.same k hk).symm⟩

theorem sighted_cons {r : TypeRef} (hp : Sighted sight p) (hr : sight r) : Sighted sight ((r.key, r) :: p) := by
  intro k x hx
  rw [List.lookup_cons] at hx
  split at hx
  · rename_i hk
    cases hx
    exact ⟨(eq_of_beq hk).symm, hr⟩
  · exact hp k x hx

variable (h : Private own sight)
include h

/-- A private type stands for itself, and looking it up makes no difference to others. -/
theorem Private.stand (q : Pool TypeRef) : Stand lib (Beside own sight · q) own := by
  intro x hx p hp
  cases hfound : p.lookup x.key with
  | some first =>
    rw [resolve_of_found hfound]
    obtain ⟨hkey, hfirst⟩ := hp.left _ _ hfound
    exact ⟨hp, h.apart x first hx hfirst hkey⟩
  | none =>
    rw [resolve_of_new hfound]
    refine ⟨⟨sighted_cons hp.left (h.seen x hx), hp.right, fun k hk => ?_⟩, rfl⟩
    rw [List.lookup_cons, beq_false_of_ne (hk x hx).symm]
    exact hp.same k hk

theorem Private.agree {r : TypeRef} (hr : sight r) :
    Agree (Beside own sight) (lib.catalog.resolve r) fun x => sight x ∧ x.key = r.key := by
  intro p q hp
  by_cases hx : ∃ x, own x ∧ x.key = r.key
  · obtain ⟨x, hx, hkey⟩ := hx
    obtain rfl := h.apart x r hx hr hkey.symm
    -- A private type is looked up on one side, and then on the other.
    have hstand : ∀ q, Stand lib (Beside own sight · q) own := h.stand
    obtain ⟨hp, hleft⟩ := hstand q r hx p hp
    obtain ⟨hq, hright⟩ := hstand _ r hx q hp.symm
    exact ⟨hleft.trans hright.symm, hq.symm, by rw [hleft]; exact ⟨hr, rfl⟩⟩
  · have hsame := hp.same r.key fun x hown hkey => hx ⟨x, hown, hkey⟩
    cases hfound : p.lookup r.key with
    | some first =>
      rw [resolve_of_found hfound, resolve_of_found (hsame ▸ hfound)]
      obtain ⟨hkey, hfirst⟩ := hp.left _ _ hfound
      exact ⟨rfl, hp, hfirst, hkey⟩
    | none =>
      rw [resolve_of_new hfound, resolve_of_new (hsame ▸ hfound)]
      refine ⟨rfl, ⟨sighted_cons hp.left hr, sighted_cons hp.right hr, fun k hk => ?_⟩, hr, rfl⟩
      rw [List.lookup_cons, List.lookup_cons]
      split
      · rfl
      · exact hp.same k hk

end Beside

variable {lib : Library} {own sight : TypeRef → Prop} {keys : Finset String}

/-- Recoveries side by side that differ in private types. -/
def Library.beside (lib : Library) (hprivate : Private own sight) (hbound : lib.Bounded keys) (hadmits : lib.Admits sight)
    (hmodest : ∀ r, sight r → Modest keys r) (hargument : ∀ r, sight r → ∀ a ∈ r.args, sight a) : Kin lib.catalog :=
  lib.kin (Beside own sight) sight hbound hadmits hmodest hargument fun _ hr => hprivate.agree hr

end ProtoRecovery.Managed
