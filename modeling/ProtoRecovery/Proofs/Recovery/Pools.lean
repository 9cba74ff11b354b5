import ProtoRecovery.Proofs.Recovery.View
/-!
# Pools that only grow

A reference that got into a pool stays there under its key, so a question about types is answered from a later pool as
it was from an earlier one.
-/

namespace ProtoRecovery.Recovery

open Catalog (Look Pool Search)

variable {ρ α β : Type} {c : Catalog ρ} {p q pool : Pool ρ}

/-- Whatever one pool has, another has as well. -/
def Extends (p pool : Pool ρ) : Prop := ∀ k r, p.lookup k = some r → pool.lookup k = some r

theorem Extends.refl (p : Pool ρ) : Extends p p := fun _ _ => id

theorem Extends.trans (h₁ : Extends p q) (h₂ : Extends q pool) : Extends p pool := fun k r h => h₂ k r (h₁ k r h)

theorem extends_cons {k : String} (r : ρ) (h : p.lookup k = none) : Extends p ((k, r) :: p) := by
  intro k' x hx
  -- A new entry is put in front, so it could only hide one under its own key.
  have hk : k' ≠ k := by
    rintro rfl
    simp [h] at hx
  rwa [List.lookup_cons, beq_false_of_ne hk]

/-- The three ways to look a reference up: it has no key, its key is taken, or its key is new. -/
theorem resolve_cases (c : Catalog ρ) (r : ρ) (p : Pool ρ) :
    (c.key? r = none ∧ (c.resolve r).run p = (r, p)) ∨
      (∃ k first, c.key? r = some k ∧ p.lookup k = some first ∧ (c.resolve r).run p = (first, p)) ∨
      ∃ k, c.key? r = some k ∧ p.lookup k = none ∧ (c.resolve r).run p = (r, (k, r) :: p) := by
  cases hk : c.key? r with
  | none => exact .inl ⟨rfl, by simp [Catalog.resolve, StateT.run, hk]⟩
  | some k =>
    cases hp : p.lookup k with
    | some first => exact .inr (.inl ⟨k, first, rfl, hp, by simp [Catalog.resolve, StateT.run, hk, hp]⟩)
    | none => exact .inr (.inr ⟨k, rfl, hp, by simp [Catalog.resolve, StateT.run, hk, hp]⟩)

theorem extends_resolve (c : Catalog ρ) (r : ρ) (p : Pool ρ) : Extends p ((c.resolve r).run p).2 := by
  rcases resolve_cases c r p with ⟨-, h⟩ | ⟨k, first, -, -, h⟩ | ⟨k, -, hnew, h⟩
  · rw [h]
    exact .refl p
  · rw [h]
    exact .refl p
  · rw [h]
    exact extends_cons r hnew

/-! ## Answers that last -/

/-- A question that is answered from a later pool as it was before. -/
def Lasts (pool : Pool ρ) (q : Look ρ α) : Prop :=
  ∀ p, Extends (q.run p).2 pool → Extends p pool ∧ q.run pool = ((q.run p).1, pool)

theorem lasts_pure {a : α} : Lasts pool (pure a) := fun _ h => ⟨h, rfl⟩

theorem lasts_bind {q : Look ρ α} {f : α → Look ρ β} (hq : Lasts pool q) (hf : ∀ a, Lasts pool (f a)) :
    Lasts pool (q >>= f) := by
  intro p h
  obtain ⟨h₁, hf₁⟩ := hf (q.run p).1 (q.run p).2 h
  obtain ⟨h₀, hq₁⟩ := hq p h₁
  refine ⟨h₀, ?_⟩
  show (f (q.run pool).1).run (q.run pool).2 = _
  rw [hq₁]
  exact hf₁

/-- The same for questions that may fail. -/
theorem lasts_search_bind {q : Search ρ α} {f : α → Search ρ β} (hq : Lasts pool q.run)
    (hf : ∀ a, Lasts pool (f a).run) : Lasts pool (q >>= f).run := by
  show Lasts pool (q.run >>= ExceptT.bindCont f)
  refine lasts_bind hq fun r => ?_
  cases r with
  | error e => exact lasts_pure
  | ok a => exact hf a

theorem lasts_lift {q : Look ρ α} (hq : Lasts pool q) : Lasts pool (liftM q : Search ρ α).run :=
  lasts_bind hq fun _ => lasts_pure

theorem lasts_resolve (r : ρ) : Lasts pool (c.resolve r) := by
  intro p h
  refine ⟨(extends_resolve c r p).trans h, ?_⟩
  rcases resolve_cases c r p with ⟨hk, hp⟩ | ⟨k, first, hk, hfirst, hp⟩ | ⟨k, hk, hnew, hp⟩
  · rw [hp]
    simp [Catalog.resolve, StateT.run, hk]
  · rw [hp] at h ⊢
    simp [Catalog.resolve, StateT.run, hk, h _ _ hfirst]
  · rw [hp] at h ⊢
    simp [Catalog.resolve, StateT.run, hk, h k r (by simp)]

theorem lasts_resolve? (o : Option ρ) : Lasts pool (c.resolve? o) := by
  cases o with
  | none => exact lasts_pure
  | some r => exact lasts_bind (lasts_resolve r) fun _ => lasts_pure

theorem lasts_resolveAll (rs : List ρ) : Lasts pool (c.resolveAll rs) := by
  induction rs with
  | nil => exact lasts_pure
  | cons r rest ih => exact lasts_bind (lasts_resolve r) fun _ => lasts_bind ih fun _ => lasts_pure

theorem lasts_owner? (t : ρ) : Lasts pool (owner? c t) := by
  refine lasts_bind (lasts_bind (lasts_resolve? _) fun o => ?_) fun _ => lasts_pure
  cases o with
  | none => exact lasts_pure
  | some outer =>
    dsimp only
    split
    · exact lasts_resolve? _
    · exact lasts_pure

theorem lasts_readAttributes (attributes : Catalog.Attributes ρ) : Lasts pool (c.readAttributes attributes).run := by
  cases attributes with
  | error e => exact lasts_pure
  | ok attributes =>
    refine lasts_lift ?_
    induction attributes with
    | nil => exact lasts_pure
    | cons a rest ih => exact lasts_bind (lasts_resolve a.type) fun _ => lasts_bind ih fun _ => lasts_pure

theorem lasts_isCaseEnum [DecidableEq ρ] (t type : ρ) : Lasts pool (isCaseEnum c t type) := by
  unfold isCaseEnum
  split
  · exact lasts_bind (lasts_resolve? _) fun _ => lasts_pure
  · exact lasts_pure

theorem lasts_hasPresence (rest : List (Catalog.Property ρ)) : Lasts pool (hasPresence c rest) := by
  cases rest with
  | nil => exact lasts_pure
  | cons next rest =>
    unfold hasPresence
    dsimp only
    split
    · exact lasts_pure
    · exact lasts_bind (lasts_resolve next.type) fun _ => lasts_pure

theorem lasts_classify (t : ρ) : Lasts pool (classify c t).run := by
  unfold classify
  split
  · refine lasts_search_bind (lasts_lift (lasts_resolveAll _)) fun nested => ?_
    split
    · exact lasts_pure
    · split
      · exact lasts_pure
      · exact lasts_pure
  · refine lasts_search_bind (lasts_lift (lasts_resolve? _)) fun o => ?_
    cases o with
    | none => exact lasts_pure
    | some holder => exact lasts_pure

end ProtoRecovery.Recovery
