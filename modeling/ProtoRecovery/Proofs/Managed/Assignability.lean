import ProtoRecovery.Proofs.Managed.Key
/-!
# Chains of interfaces and bases

Whether values of one type are values of another is searched for along interfaces and bases. These may branch and lead
back to where they came from, so the search only goes so far. It looks references up on its way, and what a reference is
looked up as depends on what was looked up before. Where no two references share a key it does not: then the search finds
a type just when a chain of that length leads to it.
-/

namespace ProtoRecovery.Managed

open Catalog (Look Pool)

variable {lib : Library} {pool : Pool TypeRef} {limit : Nat} {a b : TypeRef}

namespace Library

/-- A type is right above another: an interface or the base in the definition of that is looked up as it. -/
def Above (lib : Library) (pool : Pool TypeRef) (t u : TypeRef) : Prop :=
  ∃ d, lib.definitionOf? t = some d ∧
    ∃ r ∈ d.interfaces ++ d.baseType.toList, ((lib.catalog.resolve r).run pool).1 = u

/-- A chain of types, each right above the one before, leads from one type to another in at most so many steps. -/
def Ascends (lib : Library) (pool : Pool TypeRef) (limit : Nat) (a b : TypeRef) : Prop :=
  ∃ ts : List TypeRef, ts.length ≤ limit ∧ (a :: ts).IsChain (lib.Above pool) ∧ (a :: ts).getLast (by simp) = b

/-- The references of a library are looked up in a pool as they are in another. -/
def LooksAlike (lib : Library) (pool other : Pool TypeRef) : Prop :=
  ∀ r ∈ lib.references, ((lib.catalog.resolve r).run other).1 = ((lib.catalog.resolve r).run pool).1

end Library

/-! ## Chains -/

theorem ascends_refl (a : TypeRef) : lib.Ascends pool limit a a := ⟨[], Nat.zero_le _, .singleton a, rfl⟩

theorem ascends_zero : lib.Ascends pool 0 a b ↔ a = b := by
  constructor
  · rintro ⟨ts, hlength, -, hlast⟩
    obtain rfl := List.eq_nil_of_length_eq_zero (Nat.le_zero.1 hlength)
    exact hlast
  · rintro rfl
    exact ascends_refl a

/-- A chain ends at once, or goes on from a type right above. -/
theorem ascends_succ : lib.Ascends pool (limit + 1) a b ↔
    a = b ∨ ∃ u, lib.Above pool a u ∧ lib.Ascends pool limit u b := by
  constructor
  · rintro ⟨ts, hlength, hchain, hlast⟩
    cases ts with
    | nil => exact .inl hlast
    | cons u rest =>
      obtain ⟨habove, hrest⟩ := List.isChain_cons_cons.1 hchain
      refine .inr ⟨u, habove, rest, Nat.le_of_succ_le_succ hlength, hrest, ?_⟩
      rwa [List.getLast_cons (by simp)] at hlast
  · rintro (rfl | ⟨u, habove, rest, hlength, hchain, hlast⟩)
    · exact ascends_refl a
    · refine ⟨u :: rest, Nat.succ_le_succ hlength, List.isChain_cons_cons.2 ⟨habove, hchain⟩, ?_⟩
      rwa [List.getLast_cons (by simp)]

/-! ## The search -/

theorem resolve_fst (r : TypeRef) (p : Pool TypeRef) :
    ((lib.catalog.resolve r).run p).1 = (p.lookup r.key).getD r := by
  cases h : p.lookup r.key with
  | none => rw [resolve_of_new h, Option.getD_none]
  | some first => rw [resolve_of_found h, Option.getD_some]

/-- Among references that share no key, looking one up changes nothing for the others. -/
theorem answers_resolve_alike (h : Apart (· ∈ lib.references)) {r : TypeRef} (hr : r ∈ lib.references) :
    Answers (lib.LooksAlike pool) (lib.catalog.resolve r) (· = ((lib.catalog.resolve r).run pool).1) := by
  intro p hp
  refine ⟨fun t ht => ?_, hp r hr⟩
  rw [← hp t ht]
  cases hfound : p.lookup r.key with
  | some first => rw [resolve_of_found hfound]
  | none =>
    rw [resolve_of_new hfound, resolve_fst, resolve_fst, List.lookup_cons]
    cases hkey : t.key == r.key with
    | false => rfl
    | true =>
      obtain rfl : t = r := h t r ht hr (eq_of_beq hkey)
      rw [hfound]
      rfl

theorem answers_anyM {α : Type} {kind : Pool TypeRef → Prop} {f : α → Look TypeRef Bool} {P : α → Prop} {l : List α}
    (hf : ∀ x ∈ l, Answers kind (f x) (· = true ↔ P x)) : Answers kind (l.anyM f) (· = true ↔ ∃ x ∈ l, P x) := by
  induction l with
  | nil => exact answers_pure (by simp)
  | cons x rest ih =>
    rw [List.anyM]
    refine answers_bind (hf x (by simp)) fun found hfound => ?_
    cases found with
    | true => exact answers_pure (by simp [hfound.1 rfl])
    | false =>
      have hx : ¬P x := fun hx => Bool.false_ne_true (hfound.2 hx)
      intro p hp
      obtain ⟨hp, hrest⟩ := ih (fun y hy => hf y (by simp [hy])) p hp
      exact ⟨hp, hrest.trans (by simp [hx])⟩

theorem mem_references_of_above {d : Definition} {r t : TypeRef} (hd : lib.definitionOf? t = some d)
    (hr : r ∈ d.interfaces ++ d.baseType.toList) : r ∈ lib.references := by
  obtain ⟨e, he, rfl⟩ := Option.map_eq_some_iff.1 hd
  refine List.mem_flatMap.2 ⟨e, List.mem_of_find?_eq_some he, ?_⟩
  simp only [Definition.references, List.mem_append] at hr ⊢
  exact .inl (.inl hr.symm)

/-- The induction is on how far the search may still go; the type that it has come to varies. -/
theorem answers_isAssignable (h : Apart (· ∈ lib.references)) (target : TypeRef) (limit : Nat) (t : TypeRef) :
    Answers (lib.LooksAlike pool) (lib.isAssignable target limit t) (· = true ↔ lib.Ascends pool limit t target) := by
  induction limit generalizing t with
  | zero =>
    unfold Library.isAssignable
    split
    · rename_i heq
      exact answers_pure (by simp [ascends_zero, heq])
    · rename_i hne
      exact answers_pure (by simp [ascends_zero, hne])
  | succ limit ih =>
    unfold Library.isAssignable
    split
    · rename_i heq
      exact answers_pure (by simp [ascends_succ, heq])
    · rename_i hne
      cases hd : lib.definitionOf? t with
      | none => exact answers_pure (by simp [ascends_succ, hne, Library.Above, hd])
      | some d =>
        have habove : lib.Ascends pool (limit + 1) t target ↔ ∃ r ∈ d.interfaces ++ d.baseType.toList,
            lib.Ascends pool limit ((lib.catalog.resolve r).run pool).1 target := by
          rw [ascends_succ, or_iff_right hne]
          constructor
          · rintro ⟨_, ⟨d', hd', r, hr, rfl⟩, hrest⟩
            obtain rfl := Option.some.inj (hd.symm.trans hd')
            exact ⟨r, hr, hrest⟩
          · rintro ⟨r, hr, hrest⟩
            exact ⟨_, ⟨d, hd, r, hr, rfl⟩, hrest⟩
        rw [habove]
        refine answers_anyM fun r hr => ?_
        refine answers_bind (answers_resolve_alike h (mem_references_of_above hd hr)) ?_
        rintro _ rfl
        exact ih _

/-- In a library without brackets in names, a type is found to be assignable to another just when a chain leads from it to
the other that is not too long, whatever was looked up before. -/
theorem isAssignable_iff_ascends (lib : Library) (hnames : ∀ r ∈ lib.references, r.Spelled) (pool : Pool TypeRef)
    (a b : TypeRef) :
    ((lib.catalog.isAssignable a b).run pool).1 = true ↔ lib.Ascends pool chainLimit a b := by
  have hapart : Apart (· ∈ lib.references) := fun r t hr ht hkey => (hnames r hr).eq_of_key (hnames t ht) hkey
  exact (answers_isAssignable hapart b chainLimit a pool fun _ _ => rfl).2

/-- One class of a ring. -/
def ringClass (n : Nat) : TypeRef := .named ("C" ++ n.repr)

/-- Classes that derive from one another in a ring of 66. -/
def ringAssembly : Assembly where
  name := "App"
  types := (List.range 66).map fun n => { name := (ringClass n).name, baseType := some (ringClass ((n + 1) % 66)) }

/-- The assembly loaded as a support. -/
def baseRing : Library := .ofAssemblies [] [ringAssembly]

/-- The class 64 steps ahead is found, and the one a step further, though a chain of 65 steps leads to it, is not. -/
theorem baseRing_ascends :
    Library.load [] [ringAssembly] = .ok baseRing ∧ (∀ r ∈ baseRing.references, r.Spelled) ∧
      ((baseRing.catalog.isAssignable (ringClass 0) (ringClass 64)).run baseRing.catalog.pool).1 = true ∧
      baseRing.Ascends baseRing.catalog.pool 64 (ringClass 0) (ringClass 64) ∧
      ((baseRing.catalog.isAssignable (ringClass 0) (ringClass 65)).run baseRing.catalog.pool).1 = false ∧
      ¬baseRing.Ascends baseRing.catalog.pool 64 (ringClass 0) (ringClass 65) := by
  have hnames : ∀ r ∈ baseRing.references, r.Spelled := by decide +kernel
  have hruns : ((baseRing.catalog.isAssignable (ringClass 0) (ringClass 64)).run baseRing.catalog.pool).1 = true ∧
      ((baseRing.catalog.isAssignable (ringClass 0) (ringClass 65)).run baseRing.catalog.pool).1 = false := by
    decide +kernel
  obtain ⟨hnear, hfar⟩ := hruns
  refine ⟨rfl, hnames, hnear, (isAssignable_iff_ascends baseRing hnames _ _ _).1 hnear, hfar, fun hchain => ?_⟩
  have hfound := (isAssignable_iff_ascends baseRing hnames _ _ _).2 hchain
  rw [hfar] at hfound
  cases hfound

end ProtoRecovery.Managed
