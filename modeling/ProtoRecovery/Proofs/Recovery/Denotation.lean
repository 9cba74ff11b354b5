import ProtoRecovery.Proofs.Recovery.Visits
/-!
# What the types of properties stand for

`Denotes` says what field type a type stands for once all it refers to has been recovered: wrappers, lists and maps by
their arguments, scalars and well-known types by their names, and any other class by the declaration it has. Later
states have the same answers, so what is found for a type is what it denotes at the end.
-/

namespace ProtoRecovery.Recovery

open Schema (DeclId FieldType Scalar WellKnown)
open Catalog (Look Pool)

variable {ρ α : Type}

/-! ## Later states -/

/-- A state has all that another has: the declarations of classes, and the references met. -/
structure Later (s s' : State ρ) : Prop where
  memo : ∀ n id, s.find? n = some id → s'.find? n = some id
  pool : Extends s.pool s'.pool

section Later
variable {c : Catalog ρ} {s s₁ s' : State ρ}

theorem Later.trans (h : Later s s₁) (h' : Later s₁ s') : Later s s' :=
  ⟨fun n id hn => h'.memo n id (h.memo n id hn), h.pool.trans h'.pool⟩

/-- What is asked before a later state is answered there as it was. -/
theorem Later.of_after {q : Look ρ α} (hq : Lasts s'.pool q) (h : Later (s.after q) s') :
    Later s s' ∧ s'.answer q = s.answer q := by
  obtain ⟨hpool, hrun⟩ := hq s.pool h.pool
  refine ⟨⟨h.memo, hpool⟩, ?_⟩
  rw [State.answer, hrun]
  rfl

theorem Later.of_changed {f : Schema → Schema} (h : Later (s.changed f) s') : Later s s' := ⟨h.memo, h.pool⟩

theorem Later.of_diagnosed {type member : String} {x : Anomaly} (h : Later (s.diagnosed type member x) s') :
    Later s s' :=
  ⟨h.memo, h.pool⟩

theorem Does.later (hM : Roams c .growing) (h : Does c .growing 0 0 s s') : Later s s' := by
  have honward := h.onward hM (Schema.above_zero _)
  exact ⟨fun _ _ => lookup_of_prefix honward.memo, honward.pool⟩

end Later

/-! ## Denoted types -/

/-- What a type stands for where it is no list, map or wrapper. -/
def single? (env : Setting ρ) (s : State ρ) (t : ρ) : Option FieldType :=
  match Scalar.ofClass? (env.catalog.fullName t), WellKnown.ofClass? (env.catalog.fullName t) with
  | some k, _ => some (.scalar k)
  | none, some w => some (.wellKnown w)
  | none, none =>
    if env.catalog.isEnum t && env.options.skipEnums then some (.scalar .int32)
    else (s.find? (env.catalog.fullName t)).map .reference

section Single
variable {env : Setting ρ} {s : State ρ} {t : ρ}

theorem single?_of_scalar {k : Scalar} (h : Scalar.ofClass? (env.catalog.fullName t) = some k) :
    single? env s t = some (.scalar k) := by
  simp [single?, h]

theorem single?_of_wellKnown {w : WellKnown} (h : Scalar.ofClass? (env.catalog.fullName t) = none)
    (hw : WellKnown.ofClass? (env.catalog.fullName t) = some w) : single? env s t = some (.wellKnown w) := by
  simp [single?, h, hw]

theorem single?_of_class (h : Scalar.ofClass? (env.catalog.fullName t) = none)
    (hw : WellKnown.ofClass? (env.catalog.fullName t) = none) :
    single? env s t = if env.catalog.isEnum t && env.options.skipEnums then some (.scalar .int32)
      else (s.find? (env.catalog.fullName t)).map .reference := by
  simp [single?, h, hw]

end Single

/-- What a type stands for as the type of a field. -/
inductive Denotes (env : Setting ρ) (s : State ρ) : ρ → FieldType → Prop
  | wrapper {t : ρ} {w : WellKnown}
      (wraps : wrapper? env.catalog t (s.answer (env.catalog.argumentsOf t)) = some w) :
      Denotes env s t (.wellKnown w)
  | list {t element : ρ} {type : FieldType}
      (plain : wrapper? env.catalog t (s.answer (env.catalog.argumentsOf t)) = none)
      (argument : s.answer (env.catalog.argumentsOf t) = [element]) (inner : Denotes env s element type) :
      Denotes env s t (.repeated type)
  | map {t key value : ρ} {keyType valueType : FieldType}
      (plain : wrapper? env.catalog t (s.answer (env.catalog.argumentsOf t)) = none)
      (arguments : s.answer (env.catalog.argumentsOf t) = [key, value]) (first : Denotes env s key keyType)
      (second : Denotes env s value valueType) : Denotes env s t (.map keyType valueType)
  | single {t : ρ} {type : FieldType}
      (plain : wrapper? env.catalog t (s.answer (env.catalog.argumentsOf t)) = none)
      (one : (s.answer (env.catalog.argumentsOf t)).length ≠ 1)
      (two : (s.answer (env.catalog.argumentsOf t)).length ≠ 2) (found : single? env s t = some type) : Denotes env s t type

section Found
variable {env : Setting ρ} {calls : Calls ρ} {s s₁ s' : State ρ} {t : ρ} {source : DeclId} {type : FieldType}

theorem single?_of_gives (hM : Roams env.catalog .growing) (hcalls : Tracked env.catalog .growing calls)
    (h : Gives (singleType env calls source t) s type s₁) (hlater : Later s₁ s') :
    Later s s' ∧ single? env s' t = some type := by
  have h := gives_singleType.1 h
  -- A class that is recovered is noted, and stays so.
  have hnoted : ∀ {k target s₂}, Does env.catalog .growing 0 0 s s₂ ∧ Noted env.catalog .growing s₂ k t target →
      s₂.changed (linkFiles source target) = s₁ →
      Later s s' ∧ s'.find? (env.catalog.fullName t) = some target := by
    rintro k target s₂ ⟨hdoes, hnoted⟩ rfl
    exact ⟨(hdoes.later hM).trans hlater.of_changed, hlater.of_changed.memo _ _ hnoted.found⟩
  split at h
  · rename_i hscalar
    obtain ⟨rfl, rfl⟩ := h
    exact ⟨hlater, single?_of_scalar hscalar⟩
  · rename_i hscalar hwellKnown
    obtain ⟨rfl, rfl⟩ := h
    exact ⟨hlater.of_changed, single?_of_wellKnown hscalar hwellKnown⟩
  · rename_i hscalar hwellKnown
    rw [single?_of_class hscalar hwellKnown]
    split at h
    · rename_i henum
      split at h
      · rename_i hskip
        obtain ⟨rfl, rfl⟩ := h
        exact ⟨hlater, by simp [henum, hskip]⟩
      · rename_i hskip
        obtain ⟨target, s₂, he, rfl, hs₁⟩ := h
        obtain ⟨hs, hfound⟩ := hnoted ((hcalls.enum t trivial (Nat.zero_le _) (Nat.zero_le _)).of_gives he) hs₁
        exact ⟨hs, by simp [hskip, hfound]⟩
    · rename_i henum
      obtain ⟨target, s₂, hm, rfl, hs₁⟩ := h
      obtain ⟨hs, hfound⟩ := hnoted ((hcalls.message t trivial (Nat.zero_le _) (Nat.zero_le _)).of_gives hm) hs₁
      exact ⟨hs, by simp [henum, hfound]⟩

/-- What is found for a type is what it denotes in any later state. -/
theorem denotes_callsWithin [DecidableEq ρ] (hM : Roams env.catalog .growing) (depth : Nat)
    (h : Gives ((callsWithin env depth).fieldType source t) s type s₁) (hlater : Later s₁ s') :
    Later s s' ∧ Denotes env s' t type := by
  induction depth generalizing s t type s₁ with
  | zero => exact absurd h gives_throw
  | succ depth ih =>
    have h := gives_fieldType.1 h
    have hback : Later (s.after (env.catalog.argumentsOf t)) s' → Later s s' ∧
        s'.answer (env.catalog.argumentsOf t) = s.answer (env.catalog.argumentsOf t) :=
      Later.of_after (lasts_resolveAll _)
    split at h
    · rename_i w hw
      obtain ⟨rfl, rfl⟩ := h
      obtain ⟨hs, hsame⟩ := hback hlater.of_changed
      exact ⟨hs, .wrapper (hsame ▸ hw)⟩
    · rename_i element hw hargs
      obtain ⟨e, he, rfl⟩ := h
      obtain ⟨hs, helement⟩ := ih he hlater
      obtain ⟨hs, hsame⟩ := hback hs
      exact ⟨hs, .list (hsame ▸ hw) (hsame.trans hargs) helement⟩
    · rename_i key value hw hargs
      obtain ⟨k, s₂, v, hk, hv, rfl⟩ := h
      obtain ⟨hs, hvalue⟩ := ih hv hlater
      obtain ⟨hs, hkey⟩ := ih hk hs
      obtain ⟨hs, hsame⟩ := hback hs
      exact ⟨hs, .map (hsame ▸ hw) (hsame.trans hargs) hkey hvalue⟩
    · rename_i hw hone htwo
      obtain ⟨hs, hfound⟩ := single?_of_gives hM (tracked_callsWithin env hM depth) h hlater
      obtain ⟨hs, hsame⟩ := hback hs
      refine ⟨hs, .single (hsame ▸ hw) ?_ ?_ hfound⟩
      · rw [hsame]
        intro hlength
        obtain ⟨element, hargs⟩ := List.length_eq_one_iff.1 hlength
        exact hone element hargs
      · rw [hsame]
        intro hlength
        obtain ⟨key, value, hargs⟩ := List.length_eq_two.1 hlength
        exact htwo key value hargs

end Found

end ProtoRecovery.Recovery
