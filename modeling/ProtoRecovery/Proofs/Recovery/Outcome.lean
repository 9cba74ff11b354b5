import Mathlib
import ProtoRecovery.Recovery.Run
/-!
# Steps that end well

`Gives m s a s'` says that the step `m`, taken in state `s`, ends well with `a` in state `s'`. Each way
of building steps has one lemma that takes such a fact apart, so nothing further on looks at the monad.
-/

namespace ProtoRecovery.Recovery

open Schema (DeclId Body)
open Catalog (Look Search)

variable {ρ α β : Type}

/-- How a step taken in a state ends, and in which state. -/
def outcome (m : Recover ρ α) (s : State ρ) : Except Error α × State ρ := m.run.run s

/-- A step taken in one state ends well, with a result and in another state. -/
def Gives (m : Recover ρ α) (s : State ρ) (a : α) (s' : State ρ) : Prop := outcome m s = (.ok a, s')

theorem run_bind {ε σ : Type} (m : ExceptT ε (StateM σ) α) (f : α → ExceptT ε (StateM σ) β) (s : σ) :
    (m >>= f).run.run s =
      match m.run.run s with
      | (.ok a, s₁) => (f a).run.run s₁
      | (.error e, s₁) => (.error e, s₁) := by
  unfold ExceptT.run StateT.run
  simp only [bind, ExceptT.bind, ExceptT.mk, StateT.bind, ExceptT.bindCont]
  rcases m s with ⟨e | x, s₁⟩ <;> rfl

theorem outcome_bind (m : Recover ρ α) (f : α → Recover ρ β) (s : State ρ) :
    outcome (m >>= f) s =
      match outcome m s with
      | (.ok a, s₁) => outcome (f a) s₁
      | (.error e, s₁) => (.error e, s₁) := by
  unfold outcome
  rw [run_bind]
  rcases m.run.run s with ⟨e | x, s₁⟩ <;> rfl

section Gives
variable {m : Recover ρ α} {s s' : State ρ} {a : α} {b : β}

theorem Gives.unique {a₁ a₂ : α} {s₁ s₂ : State ρ} (h₁ : Gives m s a₁ s₁) (h₂ : Gives m s a₂ s₂) :
    a₁ = a₂ ∧ s₁ = s₂ := by
  unfold Gives at h₁ h₂
  rw [h₁] at h₂
  simpa using h₂

theorem gives_of_outcome (h : (outcome m s).1.toOption = some a) :
    Gives m s a (outcome m s).2 := by
  unfold Gives
  cases ho : outcome m s with
  | mk r s' =>
    cases r with
    | error e => simp [ho, Except.toOption] at h
    | ok b =>
      simp only [ho, Except.toOption, Option.some.injEq] at h
      rw [h]

@[simp] theorem gives_pure {x : α} : Gives (pure x) s a s' ↔ x = a ∧ s = s' := by
  show ((Except.ok x, s) : Except Error α × State ρ) = (.ok a, s') ↔ _
  simp

@[simp] theorem gives_throw {e : Error} : ¬Gives (throw e : Recover ρ α) s a s' := by
  show ¬((Except.error e, s) : Except Error α × State ρ) = (.ok a, s')
  simp

theorem gives_bind {f : α → Recover ρ β} :
    Gives (m >>= f) s b s' ↔ ∃ a s₁, Gives m s a s₁ ∧ Gives (f a) s₁ b s' := by
  unfold Gives
  rw [outcome_bind]
  rcases outcome m s with ⟨e | x, s₁⟩
  · simp
  · constructor
    · exact fun h => ⟨x, s₁, rfl, h⟩
    · rintro ⟨_, _, h, h'⟩
      cases h
      exact h'

@[simp] theorem gives_get {x : State ρ} : Gives (get : Recover ρ (State ρ)) s x s' ↔ s = x ∧ s = s' := by
  show ((Except.ok s, s) : Except Error (State ρ) × State ρ) = (.ok x, s') ↔ _
  simp

@[simp] theorem gives_modify {f : State ρ → State ρ} {u : Unit} :
    Gives (modify f : Recover ρ Unit) s u s' ↔ f s = s' := by
  show ((Except.ok ⟨⟩, f s) : Except Error PUnit × State ρ) = (.ok u, s') ↔ _
  simp

end Gives

/-! ## Steps of a recovery -/

namespace State
variable (s : State ρ)

/-- What a question about types is answered in a state. -/
def answer (q : Look ρ α) : α := (q.run s.pool).1

/-- The state after a question about types. -/
def after (q : Look ρ α) : State ρ := { s with pool := (q.run s.pool).2 }

/-- The state with a changed schema. -/
def changed (f : Schema → Schema) : State ρ := { s with schema := f s.schema }

/-- The state with one more anomaly noted. -/
def diagnosed (type member : String) (x : Anomaly) : State ρ :=
  { s with diagnostics := s.diagnostics ++ [⟨type, member, x⟩] }

/-- The state with one more declaration, noted for a class. -/
def declared (fullName name : String) (isDeprecated : Bool) (body : Body) : State ρ :=
  { s with
    schema := s.schema.declare name isDeprecated body
    memo := s.memo ++ [(fullName, s.schema.size)] }

end State

section Steps
variable {s s' : State ρ}

@[simp] theorem gives_look {q : Look ρ α} {a : α} :
    Gives (look q) s a s' ↔ s.answer q = a ∧ s.after q = s' := by
  show ((Except.ok (s.answer q), s.after q) : Except Error α × State ρ) = (.ok a, s') ↔ _
  simp

theorem outcome_search (q : Search ρ α) (s : State ρ) :
    outcome (search q) s = (s.answer q.run, s.after q.run) := by
  have hlook : outcome (look q.run) s = (.ok (s.answer q.run), s.after q.run) := rfl
  unfold search
  rw [outcome_bind, hlook]
  dsimp only
  cases s.answer q.run <;> rfl

@[simp] theorem gives_search {q : Search ρ α} {a : α} :
    Gives (search q) s a s' ↔ s.answer q.run = .ok a ∧ s.after q.run = s' := by
  rw [Gives, outcome_search]
  simp

@[simp] theorem gives_known {fullName : String} {o : Option DeclId} :
    Gives (known? fullName : Recover ρ _) s o s' ↔ s.find? fullName = o ∧ s = s' := by
  show ((Except.ok (s.find? fullName), s) : Except Error _ × State ρ) = (.ok o, s') ↔ _
  simp

@[simp] theorem gives_diagnose {type member : String} {x : Anomaly} {u : Unit} :
    Gives (diagnose type member x : Recover ρ Unit) s u s' ↔ s.diagnosed type member x = s' := gives_modify

@[simp] theorem gives_change {f : Schema → Schema} {u : Unit} :
    Gives (change f : Recover ρ Unit) s u s' ↔ s.changed f = s' := gives_modify

@[simp] theorem gives_declare {fullName name : String} {isDeprecated : Bool} {body : Body} {id : DeclId} :
    Gives (declare fullName name isDeprecated body : Recover ρ DeclId) s id s' ↔
      s.schema.size = id ∧ s.declared fullName name isDeprecated body = s' := by
  show ((Except.ok s.schema.size, s.declared fullName name isDeprecated body) :
    Except Error DeclId × State ρ) = (.ok id, s') ↔ _
  simp

/-! A question or a change followed by more steps. -/

theorem gives_look_bind {q : Look ρ α} {f : α → Recover ρ β} {b : β} :
    Gives (look q >>= f) s b s' ↔ Gives (f (s.answer q)) (s.after q) b s' := by
  simp [gives_bind]

theorem gives_search_bind {q : Search ρ α} {f : α → Recover ρ β} {b : β} :
    Gives (search q >>= f) s b s' ↔
      ∃ a, s.answer q.run = .ok a ∧ Gives (f a) (s.after q.run) b s' := by
  simp [gives_bind]

theorem gives_diagnose_bind {type member : String} {x : Anomaly} {f : Unit → Recover ρ β} {b : β} :
    Gives (diagnose type member x >>= f) s b s' ↔ Gives (f ()) (s.diagnosed type member x) b s' := by
  rw [gives_bind]
  constructor
  · rintro ⟨_, _, h, hf⟩
    rw [gives_diagnose.1 h]
    exact hf
  · exact fun hf => ⟨(), _, gives_diagnose.2 rfl, hf⟩

/-! A question that is made of questions. -/

theorem outcome_search_seq (q : Search ρ α) (f : α → Search ρ β) :
    outcome (search (q >>= f)) s = outcome (search q >>= fun a => search (f a)) s := by
  rw [outcome_bind, outcome_search, outcome_search]
  unfold State.answer State.after
  rw [run_bind]
  rcases q.run.run s.pool with ⟨e | a, pool⟩
  · rfl
  · exact (outcome_search (f a) { s with pool }).symm

theorem gives_search_seq {q : Search ρ α} {f : α → Search ρ β} {b : β} :
    Gives (search (q >>= f)) s b s' ↔ ∃ a s₁, Gives (search q) s a s₁ ∧ Gives (search (f a)) s₁ b s' := by
  rw [Gives, outcome_search_seq, ← gives_bind, Gives]

@[simp] theorem gives_search_pure {x a : α} : Gives (search (pure x) : Recover ρ α) s a s' ↔ x = a ∧ s = s' := gives_pure

theorem gives_search_lift {q : Look ρ α} {a : α} :
    Gives (search (liftM q)) s a s' ↔ s.answer q = a ∧ s.after q = s' := gives_look

end Steps

/-! ## One step after another -/

section Through
variable {ι σ : Type} {step : ι → List ι → σ → Recover ρ σ} {l : List ι} {w w' : σ} {s s' : State ρ}

/-- The induction behind all that is said of going through a list: what holds when nothing is left, of a step that
fails, and before a step that ends well if it holds behind it, holds of the whole. -/
theorem outcome_stepThrough {J : List ι → σ → State ρ → Except Error σ × State ρ → Prop}
    (done : ∀ w s, J [] w s (.ok w, s))
    (failed : ∀ {i rest w s e s₁}, outcome (step i rest w) s = (.error e, s₁) → J (i :: rest) w s (.error e, s₁))
    (went : ∀ {i rest w s w₁ s₁ r}, Gives (step i rest w) s w₁ s₁ → J rest w₁ s₁ r → J (i :: rest) w s r) :
    J l w s (outcome (stepThrough step l w) s) := by
  induction l generalizing w s with
  | nil => exact done w s
  | cons i rest ih =>
    rw [stepThrough, outcome_bind]
    cases hstep : outcome (step i rest w) s with
    | mk r s₁ =>
      cases r with
      | error e => exact failed hstep
      | ok w₁ => exact went hstep ih

theorem gives_stepThrough {J : List ι → σ → State ρ → σ → State ρ → Prop} (done : ∀ w s, J [] w s w s)
    (went : ∀ {i rest w s w₁ s₁ w' s'}, Gives (step i rest w) s w₁ s₁ → J rest w₁ s₁ w' s' → J (i :: rest) w s w' s')
    (h : Gives (stepThrough step l w) s w' s') : J l w s w' s' := by
  have hall : ∀ w' s', outcome (stepThrough step l w) s = (.ok w', s') → J l w s w' s' :=
    outcome_stepThrough (J := fun l w s r => ∀ w' s', r = (.ok w', s') → J l w s w' s')
      (fun w s => by rintro _ _ ⟨⟩; exact done w s) (fun _ => nofun)
      fun hstep hrest w' s' hr => went hstep (hrest w' s' hr)
  exact hall w' s' h

/-- What each step leaves of a state, and one after another, is left in the end. -/
theorem stepThrough_trans {R : State ρ → State ρ → Prop} (refl : ∀ s, R s s)
    (trans : ∀ {s s₁ s'}, R s s₁ → R s₁ s' → R s s') (hstep : ∀ {i rest w s w₁ s₁}, Gives (step i rest w) s w₁ s₁ → R s s₁)
    (h : Gives (stepThrough step l w) s w' s') : R s s' :=
  gives_stepThrough (J := fun _ _ s _ s' => R s s') (fun _ s => refl s) (fun h hrest => trans (hstep h) hrest) h

theorem gives_stepThrough_nil : Gives (stepThrough step [] w) s w' s' ↔ w = w' ∧ s = s' := gives_pure

theorem gives_stepThrough_cons {i : ι} {rest : List ι} :
    Gives (stepThrough step (i :: rest) w) s w' s' ↔
      ∃ w₁ s₁, Gives (step i rest w) s w₁ s₁ ∧ Gives (stepThrough step rest w₁) s₁ w' s' := gives_bind

end Through

end ProtoRecovery.Recovery
