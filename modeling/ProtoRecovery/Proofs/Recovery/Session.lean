import ProtoRecovery.Proofs.Recovery.Derivation
/-!
# Sessions

A session asks for messages, enums and services one after the other, each with options of its own, and all
of them end well. `Reached` are the states it can be in between two requests.
-/

namespace ProtoRecovery.Recovery

open Schema (DeclId)
open Identifier (Dictionary)

variable {ρ : Type} [DecidableEq ρ] {c : Catalog ρ} {names : Option Dictionary}

/-- What may be asked for in a session. Types are given by any references to them. -/
inductive Request (ρ : Type) where
  /-- Only looks a type up. -/
  | type (r : ρ)
  | message (r : ρ) (options : Options)
  | enum (r : ρ) (options : Options)
  | service (r : ρ) (options : Options)

/-- The declaration that is asked for, if any. -/
def Request.run (c : Catalog ρ) (names : Option Dictionary) : Request ρ → Recover ρ (Option DeclId)
  | .type r => do
    let _ ← look (c.resolve r)
    return none
  | .message r options => do return some (← recoverMessage ⟨c, names, options⟩ (← look (c.resolve r)))
  | .enum r options => do return some (← recoverEnum ⟨c, names, options⟩ (← look (c.resolve r)))
  | .service r options => do return some (← recoverService ⟨c, names, options⟩ (← look (c.resolve r)))

/-- A request, made in a state, is for no service, or for one whose holder satisfies a condition. -/
def Request.Holds (c : Catalog ρ) (holder : ρ → Prop) (s : State ρ) : Request ρ → Prop
  | .service r _ => ∀ classes,
    (s.after (c.resolve r)).answer (classify c (s.answer (c.resolve r))).run = .ok classes →
      holder classes.holder
  | _ => True

omit [DecidableEq ρ] in
/-- The holder of a service can be found beforehand, from its classes. -/
theorem Request.holds_service {c : Catalog ρ} {holder : ρ → Prop} {s : State ρ} {r t : ρ} {options : Options}
    (h : ((s.after (c.resolve r)).answer (classify c (s.answer (c.resolve r))).run).toOption.map (·.holder) = some t)
    (ht : holder t) : Request.Holds c holder s (.service r options) := by
  intro classes hclasses
  rw [hclasses] at h
  rwa [show classes.holder = t from Option.some.inj h]

/-- The states between requests that all end well. A condition may be put on the holders of services. -/
inductive Reached (c : Catalog ρ) (names : Option Dictionary) (holder : ρ → Prop) : State ρ → Prop
  | start : Reached c names holder (start c)
  | step {s s' : State ρ} {q : Request ρ} {o : Option DeclId} : Reached c names holder s →
      q.Holds c holder s → Gives (q.run c names) s o s' → Reached c names holder s'

/-- What is built by deriving classes one after the other. -/
inductive Built (v : View c) : Ledger → Prop
  | nothing : Built v {}
  | more {L L' : Ledger} {k : Schema.Kind} {t : ρ} {id : DeclId} : Built v L →
      Done v (.recover k t id) L L' → Built v L'

section Requests
variable {s s' : State ρ} {v : View c} {q : Request ρ} {o : Option DeclId}

section Depth
variable {env : Setting ρ} {t : ρ} {id : DeclId}

theorem gives_callsFor {α : Type} {f : Calls ρ → Recover ρ α} {a : α} :
    Gives (callsFor env t >>= f) s a s' ↔
      Gives (f (callsWithin env (depthFor env.catalog s t))) s a s' := by
  unfold callsFor
  simp [gives_bind]

theorem gives_recoverMessage :
    Gives (recoverMessage env t) s id s' ↔
      Gives ((callsWithin env (depthFor env.catalog s t)).message t) s id s' := gives_callsFor

theorem gives_recoverEnum :
    Gives (recoverEnum env t) s id s' ↔
      Gives ((callsWithin env (depthFor env.catalog s t)).enum t) s id s' := gives_callsFor

theorem gives_recoverService :
    Gives (recoverService env t) s id s' ↔
      Gives (service env (callsWithin env (depthFor env.catalog s t)) t) s id s' := gives_callsFor

end Depth

omit [DecidableEq ρ] in
/-- A request for a declaration looks the type up first. -/
theorem gives_lookUp {r : ρ} {f : ρ → Recover ρ DeclId} :
    Gives (do return some (← f (← look (c.resolve r)))) s o s' ↔
      ∃ id, Gives (f (s.answer (c.resolve r))) (s.after (c.resolve r)) id s' ∧ some id = o := by
  rw [gives_look_bind, gives_bind]
  constructor
  · rintro ⟨id, _, h, hp⟩
    obtain ⟨rfl, rfl⟩ := gives_pure.1 hp
    exact ⟨id, h, rfl⟩
  · rintro ⟨id, h, rfl⟩
    exact ⟨id, s', h, gives_pure.2 ⟨rfl, rfl⟩⟩

/-- One request: nothing new is built, or one class is derived. -/
theorem request_faithful (h : Gives (q.run c names) s o s') (hq : q.Holds c v.holder s)
    (hs : v.sees s'.pool) :
    v.sees s.pool ∧ (s'.ledger = s.ledger ∨ ∃ k t id, Done v (.recover k t id) s.ledger s'.ledger) := by
  cases q with
  | type r =>
    simp only [Request.run, gives_look_bind, gives_pure] at h
    obtain ⟨-, rfl⟩ := h
    exact ⟨(finds_resolve r s.pool hs).1, .inl rfl⟩
  | message r options =>
    obtain ⟨id, h, -⟩ := gives_lookUp.1 h
    obtain ⟨hs₁, hd⟩ := (callsWithin_faithful v names options _).message (gives_recoverMessage.1 h) hs
    obtain ⟨hs₀, ht⟩ := finds_resolve r s.pool hs₁
    exact ⟨hs₀, .inr ⟨_, _, _, hd ht⟩⟩
  | enum r options =>
    obtain ⟨id, h, -⟩ := gives_lookUp.1 h
    obtain ⟨hs₁, hd⟩ := (callsWithin_faithful v names options _).enum (gives_recoverEnum.1 h) hs
    obtain ⟨hs₀, ht⟩ := finds_resolve r s.pool hs₁
    exact ⟨hs₀, .inr ⟨_, _, _, hd ht⟩⟩
  | service r options =>
    obtain ⟨id, h, -⟩ := gives_lookUp.1 h
    obtain ⟨hs₁, classes, hclasses, hd⟩ :=
      service_faithful (callsWithin_faithful v names options _) (gives_recoverService.1 h) hs
    obtain ⟨hs₀, ht⟩ := finds_resolve r s.pool hs₁
    exact ⟨hs₀, .inr ⟨_, _, _, hd ht (hq classes hclasses)⟩⟩

/-- A view of the state that a session reaches sees the pool that it started with. -/
theorem sees_of_reached (h : Reached c names v.holder s) (hs : v.sees s.pool) : v.sees c.pool := by
  induction h with
  | start => exact hs
  | step _ hq hg ih => exact ih (request_faithful hg hq hs).1

/-- Whatever a session reaches is built by derivations. -/
theorem built_of_reached (h : Reached c names v.holder s) (hs : v.sees s.pool) : Built v s.ledger := by
  induction h with
  | start => exact .nothing
  | step _ hq hg ih =>
    obtain ⟨hs₀, hl | ⟨k, t, id, hd⟩⟩ := request_faithful hg hq hs
    · rw [hl]
      exact ih hs₀
    · exact .more (ih hs₀) hd

end Requests

end ProtoRecovery.Recovery
