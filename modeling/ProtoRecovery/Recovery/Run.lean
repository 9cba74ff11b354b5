import ProtoRecovery.Catalog.Candidate
import ProtoRecovery.Recovery.FieldType
import ProtoRecovery.Recovery.Message
import ProtoRecovery.Recovery.Service
/-!
Recovery as a whole.

Messages, enums and field types refer to each other. Every class is entered once, and the arguments
of a type are smaller than the type, so a depth that grows with the square of what there is to see
is always enough, unless the arguments of a type lead back to it.
-/

namespace ProtoRecovery.Recovery

open Schema (DeclId)

variable {ρ : Type} [DecidableEq ρ]

/-- The steps that refer to each other, to a depth. -/
def callsWithin (env : Setting ρ) : (depth : Nat) → Calls ρ
  | 0 =>
    { message := fun t => throw (.endlessType (env.catalog.fullName t))
      enum := fun t => throw (.endlessType (env.catalog.fullName t))
      fieldType := fun _ t => throw (.endlessType (env.catalog.fullName t)) }
  | depth + 1 =>
    { message := fun t => message env (callsWithin env depth) t
      enum := fun t => enum env (callsWithin env depth) t
      fieldType := fun source t => fieldType env (callsWithin env depth) source t }

/-- A depth that is enough for a type. -/
def depthFor (c : Catalog ρ) (s : State ρ) (t : ρ) : Nat :=
  let size := s.pool.foldl (fun n (_, r) => n + c.weight r) (c.extent + c.weight t + 3)
  size * size

/-- The steps that refer to each other, deep enough for a type. -/
def callsFor (env : Setting ρ) (t : ρ) : Recover ρ (Calls ρ) :=
  return callsWithin env (depthFor env.catalog (← get) t)

/-- Nothing recovered yet. -/
def start (c : Catalog ρ) : State ρ := { pool := c.pool }

/-- Recovers a message and all that it refers to. -/
def recoverMessage (env : Setting ρ) (t : ρ) : Recover ρ DeclId := do
  (← callsFor env t).message t

/-- Recovers an enum. -/
def recoverEnum (env : Setting ρ) (t : ρ) : Recover ρ DeclId := do (← callsFor env t).enum t

/-- Recovers a service and all that it refers to. -/
def recoverService (env : Setting ρ) (t : ρ) : Recover ρ DeclId := do
  service env (← callsFor env t) t

end ProtoRecovery.Recovery
