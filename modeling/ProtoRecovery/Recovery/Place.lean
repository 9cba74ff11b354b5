import ProtoRecovery.Recovery.State
/-!
Where a declaration belongs.

A class declared in a message class belongs to that message, also through a holder class between
them. Every other class starts a file.
-/

namespace ProtoRecovery.Recovery

open Schema (DeclId)

variable {ρ : Type}

/-- The class around another, past one holder. -/
def enclosing? (c : Catalog ρ) (t : ρ) : Catalog.Look ρ (Option ρ) := do
  match ← c.declaringOf? t with
  | none => return none
  | some outer => if c.isHolder outer then c.declaringOf? outer else return some outer

/-- The message class that a class belongs to. -/
def owner? (c : Catalog ρ) (t : ρ) : Catalog.Look ρ (Option ρ) := do
  return (← enclosing? c t).filter c.isMessage

/-- Puts the declaration of a class where it belongs. -/
def place (env : Setting ρ) (calls : Calls ρ) (t : ρ) (id : DeclId) : Recover ρ Unit := do
  match ← look (owner? env.catalog t) with
  | some owner =>
    let parent ← calls.message owner
    change (·.nest parent id)
  | none => startFile env.catalog t id

end ProtoRecovery.Recovery
