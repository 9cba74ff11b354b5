import ProtoRecovery.Schema.Basic
/-!
How a declaration is named from inside another one, and from nowhere.
-/

namespace ProtoRecovery.Schema

/-- The names of a declaration and of those around it, innermost first, ending before the first that
`stop` holds of. -/
def outward (s : Schema) (stop : DeclId → Bool) : (depth : Nat) → Option DeclId → List String
  | 0, _ => []
  | _, none => []
  | depth + 1, some id =>
    if stop id then [] else s.nameOf id :: s.outward stop depth (s.parentOf? id)

/-- Names from the outermost inwards, as one. -/
def dotted (names : List String) : String := ".".intercalate names.reverse

/-- A declaration as it is named inside another: relative to that one if it is nested there at any
depth, and from its own outermost declaration otherwise. -/
def qualify (s : Schema) (source target : DeclId) : String :=
  dotted (s.nameOf target :: s.outward (· == source) s.size (s.parentOf? target))

/-- A declaration as it is named from nowhere. -/
def fullName (s : Schema) (id : DeclId) : String :=
  "." ++ dotted (s.outward (fun _ => false) s.size (some id))

/-- A type as it is written inside a declaration. -/
def typeText (s : Schema) (source : DeclId) : FieldType → String
  | .scalar k => k.keyword
  | .wellKnown w => w.name
  | .repeated element => "repeated " ++ s.typeText source element
  | .map key value => "map<" ++ s.typeText source key ++ ", " ++ s.typeText source value ++ ">"
  | .reference target => s.qualify source target

end ProtoRecovery.Schema
