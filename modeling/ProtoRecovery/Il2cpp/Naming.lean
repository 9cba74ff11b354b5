import ProtoRecovery.Il2cpp.Table
/-!
Full names of definitions.

The name of a nested type follows that of the type around it after a slash, and its namespace is
that of the outermost type.
-/

namespace ProtoRecovery.Il2cpp

/-- How far chains of types are followed. -/
def chainLimit : Nat := 64

namespace Tables

/-- The definition around another. -/
def outer? (t : Tables) (d : TypeRow) : Option TypeRow := do
  let entry ← t.entries[← position? d.declaringType]?
  match entry.target with
  | .definition row => t.definitions[row]?
  | _ => none

/-- A definition and those around it, innermost first, with at most `limit` of the others. -/
def enclosing (t : Tables) : (limit : Nat) → TypeRow → List TypeRow
  | 0, d => [d]
  | limit + 1, d =>
    match t.outer? d with
    | none => [d]
    | some outer => d :: t.enclosing limit outer

/-- The namespace of the outermost definition, unless it is empty. -/
def namespaceOf? (t : Tables) (d : TypeRow) : Option String :=
  ((t.enclosing chainLimit d).getLast?.map (·.namespaceName)).filter (!·.isEmpty)

/-- The names of a definition and of those around it, with slashes between them. -/
def nestedName (t : Tables) (d : TypeRow) : String :=
  "/".intercalate ((t.enclosing chainLimit d).map (·.name)).reverse

/-- The full name of a definition. -/
def fullNameOf (t : Tables) (d : TypeRow) : String :=
  match t.namespaceOf? d with
  | some space => space ++ "." ++ t.nestedName d
  | none => t.nestedName d

end Tables

end ProtoRecovery.Il2cpp
