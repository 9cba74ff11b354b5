import ProtoRecovery.Identifier.Basic
import ProtoRecovery.Json.Value
/-!
Schema names for generated identifiers.

A dictionary of known names is asked first, by simple name. An obfuscated identifier stands for
itself. Everything else follows the generator's spelling rules backwards.
-/

namespace ProtoRecovery.Identifier

/-- Known names, one for each key. -/
structure Dictionary where
  entries : List (String × String)
deriving DecidableEq, Repr

namespace Dictionary

/-- The name of a key. -/
def get? (d : Dictionary) (key : String) : Option String := d.entries.lookup key

/-- Number of keys. -/
def size (d : Dictionary) : Nat := d.entries.length

/-- Gives a key its name, in place of an earlier one. -/
def insert (d : Dictionary) (key name : String) : Dictionary :=
  ⟨d.entries.filter (·.1 != key) ++ [(key, name)]⟩

/-- The members of a JSON object whose values are all strings; of equal keys the last counts. -/
def ofJson? : Json → Option Dictionary
  | .object members =>
    members.foldlM (fun d (key, value) =>
      match value with
      | .string name => some (d.insert key name)
      | _ => none) ⟨[]⟩
  | _ => none

end Dictionary

/-- The known name of an identifier. -/
def known? (names : Option Dictionary) (name : String) : Option String :=
  names.bind (·.get? (simple name))

/-- The known name, or the identifier itself if it is obfuscated. -/
def fixed? (names : Option Dictionary) (name : String) : Option String :=
  (known? names name).or (if isObfuscated name then some name else none)

/-- The name of a declaration or a method. -/
def typeName (names : Option Dictionary) (name : String) : String :=
  (known? names name).getD (simple name)

/-- The name of the field that a property stands for. -/
def fieldName (names : Option Dictionary) (property : String) : String :=
  (fixed? names property).getD (lowerWords property)

/-- The name of the choice that a property tells about. -/
def choiceName (names : Option Dictionary) (property : String) : String :=
  match fixed? names property with
  | some name => trimChoice name
  | none => lowerWords (trimChoice property)

/-- The name of an enum value, which starts with the name of its enum. -/
def memberName (names : Option Dictionary) (member enum : String) : String :=
  match fixed? names member with
  | some name => name
  | none => (if isObfuscated enum then enum else upperWords enum) ++ "_" ++ upperWords member

end ProtoRecovery.Identifier
