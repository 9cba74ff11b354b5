/-!
References to types by name and arguments.
-/

namespace ProtoRecovery.Managed

/-- A type by its full name, and the types it is applied to. -/
structure TypeRef where
  name : String
  args : List TypeRef
deriving Repr, Inhabited

namespace TypeRef

mutual

/-- Whether two references are the same. -/
def decEq : (a b : TypeRef) → Decidable (a = b)
  | ⟨n, xs⟩, ⟨k, ys⟩ =>
    match (inferInstance : Decidable (n = k)), decEqAll xs ys with
    | .isTrue hn, .isTrue hx => .isTrue (by rw [hn, hx])
    | .isFalse hn, _ => .isFalse fun h => hn (congrArg TypeRef.name h)
    | _, .isFalse hx => .isFalse fun h => hx (congrArg TypeRef.args h)

/-- Whether two lists of references are the same. -/
def decEqAll : (xs ys : List TypeRef) → Decidable (xs = ys)
  | [], [] => .isTrue rfl
  | [], _ :: _ => .isFalse nofun
  | _ :: _, [] => .isFalse nofun
  | x :: xs, y :: ys =>
    match decEq x y, decEqAll xs ys with
    | .isTrue hx, .isTrue hs => .isTrue (by rw [hx, hs])
    | .isFalse hx, _ => .isFalse fun h => hx (List.cons.inj h).1
    | _, .isFalse hs => .isFalse fun h => hs (List.cons.inj h).2

end

instance : DecidableEq TypeRef := decEq

/-- A reference without arguments. -/
def named (name : String) : TypeRef := ⟨name, []⟩

mutual

/-- The reference as one name: arguments in double brackets, with commas between them. -/
def key : TypeRef → String
  | ⟨name, []⟩ => name
  | ⟨name, arg :: rest⟩ => name ++ "[[" ++ arg.key ++ "]" ++ keyRest rest ++ "]"

/-- Further arguments, each after a comma. -/
def keyRest : List TypeRef → String
  | [] => ""
  | arg :: rest => ",[" ++ arg.key ++ "]" ++ keyRest rest

end

mutual

/-- How many references there are in one, itself included. -/
def weight : TypeRef → Nat
  | ⟨_, args⟩ => weightAll args + 1

/-- How many references there are in several. -/
def weightAll : List TypeRef → Nat
  | [] => 0
  | r :: rest => r.weight + weightAll rest

end

end TypeRef

end ProtoRecovery.Managed
