import ProtoRecovery.Dump.Il2cpp
import ProtoRecovery.Dump.Managed
import ProtoRecovery.Error
import ProtoRecovery.Json.Reader
/-!
Metadata dumps: JSON objects that name the kind of metadata they hold under `backend`.
-/

namespace ProtoRecovery

/-- Metadata of one of two kinds. -/
inductive Dump where
  /-- Assemblies to be examined, and assemblies that only support them. -/
  | managed (targets supports : List Managed.Assembly)
  /-- Tables of compiled metadata. -/
  | il2cpp (tables : Il2cpp.Tables)

namespace Dump

/-- The name of a kind of metadata. -/
def kindName : Dump → String
  | .managed .. => "clr"
  | .il2cpp _ => "il2cpp"

/-- A dump out of JSON that nests no deeper than the text of a file may. -/
def ofJson? (j : Json) : Option Dump := do
  guard (j.depth ≤ Json.depthLimit)
  let r ← j.record?
  match ← r.required "backend" Json.string? with
  | "clr" =>
    return .managed (← r.list "assemblies" assembly?) (← r.list "references" assembly?)
  | "il2cpp" => return .il2cpp (← tables? r)
  | _ => none

/-- A dump out of text. -/
def read (text : String) : Except Error Dump :=
  match (Json.read? text).bind ofJson? with
  | some dump => .ok dump
  | none => .error .unreadableDump

end Dump

end ProtoRecovery
