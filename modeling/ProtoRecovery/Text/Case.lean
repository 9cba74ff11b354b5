import ProtoRecovery.Text.CaseTable
/-!
Upper and lower case of single characters, by the full Unicode rules: the case of one character may
be several.
-/

namespace ProtoRecovery.Text

/-- The case of a character by a table of expansions and a table of runs. -/
def mapCase (expansions : List (Nat × List Nat)) (runs : List CaseRun) (c : Char) : List Char :=
  match expansions.lookup c.toNat with
  | some cs => cs.map Char.ofNat
  | none =>
    match runs.find? (·.contains c.toNat) with
    | some r => [Char.ofNat ((c.toNat : Int) + r.delta).toNat]
    | none => [c]

/-- The upper case of a character. -/
def upper (c : Char) : List Char :=
  if c.toNat < 0x80 then [c.toUpper] else mapCase upperExpansions upperRuns c

/-- The lower case of a character. -/
def lower (c : Char) : List Char :=
  if c.toNat < 0x80 then [c.toLower] else mapCase lowerExpansions lowerRuns c

end ProtoRecovery.Text
