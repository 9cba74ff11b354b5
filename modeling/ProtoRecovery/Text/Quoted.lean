import ProtoRecovery.Text.Hex
import ProtoRecovery.Text.HiddenTable
/-!
Text in quotes, for messages: what a reader could not see is written as an escape.
-/

namespace ProtoRecovery.Text

/-- One character between quotes. -/
def quoteChar (c : Char) : List Char :=
  if c = '\x00' then ['\\', '0']
  else if c = '\t' then ['\\', 't']
  else if c = '\r' then ['\\', 'r']
  else if c = '\n' then ['\\', 'n']
  else if c = '"' ∨ c = '\\' then ['\\', c]
  else if isHidden c.toNat then "\\u\x7b".toList ++ Nat.toDigits 16 c.toNat ++ ['\x7d']
  else [c]

/-- A text in quotes. -/
def quote (s : String) : String :=
  "\"" ++ String.ofList (s.toList.flatMap quoteChar) ++ "\""

end ProtoRecovery.Text
