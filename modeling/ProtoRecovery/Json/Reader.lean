import ProtoRecovery.Json.Numeral
import ProtoRecovery.Text.Hex
/-!
Reading JSON text.

The reader is strict: one value, blanks around it, nothing else; no commas too many, no comments, no
raw control characters in strings, no half of a surrogate pair. How deep containers may nest is up
to the caller; the text of a file may nest them 127 deep.
-/

namespace ProtoRecovery.Json

namespace Reader

/-- Whether a character may stand between two tokens. -/
def isBlank (c : Char) : Bool := c = ' ' || c = '\n' || c = '\t' || c = '\r'

/-- A text without the blanks at its start. -/
def skipBlanks (cs : List Char) : List Char := cs.dropWhile isBlank

/-! ## Strings -/

/-- The code unit of four hexadecimal digits, and the rest. -/
def unit? : List Char → Option (Nat × List Char)
  | a :: b :: c :: d :: rest => do
    let a ← Text.hexValue? a
    let b ← Text.hexValue? b
    let c ← Text.hexValue? c
    let d ← Text.hexValue? d
    return (((a * 16 + b) * 16 + c) * 16 + d, rest)
  | _ => none

/-- The character after a backslash and a `u`: one code unit, or two that make a pair. -/
def unicodeEscape? (cs : List Char) : Option (Char × List Char) := do
  let (high, rest) ← unit? cs
  if 0xDC00 ≤ high ∧ high ≤ 0xDFFF then none
  else if 0xD800 ≤ high ∧ high ≤ 0xDBFF then
    match rest with
    | '\\' :: 'u' :: rest =>
      let (low, rest) ← unit? rest
      if 0xDC00 ≤ low ∧ low ≤ 0xDFFF then
        return (Char.ofNat (0x10000 + (high - 0xD800) * 0x400 + (low - 0xDC00)), rest)
      else none
    | _ => none
  else return (Char.ofNat high, rest)

/-- The character of a one-letter escape. -/
def simpleEscape? : Char → Option Char
  | '"' => some '"'
  | '\\' => some '\\'
  | '/' => some '/'
  | 'b' => some '\x08'
  | 'f' => some '\x0c'
  | 'n' => some '\n'
  | 'r' => some '\r'
  | 't' => some '\t'
  | _ => none

/-- The rest of a string after its opening quote; `acc` holds the characters read, last first. Each
step takes at least one character, so the length of the text bounds the steps. -/
def string? : (steps : Nat) → List Char → (acc : List Char) → Option (String × List Char)
  | 0, _, _ => none
  | _ + 1, [], _ => none
  | steps + 1, c :: rest, acc =>
    if c = '"' then some (String.ofList acc.reverse, rest)
    else if c = '\\' then
      match rest with
      | 'u' :: rest => do
        let (e, rest) ← unicodeEscape? rest
        string? steps rest (e :: acc)
      | d :: rest => do
        let e ← simpleEscape? d
        string? steps rest (e :: acc)
      | [] => none
    else if c.toNat < 0x20 then none
    else string? steps rest (c :: acc)

/-! ## Values -/

/-- A text without a given start. -/
def dropStart? : (start cs : List Char) → Option (List Char)
  | [], cs => some cs
  | a :: start, c :: cs => if a = c then dropStart? start cs else none
  | _ :: _, [] => none

/-- The items of an array after its first bracket. -/
def items? (value? : List Char → Option (Json × List Char)) :
    (steps : Nat) → List Char → (acc : List Json) → Option (List Json × List Char)
  | 0, _, _ => none
  | steps + 1, cs, acc => do
    let (item, rest) ← value? (skipBlanks cs)
    match skipBlanks rest with
    | ',' :: rest => items? value? steps rest (item :: acc)
    | ']' :: rest => some ((item :: acc).reverse, rest)
    | _ => none

/-- The members of an object after its first brace. -/
def members? (length : Nat) (value? : List Char → Option (Json × List Char)) :
    (steps : Nat) → List Char → (acc : List (String × Json)) →
      Option (List (String × Json) × List Char)
  | 0, _, _ => none
  | steps + 1, cs, acc =>
    match skipBlanks cs with
    | '"' :: cs => do
      let (name, rest) ← string? length cs []
      match skipBlanks rest with
      | ':' :: rest => do
        let (value, rest) ← value? (skipBlanks rest)
        match skipBlanks rest with
        | ',' :: rest => members? length value? steps rest ((name, value) :: acc)
        | '\x7d' :: rest => some (((name, value) :: acc).reverse, rest)
        | _ => none
      | _ => none
    | _ => none

/-- A value at the start of a text that has no blanks there; `length` bounds the steps of every
loop. -/
def value? (length : Nat) : (depth : Nat) → List Char → Option (Json × List Char)
  | _, '"' :: cs => (string? length cs []).map fun (s, rest) => (.string s, rest)
  | 0, '[' :: _ => none
  | 0, '\x7b' :: _ => none
  | depth + 1, '[' :: cs =>
    match skipBlanks cs with
    | ']' :: rest => some (.array [], rest)
    | _ => (items? (value? length depth) length cs []).map fun (xs, rest) => (.array xs, rest)
  | depth + 1, '\x7b' :: cs =>
    match skipBlanks cs with
    | '\x7d' :: rest => some (.object [], rest)
    | _ =>
      (members? length (value? length depth) length cs []).map fun (ms, rest) => (.object ms, rest)
  | _, 't' :: cs => (dropStart? "rue".toList cs).map (.bool true, ·)
  | _, 'f' :: cs => (dropStart? "alse".toList cs).map (.bool false, ·)
  | _, 'n' :: cs => (dropStart? "ull".toList cs).map (.null, ·)
  | _, cs => (Numeral.read? cs).map fun (n, rest) => (.number n, rest)

end Reader

open Reader in
/-- The value that a whole text stands for, if arrays and objects nest at most so deep in it. -/
def readWithin? (depth : Nat) (text : String) : Option Json := do
  let cs := text.toList
  let (value, rest) ← value? (cs.length + 1) depth (skipBlanks cs)
  if (skipBlanks rest).isEmpty then some value else none

/-- The value that the text of a file stands for. -/
def read? (text : String) : Option Json := readWithin? depthLimit text

end ProtoRecovery.Json
