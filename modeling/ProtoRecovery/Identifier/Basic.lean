import ProtoRecovery.Catalog.FullName
import ProtoRecovery.Text.Case
/-!
Identifiers and the ways they are spelled.

Generated classes spell what a schema calls `display_name` as `DisplayName`, and keep types under
full names with namespaces, enclosing types and arities. The functions here go back: to the simple
name, and to words joined by underscores.
-/

namespace ProtoRecovery.Identifier

/-- Whether a character ends a namespace or the name of an enclosing type. -/
def isSeparator (c : Char) : Bool := c = '.' || c = '/' || c = '+'

/-- The simple name inside a full one: no arguments, no arity, no enclosing names. -/
def simpleChars (name : List Char) : List Char :=
  Catalog.afterLast isSeparator ((name.takeWhile (· != '[')).takeWhile (· != '\x60'))

/-- The simple name inside a full one: no arguments, no arity, no enclosing names. -/
def simple (name : String) : String := String.ofList (simpleChars name.toList)

/-- The length of names that an obfuscator makes. -/
def obfuscatedLength : Nat := 11

/-- Whether a name is eleven capital letters; such a name carries no words. -/
def isObfuscated (name : String) : Bool :=
  name.toList.length = obfuscatedLength && name.toList.all Char.isUpper

/-- The characters after the first: each capital starts a word of its own. -/
def lowerTail : List Char → List Char
  | [] => []
  | c :: rest => if c.isUpper then '_' :: c.toLower :: lowerTail rest else c :: lowerTail rest

/-- Words in lower case, joined by underscores. -/
def lowerWordsChars : List Char → List Char
  | [] => []
  | c :: rest => Text.lower c ++ lowerTail rest

/-- The characters after the first: each capital starts a word of its own. -/
def upperTail : List Char → List Char
  | [] => []
  | c :: rest => (if c.isUpper then ['_', c] else Text.upper c) ++ upperTail rest

/-- Words in upper case, joined by underscores. -/
def upperWordsChars : List Char → List Char
  | [] => []
  | c :: rest => Text.upper c ++ upperTail rest

/-- Words in lower case, joined by underscores. -/
def lowerWords (name : String) : String := String.ofList (lowerWordsChars name.toList)

/-- Words in upper case, joined by underscores. -/
def upperWords (name : String) : String := String.ofList (upperWordsChars name.toList)

/-- Capitalises the start and every character after an underscore, and drops the underscores. -/
def joinWordsFrom : (capital : Bool) → List Char → List Char
  | _, [] => []
  | capital, c :: rest =>
    if c = '_' then joinWordsFrom true rest
    else if capital then c.toUpper :: joinWordsFrom false rest
    else c :: joinWordsFrom false rest

/-- Words run together, each with a capital. -/
def joinWords (name : String) : String := String.ofList (joinWordsFrom true name.toList)

/-- What a property adds to the name of the choice it tells about. -/
def choiceSuffix : List Char := "Case".toList

/-- A name without one choice suffix. -/
def trimChoice (name : String) : String :=
  let cs := name.toList
  if choiceSuffix.isSuffixOf cs then String.ofList (cs.take (cs.length - choiceSuffix.length))
  else name

end ProtoRecovery.Identifier
