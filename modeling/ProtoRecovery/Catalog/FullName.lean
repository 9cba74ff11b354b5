/-!
Full names taken apart.

A full name is a namespace, a dot and the names of enclosing types, each followed by a plus sign or
a slash, and then the name itself. Arguments stand in brackets at its end.
-/

namespace ProtoRecovery.Catalog

/-- Whether a character ends the name of an enclosing type. -/
def isNesting (c : Char) : Bool := c = '+' || c = '/'

/-- The characters after the last one that `p` holds of; all if there is none. -/
def afterLast (p : Char → Bool) (cs : List Char) : List Char :=
  (cs.reverse.takeWhile fun c => !p c).reverse

/-- The characters before the last one that `p` holds of. -/
def beforeLast? (p : Char → Bool) (cs : List Char) : Option (List Char) :=
  if cs.any p then some ((cs.reverse.dropWhile fun c => !p c).drop 1).reverse else none

/-- The namespace and the simple name inside a full one. -/
def splitFullName (fullName : String) : Option String × String :=
  let base := fullName.toList.takeWhile (· != '[')
  let outer := base.takeWhile fun c => !isNesting c
  let simple := if base.any isNesting then afterLast isNesting base else afterLast (· == '.') base
  ((beforeLast? (· == '.') outer).map String.ofList, String.ofList simple)

end ProtoRecovery.Catalog
