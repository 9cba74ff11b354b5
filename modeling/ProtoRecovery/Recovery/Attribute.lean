import ProtoRecovery.Catalog.Basic
/-!
The attributes that generated code is told by.
-/

namespace ProtoRecovery.Recovery

variable {ρ : Type}

/-- The attribute of what is deprecated. -/
def obsoleteAttribute : String := "System.ObsoleteAttribute"

/-- The attribute of properties that a generator made. -/
def nonUserCodeAttribute : String := "System.Diagnostics.DebuggerNonUserCodeAttribute"

/-- The attribute that names the generator of a method. -/
def generatedCodeAttribute : String := "System.CodeDom.Compiler.GeneratedCodeAttribute"

/-- The attribute with the name that an enum member has in the schema. -/
def originalNameAttribute : String := "Google.Protobuf.Reflection.OriginalNameAttribute"

/-- The generator of services. -/
def serviceGenerator : String := "grpc_csharp_plugin"

/-- Whether there is an attribute of a full name. -/
def hasAttribute (c : Catalog ρ) (attributes : List (Catalog.Attribute ρ)) (fullName : String) :
    Bool :=
  attributes.any fun a => c.fullName a.type == fullName

/-- Whether the metadata has the arguments of an attribute. -/
def hasArguments (a : Catalog.Attribute ρ) : Bool := a.arguments.isOk

/-- The first argument of an attribute, if it is a string. -/
def firstString (a : Catalog.Attribute ρ) : Except Error (Option String) := do
  return (← a.arguments).head?.bind (·.string?)

/-- The name that an enum member has in the schema, where arguments can be read. -/
def originalName (c : Catalog ρ) (attributes : List (Catalog.Attribute ρ)) :
    Except Error (Option String) :=
  match attributes.find? fun a => c.fullName a.type == originalNameAttribute with
  | none => return none
  | some a => if hasArguments a then firstString a else return none

/-- Whether a method was made by the generator of services. Where arguments cannot be read, any
generator will do. -/
def isGenerated (c : Catalog ρ) : List (Catalog.Attribute ρ) → Except Error Bool
  | [] => return false
  | a :: rest => do
    if c.fullName a.type != generatedCodeAttribute then isGenerated c rest
    else if !hasArguments a then return true
    else if (← firstString a) == some serviceGenerator then return true
    else isGenerated c rest

end ProtoRecovery.Recovery
