import ProtoRecovery.Recovery.Enum
/-!
Messages from message classes.

A message class has a constant with the number of each field and a property for each field, both in
order, so the two are read side by side. Two kinds of properties have no number: one whose type is
an enum of the class tells which field of a choice is set, and one that follows an optional field
tells whether that is set.
-/

namespace ProtoRecovery.Recovery

open Schema (DeclId Choice Message)

variable {ρ : Type}

/-! ## Choices -/

/-- The numbers of a choice's fields: the positive values of its enum. -/
def caseNumbers (c : Catalog ρ) (t : ρ) : List Int :=
  (((c.fields t).filter isConstant).filterMap fun f => f.constant.bind (·.int32?)).filter (0 < ·)

/-- A list of numbers sorted out. -/
structure Settled where
  kept : List Int
  dropped : List Int
  claimed : List Int
deriving DecidableEq, Repr

/-- Keeps the numbers that are there and not claimed yet, and claims them. -/
def settleNumbers (isThere : Int → Bool) : (claimed numbers : List Int) → Settled
  | claimed, [] => ⟨[], [], claimed⟩
  | claimed, n :: rest =>
    if isThere n && !claimed.contains n then
      let s := settleNumbers isThere (n :: claimed) rest
      { s with kept := n :: s.kept }
    else
      let s := settleNumbers isThere claimed rest
      { s with dropped := n :: s.dropped }

/-- Sorts out the numbers of choices; an earlier choice claims first. -/
def settleChoices (isThere : Int → Bool) : (claimed : List Int) → List Choice →
    List (String × Settled)
  | _, [] => []
  | claimed, c :: rest =>
    let s := settleNumbers isThere claimed c.numbers
    (c.name, s) :: settleChoices isThere s.claimed rest

/-- The anomalies of one choice. -/
def choiceAnomalies (s : Settled) : List Anomaly :=
  s.dropped.map .danglingMember ++ if s.kept.isEmpty then [.emptyChoice] else []

/-- A message whose choices are not empty, list fields that are there, and share none. No field of a
choice and no collection is optional. -/
def settle (m : Message) : Message × List (String × Anomaly) :=
  let settled := settleChoices (fun n => (m.field? n).isSome) [] m.choices
  let claimed := settled.flatMap (·.2.kept)
  ({ m with
      fields := m.fields.map fun f =>
        if claimed.contains f.number || f.type.isCollection then { f with isOptional := false }
        else f
      choices := settled.filterMap fun (name, s) =>
        if s.kept.isEmpty then none else some ⟨name, s.kept⟩ },
    settled.flatMap fun (name, s) => (choiceAnomalies s).map (name, ·))

/-! ## Fields -/

/-- The type of properties that tell whether a field is set. -/
def presenceType : String := "System.Boolean"

/-- Whether the next property tells whether the field before it is set. -/
def hasPresence (c : Catalog ρ) : List (Catalog.Property ρ) → Catalog.Look ρ Bool
  | [] => return false
  | next :: _ =>
    if next.setter.isSome then return false
    else return c.fullName (← c.typeOf next) == presenceType

/-- The attributes of a property, if it is one to be read: its getter is not virtual and it is
marked as generated. -/
def markedAttributes? (env : Setting ρ) (p : Catalog.Property ρ) :
    Catalog.Search ρ (Option (List (Catalog.Attribute ρ))) := do
  match p.getter with
  | none => return none
  | some getter =>
    if getter.isVirtual then return none
    else
      let attributes ← env.catalog.readAttributes p.attributes
      if env.options.allProperties || hasAttribute env.catalog attributes nonUserCodeAttribute then
        return some attributes
      else return none

/-- Whether a type is an enum declared in a class. -/
def isCaseEnum [DecidableEq ρ] (c : Catalog ρ) (t type : ρ) : Catalog.Look ρ Bool := do
  if c.isEnum type then return (← c.declaringOf? type) = some t else return false

/-- The number that a constant gives. -/
def fieldNumber (c : Catalog ρ) (t : ρ) (f : Catalog.Field ρ) : Catalog.Search ρ Int :=
  match f.constant.bind (·.int32?) with
  | some number => return number
  | none => throw (.misfit (c.fullName t) (.numberNotInt32 f.name))

/-- What a property tells. -/
inductive Told (ρ : Type) where
  /-- Nothing, because it is not to be read. -/
  | nothing
  | choice (c : Choice)
  /-- A field for which no constant is left. -/
  | unnumbered
  /-- A field with the number of the next constant. -/
  | field (type : ρ) (attributes : List (Catalog.Attribute ρ)) (number : Int) (isOptional : Bool)

/-- The choice that a property stands for. -/
def choiceOf (env : Setting ρ) (p : Catalog.Property ρ) (type : ρ) : Choice :=
  ⟨Identifier.choiceName env.names p.name, caseNumbers env.catalog type⟩

/-- The field that a property stands for. -/
def fieldOf (env : Setting ρ) (p : Catalog.Property ρ) (attributes : List (Catalog.Attribute ρ))
    (number : Int) (type : Schema.FieldType) (isOptional : Bool) : Schema.Field :=
  { name := Identifier.fieldName env.names p.name
    number
    type
    isDeprecated := hasAttribute env.catalog attributes obsoleteAttribute
    isOptional }

/-- What a property tells, with the constants that are left and the properties after it. -/
def tellProperty [DecidableEq ρ] (env : Setting ρ) (t : ρ) (numbers : List (Catalog.Field ρ))
    (p : Catalog.Property ρ) (rest : List (Catalog.Property ρ)) : Catalog.Search ρ (Told ρ) := do
  let c := env.catalog
  match ← markedAttributes? env p with
  | none => return .nothing
  | some attributes =>
    let type ← c.typeOf p
    if ← isCaseEnum c t type then return .choice (choiceOf env p type)
    else
      match numbers with
      | [] => return .unnumbered
      | constant :: _ =>
        let number ← fieldNumber c t constant
        return .field type attributes number (← hasPresence c rest)

/-- A message while its properties are read. -/
structure InProgress (ρ : Type) where
  message : Message := {}
  /-- The constants that are left. -/
  numbers : List (Catalog.Field ρ)
  /-- Whether the next property is passed over. -/
  skip : Bool := false

/-- Adds what a property tells. -/
def addTold (env : Setting ρ) (calls : Calls ρ) (t : ρ) (id : DeclId) (p : Catalog.Property ρ)
    (w : InProgress ρ) : Told ρ → Recover ρ (InProgress ρ)
  | .nothing => return w
  | .choice c => return { w with message.choices := w.message.choices ++ [c] }
  | .unnumbered => do
    diagnose (env.catalog.fullName t) p.name .missingNumber
    return w
  | .field type attributes number isOptional => do
    let w := { w with numbers := w.numbers.tail, skip := isOptional }
    if (w.message.field? number).isSome then
      diagnose (env.catalog.fullName t) p.name (.duplicateNumber number)
      return w
    else
      let type ← calls.fieldType id type
      return { w with message := w.message.insert (fieldOf env p attributes number type isOptional) }

/-- Adds the field or the choice of a property. -/
def addProperty [DecidableEq ρ] (env : Setting ρ) (calls : Calls ρ) (t : ρ) (id : DeclId)
    (p : Catalog.Property ρ) (rest : List (Catalog.Property ρ)) (w : InProgress ρ) :
    Recover ρ (InProgress ρ) := do
  if w.skip then return { w with skip := false }
  else addTold env calls t id p w (← search (tellProperty env t w.numbers p rest))

/-- Adds the fields and choices of properties. -/
def addProperties [DecidableEq ρ] (env : Setting ρ) (calls : Calls ρ) (t : ρ) (id : DeclId) :
    List (Catalog.Property ρ) → InProgress ρ → Recover ρ (InProgress ρ) :=
  stepThrough (addProperty env calls t id)

/-- The fields and choices of a message class. -/
def messageBody [DecidableEq ρ] (env : Setting ρ) (calls : Calls ρ) (t : ρ) (id : DeclId) :
    Recover ρ Message := do
  let c := env.catalog
  let properties ← look (c.properties t)
  let numbers := (c.fields t).filter fun f => f.isPublic && f.isStatic && f.isLiteral
  let w ← addProperties env calls t id (properties.filter fun p => !p.isInherited) { numbers }
  let (m, anomalies) := settle w.message
  anomalies.forM fun (member, anomaly) => diagnose (c.fullName t) member anomaly
  return m

/-- Gives a message its fields and choices; what is nested in it stays. -/
def finishMessage (schema : Schema) (id : DeclId) (m : Message) : Schema :=
  schema.modifyDecl id fun d =>
    match d.body with
    | .message old => { d with body := .message { m with nested := old.nested } }
    | _ => d

/-- Recovers a message. -/
def message [DecidableEq ρ] (env : Setting ρ) (calls : Calls ρ) (t : ρ) : Recover ρ DeclId := do
  let c := env.catalog
  if !c.isMessage t then throw (.misfit (c.fullName t) .notMessage)
  match ← known? (c.fullName t) with
  | some id => return id
  | none =>
    let name := Identifier.typeName env.names (c.name t)
    let attributes ← search (c.readAttributes (c.attributes t))
    let isDeprecated := hasAttribute c attributes obsoleteAttribute
    let id ← declare (c.fullName t) name isDeprecated (.message {})
    place env calls t id
    let m ← messageBody env calls t id
    change (finishMessage · id m)
    return id

end ProtoRecovery.Recovery
