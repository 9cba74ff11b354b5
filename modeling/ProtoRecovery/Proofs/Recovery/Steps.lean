import ProtoRecovery.Proofs.Recovery.Outcome
/-!
# What each step of a recovery does

One lemma for each step says exactly when it ends well, and how. Proofs about whole recoveries use these
lemmas and leave the definitions alone.
-/

namespace ProtoRecovery.Recovery

open Schema (DeclId FieldType File Message Service WellKnown Scalar)

variable {ρ : Type}

/-! ## Changes of the schema -/

/-- Starts a file for a declaration. -/
def openFile (c : Catalog ρ) (t : ρ) (id : DeclId) (schema : Schema) : Schema :=
  let file : File := { assembly := some (c.assembly t), namespaceName := c.namespaceName? t }
  (schema.addFile file).attach id schema.files.length

/-- Imports the file of one declaration into that of another, where both have one. -/
def linkFiles (source target : DeclId) (schema : Schema) : Schema :=
  match schema.fileOf? source, schema.fileOf? target with
  | some file, some other => if file = other then schema else schema.addImport file (.file other)
  | _, _ => schema

/-- Imports a well-known file into the file of a declaration that has one. -/
def linkPath (source : DeclId) (path : String) (schema : Schema) : Schema :=
  match schema.fileOf? source with
  | some file => schema.addImport file (.wellKnown path)
  | none => schema

variable {s s' : State ρ}

@[simp] theorem gives_startFile {c : Catalog ρ} {t : ρ} {id : DeclId} {u : Unit} :
    Gives (startFile c t id) s u s' ↔ s.changed (openFile c t id) = s' := gives_change

@[simp] theorem gives_wellKnownType {source : DeclId} {w : WellKnown} {type : FieldType} :
    Gives (wellKnownType source w) s type s' ↔ .wellKnown w = type ∧ s.changed (linkPath source w.file) = s' := by
  show ((Except.ok (FieldType.wellKnown w), s.changed (linkPath source w.file)) :
    Except Error FieldType × State ρ) = (.ok type, s') ↔ _
  simp

@[simp] theorem gives_referenceType {source target : DeclId} {type : FieldType} :
    Gives (referenceType source target) s type s' ↔
      .reference target = type ∧ s.changed (linkFiles source target) = s' := by
  show ((Except.ok (FieldType.reference target), s.changed (linkFiles source target)) :
    Except Error FieldType × State ρ) = (.ok type, s') ↔ _
  simp

/-! ## Arguments that are read only where they are -/

section Arguments
variable (c : Catalog ρ) (attributes : List (Catalog.Attribute ρ)) {a : Catalog.Attribute ρ}

/-- The first argument of an attribute, if it can be read and is a string. -/
def firstString? (a : Catalog.Attribute ρ) : Option String :=
  match a.arguments with
  | .ok arguments => arguments.head?.bind (·.string?)
  | .error _ => none

theorem firstString_of_hasArguments (h : hasArguments a = true) : firstString a = .ok (firstString? a) := by
  unfold firstString firstString?
  unfold hasArguments at h
  cases ha : a.arguments with
  | ok arguments => rfl
  | error e => simp [ha, Except.isOk, Except.toBool] at h

/-- Without the guard, a read fails where the metadata has no arguments, and says why. -/
theorem firstString_of_error {e : Error} (h : a.arguments = .error e) : firstString a = .error e := by
  unfold firstString
  rw [h]
  rfl

theorem firstString?_of_not_hasArguments (h : ¬hasArguments a = true) : firstString? a = none := by
  unfold firstString?
  unfold hasArguments at h
  cases ha : a.arguments with
  | ok arguments => simp [ha, Except.isOk, Except.toBool] at h
  | error e => rfl

/-- The name that an enum member has in the schema. -/
def originalName? : Option String :=
  (attributes.find? fun a => c.fullName a.type == originalNameAttribute).bind firstString?

theorem originalName_eq : originalName c attributes = .ok (originalName? c attributes) := by
  unfold originalName originalName?
  cases attributes.find? fun a => c.fullName a.type == originalNameAttribute with
  | none => rfl
  | some a =>
    dsimp only [Option.bind_some]
    split
    · rename_i h
      exact firstString_of_hasArguments h
    · rename_i h
      rw [firstString?_of_not_hasArguments h]
      rfl

/-- An attribute by which a method is known to come from the generator of services. -/
def isGeneratorMark (a : Catalog.Attribute ρ) : Bool :=
  c.fullName a.type == generatedCodeAttribute && (!hasArguments a || firstString? a == some serviceGenerator)

theorem isGenerated_eq : isGenerated c attributes = .ok (attributes.any (isGeneratorMark c)) := by
  induction attributes with
  | nil => rfl
  | cons a rest ih =>
    rw [isGenerated, List.any_cons, isGeneratorMark, bne]
    cases c.fullName a.type == generatedCodeAttribute with
    | false => simpa using ih
    | true =>
      cases h : hasArguments a with
      | false => rfl
      | true =>
        rw [firstString_of_hasArguments h]
        show (if firstString? a == some serviceGenerator then pure true else isGenerated c rest) = _
        cases firstString? a == some serviceGenerator with
        | false => exact ih
        | true => rfl

/-- Arguments that are missing are an error to whoever reads them, but neither the name of a member nor the generator of a
method is looked for among such. So legacy metadata stops no recovery there. -/
theorem arguments_available (version : Number.Binary32) :
    (∀ a : Catalog.Attribute ρ, a.arguments = .error (.argumentsUnavailable version) →
      firstString a = .error (.argumentsUnavailable version)) ∧
    originalName c attributes ≠ .error (.argumentsUnavailable version) ∧
    isGenerated c attributes ≠ .error (.argumentsUnavailable version) := by
  rw [originalName_eq, isGenerated_eq]
  exact ⟨fun _ => firstString_of_error, nofun, nofun⟩

theorem enumMember_eq (env : Setting ρ) (t : ρ) (enumName : String) (f : Catalog.Field ρ) :
    enumMember env t enumName f =
      match f.constant.bind (·.int32?) with
      | none => throw (.misfit (env.catalog.fullName t) (.memberNotInt32 f.name))
      | some number => do
        let attributes ← search (env.catalog.readAttributes f.attributes)
        return {
          name := (originalName? env.catalog attributes).getD (Identifier.memberName env.names f.name enumName)
          number
          isDeprecated := hasAttribute env.catalog attributes obsoleteAttribute } := by
  unfold enumMember
  simp only [originalName_eq]
  rfl

theorem tellMethod_eq (env : Setting ρ) (classes : Classes ρ) (m : Catalog.Method ρ) :
    tellMethod env classes m = (do
      let attributes ← env.catalog.readAttributes m.attributes
      if env.options.allMethods || attributes.any (isGeneratorMark env.catalog) then
        return (← shape? env.catalog classes.isClient classes.implementation m).map (attributes, ·)
      else return none) := by
  unfold tellMethod
  simp only [isGenerated_eq]
  cases env.options.allMethods with
  | true => rfl
  | false => rfl

end Arguments

/-! ## Places, enums and types -/

section Calls
variable {env : Setting ρ} {calls : Calls ρ} {t : ρ} {id source : DeclId}

theorem gives_place {u : Unit} :
    Gives (place env calls t id) s u s' ↔
      (∃ owner parent s₁, s.answer (owner? env.catalog t) = some owner ∧
        Gives (calls.message owner) (s.after (owner? env.catalog t)) parent s₁ ∧
        s₁.changed (·.nest parent id) = s') ∨
      (s.answer (owner? env.catalog t) = none ∧
        (s.after (owner? env.catalog t)).changed (openFile env.catalog t id) = s') := by
  unfold place
  simp only [gives_bind, gives_look]
  constructor
  · rintro ⟨o, s₁, ⟨ho, rfl⟩, h⟩
    cases o with
    | some owner =>
      simp only [gives_bind, gives_change] at h
      obtain ⟨parent, s₂, hm, rfl⟩ := h
      exact .inl ⟨owner, parent, s₂, ho, hm, rfl⟩
    | none => exact .inr ⟨ho, gives_startFile.1 h⟩
  · rintro (⟨owner, parent, s₁, ho, hm, rfl⟩ | ⟨ho, rfl⟩)
    · refine ⟨_, _, ⟨ho, rfl⟩, ?_⟩
      simp only [gives_bind, gives_change]
      exact ⟨parent, s₁, hm, rfl⟩
    · exact ⟨_, _, ⟨ho, rfl⟩, gives_startFile.2 rfl⟩

/-- The attributes of a class, as a recovery asks for them. -/
abbrev attributesOf (c : Catalog ρ) (t : ρ) : Catalog.Look ρ (Except Error (List (Catalog.Attribute ρ))) :=
  (c.readAttributes (c.attributes t)).run

/-- Messages, enums and services are recovered in one way: a class that is known keeps its declaration, and any
other one is declared and put in its place before what it holds is read. -/
def introduce {σ : Type} (env : Setting ρ) (t : ρ) (empty : Schema.Body) (settleIn : DeclId → Recover ρ Unit)
    (read : DeclId → Recover ρ σ) (finish : Schema → DeclId → σ → Schema) : Recover ρ DeclId := do
  match ← known? (env.catalog.fullName t) with
  | some id => return id
  | none =>
    let attributes ← search (env.catalog.readAttributes (env.catalog.attributes t))
    let id ← declare (env.catalog.fullName t) (Identifier.typeName env.names (env.catalog.name t))
      (hasAttribute env.catalog attributes obsoleteAttribute) empty
    settleIn id
    let x ← read id
    change (finish · id x)
    return id

theorem gives_introduce {σ : Type} {empty : Schema.Body} {settleIn : DeclId → Recover ρ Unit}
    {read : DeclId → Recover ρ σ} {finish : Schema → DeclId → σ → Schema} :
    Gives (introduce env t empty settleIn read finish) s id s' ↔
      (s.find? (env.catalog.fullName t) = some id ∧ s = s') ∨
        (s.find? (env.catalog.fullName t) = none ∧ s.schema.size = id ∧
          ∃ attributes s₁ x s₂, s.answer (attributesOf env.catalog t) = .ok attributes ∧
            Gives (settleIn id)
              ((s.after (attributesOf env.catalog t)).declared (env.catalog.fullName t)
                (Identifier.typeName env.names (env.catalog.name t))
                (hasAttribute env.catalog attributes obsoleteAttribute) empty) () s₁ ∧
            Gives (read id) s₁ x s₂ ∧ s₂.changed (finish · id x) = s') := by
  unfold introduce
  simp only [gives_bind, gives_known]
  constructor
  · rintro ⟨o, s₁, ⟨ho, rfl⟩, h⟩
    cases o with
    | some id' =>
      obtain ⟨rfl, rfl⟩ := gives_pure.1 h
      exact .inl ⟨ho, rfl⟩
    | none =>
      simp only [gives_bind, gives_search, gives_declare, gives_change, gives_pure] at h
      obtain ⟨attributes, _, ⟨ha, rfl⟩, _, _, ⟨hid, rfl⟩, u, s₁, hp, x, s₂, hx, _, _, rfl, rfl, rfl⟩ := h
      exact .inr ⟨ho, hid, attributes, s₁, x, s₂, ha, hp, hx, rfl⟩
  · rintro (⟨ho, rfl⟩ | ⟨ho, rfl, attributes, s₁, x, s₂, ha, hp, hx, rfl⟩)
    · exact ⟨_, _, ⟨ho, rfl⟩, gives_pure.2 ⟨rfl, rfl⟩⟩
    · refine ⟨_, _, ⟨ho, rfl⟩, ?_⟩
      simp only [gives_bind, gives_search, gives_declare, gives_change, gives_pure]
      exact ⟨attributes, _, ⟨ha, rfl⟩, _, _, ⟨rfl, rfl⟩, _, s₁, hp, x, s₂, hx, (), _, rfl, rfl, rfl⟩

theorem gives_enum :
    Gives (enum env calls t) s id s' ↔
      env.catalog.isEnum t = true ∧
        ((s.find? (env.catalog.fullName t) = some id ∧ s = s') ∨
          (s.find? (env.catalog.fullName t) = none ∧ s.schema.size = id ∧
            ∃ attributes s₁ members s₂, s.answer (attributesOf env.catalog t) = .ok attributes ∧
              Gives (place env calls t id)
                ((s.after (attributesOf env.catalog t)).declared (env.catalog.fullName t)
                  (Identifier.typeName env.names (env.catalog.name t))
                  (hasAttribute env.catalog attributes obsoleteAttribute) (.enum {})) () s₁ ∧
              Gives (enumMembers env t (Identifier.typeName env.names (env.catalog.name t))
                ((env.catalog.fields t).filter isConstant)) s₁ members s₂ ∧
              s₂.changed (finishEnum · id members) = s')) := by
  unfold enum
  cases ht : env.catalog.isEnum t with
  | false => simp [ht]
  | true =>
    simp only [ht, Bool.not_true, Bool.false_eq_true, if_false, true_and]
    exact gives_introduce

theorem gives_message [DecidableEq ρ] :
    Gives (message env calls t) s id s' ↔
      env.catalog.isMessage t = true ∧
        ((s.find? (env.catalog.fullName t) = some id ∧ s = s') ∨
          (s.find? (env.catalog.fullName t) = none ∧ s.schema.size = id ∧
            ∃ attributes s₁ m s₂, s.answer (attributesOf env.catalog t) = .ok attributes ∧
              Gives (place env calls t id)
                ((s.after (attributesOf env.catalog t)).declared (env.catalog.fullName t)
                  (Identifier.typeName env.names (env.catalog.name t))
                  (hasAttribute env.catalog attributes obsoleteAttribute) (.message {})) () s₁ ∧
              Gives (messageBody env calls t id) s₁ m s₂ ∧ s₂.changed (finishMessage · id m) = s')) := by
  unfold message
  cases ht : env.catalog.isMessage t with
  | false => simp [ht]
  | true =>
    simp only [ht, Bool.not_true, Bool.false_eq_true, if_false, true_and]
    exact gives_introduce

/-- A service is the one kind that is never nested: it starts a file, whatever class is around it. -/
theorem service_eq :
    service env calls t = (search (classify env.catalog t) >>= fun classes =>
      introduce env classes.holder (.service {}) (startFile env.catalog classes.holder)
        (fun id => look (env.catalog.methods classes.implementation) >>= fun methods =>
          addMethods env calls classes id (methods.filter isCallable) {}) finishService) := by
  unfold service introduce
  refine bind_congr fun classes => bind_congr fun o => ?_
  cases o with
  | some id => rfl
  | none => simp only [bind_assoc]

theorem gives_service :
    Gives (service env calls t) s id s' ↔
      ∃ classes, s.answer (classify env.catalog t).run = .ok classes ∧
        ((s.find? (env.catalog.fullName classes.holder) = some id ∧ s.after (classify env.catalog t).run = s') ∨
          (s.find? (env.catalog.fullName classes.holder) = none ∧ s.schema.size = id ∧
            ∃ attributes s₁ body s₂,
              (s.after (classify env.catalog t).run).answer (attributesOf env.catalog classes.holder) =
                .ok attributes ∧
              (((s.after (classify env.catalog t).run).after (attributesOf env.catalog classes.holder)).declared
                (env.catalog.fullName classes.holder)
                (Identifier.typeName env.names (env.catalog.name classes.holder))
                (hasAttribute env.catalog attributes obsoleteAttribute) (.service {})).changed
                  (openFile env.catalog classes.holder id) = s₁ ∧
              Gives (addMethods env calls classes id
                ((s₁.answer (env.catalog.methods classes.implementation)).filter isCallable) {})
                (s₁.after (env.catalog.methods classes.implementation)) body s₂ ∧
              s₂.changed (finishService · id body) = s')) := by
  rw [service_eq, gives_search_bind]
  refine exists_congr fun classes => and_congr_right fun _ => ?_
  rw [gives_introduce]
  simp only [gives_startFile, gives_look_bind]
  rfl

theorem gives_singleType {type : FieldType} :
    Gives (singleType env calls source t) s type s' ↔
      match Scalar.ofClass? (env.catalog.fullName t), WellKnown.ofClass? (env.catalog.fullName t) with
      | some k, _ => .scalar k = type ∧ s = s'
      | none, some w => .wellKnown w = type ∧ s.changed (linkPath source w.file) = s'
      | none, none =>
        if env.catalog.isEnum t = true then
          if env.options.skipEnums = true then .scalar .int32 = type ∧ s = s'
          else ∃ target s₁, Gives (calls.enum t) s target s₁ ∧
            .reference target = type ∧ s₁.changed (linkFiles source target) = s'
        else ∃ target s₁, Gives (calls.message t) s target s₁ ∧
          .reference target = type ∧ s₁.changed (linkFiles source target) = s' := by
  unfold singleType
  dsimp only
  cases Scalar.ofClass? (env.catalog.fullName t) with
  | some k => simp
  | none =>
    cases WellKnown.ofClass? (env.catalog.fullName t) with
    | some w => simp
    | none =>
      dsimp only
      by_cases he : env.catalog.isEnum t = true
      · by_cases hs : env.options.skipEnums = true
        · simp [he, hs]
        · simp [he, hs, gives_bind]
      · simp [he, gives_bind]

theorem gives_fieldType {type : FieldType} :
    Gives (fieldType env calls source t) s type s' ↔
      match wrapper? env.catalog t (s.answer (env.catalog.argumentsOf t)),
        s.answer (env.catalog.argumentsOf t) with
      | some w, _ =>
        .wellKnown w = type ∧ (s.after (env.catalog.argumentsOf t)).changed (linkPath source w.file) = s'
      | none, [element] =>
        ∃ e, Gives (calls.fieldType source element) (s.after (env.catalog.argumentsOf t)) e s' ∧
          .repeated e = type
      | none, [key, value] =>
        ∃ k s₁ v, Gives (calls.fieldType source key) (s.after (env.catalog.argumentsOf t)) k s₁ ∧
          Gives (calls.fieldType source value) s₁ v s' ∧ .map k v = type
      | none, _ => Gives (singleType env calls source t) (s.after (env.catalog.argumentsOf t)) type s' := by
  unfold fieldType
  rw [gives_look_bind]
  generalize s.answer (env.catalog.argumentsOf t) = arguments
  generalize s.after (env.catalog.argumentsOf t) = s
  cases wrapper? env.catalog t arguments with
  | some w => simp
  | none =>
    rcases arguments with - | ⟨x, - | ⟨y, - | ⟨z, rest⟩⟩⟩
    · rfl
    · simp only [gives_bind, gives_pure]
      constructor
      · rintro ⟨e, s₁, he, rfl, rfl⟩
        exact ⟨e, he, rfl⟩
      · rintro ⟨e, he, rfl⟩
        exact ⟨e, s', he, rfl, rfl⟩
    · simp only [gives_bind, gives_pure]
      constructor
      · rintro ⟨k, s₁, hk, v, s₂, hv, rfl, rfl⟩
        exact ⟨k, s₁, v, hk, hv, rfl⟩
      · rintro ⟨k, s₁, v, hk, hv, rfl⟩
        exact ⟨k, s₁, hk, v, s', hv, rfl, rfl⟩
    · rfl

/-! ## Bodies -/

theorem gives_fieldNumber {c : Catalog ρ} {f : Catalog.Field ρ} {n : Int} :
    Gives (search (fieldNumber c t f)) s n s' ↔ f.constant.bind (·.int32?) = some n ∧ s = s' := by
  unfold fieldNumber
  cases f.constant.bind (·.int32?) with
  | some m => exact gives_search_pure.trans (by simp)
  | none => exact ⟨fun h => absurd h gives_throw, nofun⟩

theorem gives_markedAttributes {p : Catalog.Property ρ} {o : Option (List (Catalog.Attribute ρ))} :
    Gives (search (markedAttributes? env p)) s o s' ↔
      match p.getter with
      | none => none = o ∧ s = s'
      | some getter =>
        if getter.isVirtual = true then none = o ∧ s = s'
        else
          ∃ attributes, s.answer (env.catalog.readAttributes p.attributes).run = .ok attributes ∧
            (if env.options.allProperties || hasAttribute env.catalog attributes nonUserCodeAttribute then
              some attributes else none) = o ∧
            s.after (env.catalog.readAttributes p.attributes).run = s' := by
  unfold markedAttributes?
  cases p.getter with
  | none => exact gives_search_pure
  | some getter =>
    dsimp only
    split
    · exact gives_search_pure
    · rw [gives_search_seq]
      constructor
      · rintro ⟨attributes, s₁, ha, h⟩
        obtain ⟨hread, rfl⟩ := gives_search.1 ha
        refine ⟨attributes, hread, ?_⟩
        split at h <;> rename_i hmarked
        · rw [if_pos hmarked]
          exact gives_search_pure.1 h
        · rw [if_neg hmarked]
          exact gives_search_pure.1 h
      · rintro ⟨attributes, ha, rfl, rfl⟩
        refine ⟨attributes, _, gives_search.2 ⟨ha, rfl⟩, ?_⟩
        split
        · exact gives_search_pure.2 ⟨rfl, rfl⟩
        · exact gives_search_pure.2 ⟨rfl, rfl⟩

theorem gives_diagnoseAll {type : String} {anomalies : List (String × Anomaly)} {u : PUnit} :
    Gives (anomalies.forM fun (member, x) => diagnose type member x : Recover ρ PUnit) s u s' ↔
      { s with diagnostics := s.diagnostics ++ anomalies.map fun (member, x) => ⟨type, member, x⟩ } = s' := by
  induction anomalies generalizing s with
  | nil => simp [List.forM_eq_forM]
  | cons a rest ih =>
    obtain ⟨member, x⟩ := a
    rw [List.forM_eq_forM] at ih ⊢
    rw [List.forM_cons, gives_diagnose_bind, ih]
    simp [State.diagnosed]

section Properties
variable [DecidableEq ρ] {numbers : List (Catalog.Field ρ)} {p : Catalog.Property ρ} {rest : List (Catalog.Property ρ)}
  {told : Told ρ} {w w' : InProgress ρ} {m' : Message}

omit [DecidableEq ρ] in
/-- What a property can tell, if its type is taken for such a one. -/
inductive Told.Of (env : Setting ρ) (p : Catalog.Property ρ) (takes : ρ → Prop) : Told ρ → Prop
  | nothing : Of env p takes .nothing
  | choice (type : ρ) : Of env p takes (.choice (choiceOf env p type))
  | unnumbered : Of env p takes .unnumbered
  | field {type : ρ} (h : takes type) (attributes : List (Catalog.Attribute ρ)) (number : Int) (isOptional : Bool) :
      Of env p takes (.field type attributes number isOptional)

omit [DecidableEq ρ] in
theorem Told.Of.mono {takes takes' : ρ → Prop} (h : told.Of env p takes) (htakes : ∀ t, takes t → takes' t) :
    told.Of env p takes' := by
  cases h with
  | nothing => exact .nothing
  | choice type => exact .choice type
  | unnumbered => exact .unnumbered
  | field h attributes number isOptional => exact .field (htakes _ h) attributes number isOptional

theorem gives_tellProperty :
    Gives (search (tellProperty env t numbers p rest)) s told s' ↔
      ∃ o s₁, Gives (search (markedAttributes? env p)) s o s₁ ∧
        match o with
        | none => .nothing = told ∧ s₁ = s'
        | some attributes =>
          let type := s₁.answer (env.catalog.typeOf p)
          let s₂ := s₁.after (env.catalog.typeOf p)
          let s₃ := s₂.after (isCaseEnum env.catalog t type)
          if s₂.answer (isCaseEnum env.catalog t type) = true then .choice (choiceOf env p type) = told ∧ s₃ = s'
          else
            match numbers with
            | [] => .unnumbered = told ∧ s₃ = s'
            | constant :: _ =>
              ∃ number, constant.constant.bind (·.int32?) = some number ∧
                .field type attributes number (s₃.answer (hasPresence env.catalog rest)) = told ∧
                s₃.after (hasPresence env.catalog rest) = s' := by
  unfold tellProperty
  rw [gives_search_seq]
  refine exists_congr fun o => exists_congr fun s₁ => and_congr_right fun _ => ?_
  cases o with
  | none => exact gives_search_pure
  | some attributes =>
    simp only [gives_search_seq, gives_search_lift]
    constructor
    · rintro ⟨_, _, ⟨rfl, rfl⟩, _, _, ⟨rfl, rfl⟩, h⟩
      split at h
      · rename_i hcase
        rw [if_pos hcase]
        exact gives_search_pure.1 h
      · rename_i hcase
        rw [if_neg hcase]
        cases numbers with
        | nil => exact gives_search_pure.1 h
        | cons constant numbers =>
          simp only [gives_search_seq, gives_search_lift, gives_fieldNumber, gives_search_pure] at h
          obtain ⟨number, _, ⟨hn, rfl⟩, _, _, ⟨rfl, rfl⟩, h⟩ := h
          exact ⟨number, hn, h⟩
    · intro h
      refine ⟨_, _, ⟨rfl, rfl⟩, _, _, ⟨rfl, rfl⟩, ?_⟩
      split at h
      · rename_i hcase
        rw [if_pos hcase]
        exact gives_search_pure.2 h
      · rename_i hcase
        rw [if_neg hcase]
        cases numbers with
        | nil => exact gives_search_pure.2 h
        | cons constant numbers =>
          obtain ⟨number, hn, h⟩ := h
          simp only [gives_search_seq, gives_search_lift, gives_fieldNumber, gives_search_pure]
          exact ⟨number, _, ⟨hn, rfl⟩, _, _, ⟨rfl, rfl⟩, h⟩

omit [DecidableEq ρ] in
/-- What becomes of a message and of a state when a property is added. -/
theorem gives_addTold :
    Gives (addTold env calls t id p w told) s w' s' ↔
      match told with
      | .nothing => w = w' ∧ s = s'
      | .choice c => { w with message.choices := w.message.choices ++ [c] } = w' ∧ s = s'
      | .unnumbered => w = w' ∧ s.diagnosed (env.catalog.fullName t) p.name .missingNumber = s'
      | .field type attributes number isOptional =>
        if (w.message.field? number).isSome = true then
          { w with numbers := w.numbers.tail, skip := isOptional } = w' ∧
            s.diagnosed (env.catalog.fullName t) p.name (.duplicateNumber number) = s'
        else
          ∃ found, Gives (calls.fieldType id type) s found s' ∧
            ⟨w.message.insert (fieldOf env p attributes number found isOptional), w.numbers.tail, isOptional⟩ = w' := by
  cases told with
  | nothing => exact gives_pure
  | choice c => exact gives_pure
  | unnumbered => exact gives_diagnose_bind.trans gives_pure
  | field type attributes number isOptional =>
    unfold addTold
    dsimp only
    split
    · exact gives_diagnose_bind.trans gives_pure
    · simp only [gives_bind, gives_pure]
      constructor
      · rintro ⟨found, _, h, rfl, rfl⟩
        exact ⟨found, h, rfl⟩
      · rintro ⟨found, h, rfl⟩
        exact ⟨found, _, h, rfl, rfl⟩

theorem gives_addProperty :
    Gives (addProperty env calls t id p rest w) s w' s' ↔
      if w.skip = true then { w with skip := false } = w' ∧ s = s'
      else ∃ told s₁, Gives (search (tellProperty env t w.numbers p rest)) s told s₁ ∧
        Gives (addTold env calls t id p w told) s₁ w' s' := by
  unfold addProperty
  split
  · exact gives_pure
  · exact gives_bind

theorem gives_messageBody :
    Gives (messageBody env calls t id) s m' s' ↔
      ∃ w s₁, Gives (addProperties env calls t id ((s.answer (env.catalog.properties t)).filter fun p => !p.isInherited)
          { numbers := (env.catalog.fields t).filter fun f => f.isPublic && f.isStatic && f.isLiteral })
          (s.after (env.catalog.properties t)) w s₁ ∧
        (settle w.message).1 = m' ∧
        { s₁ with
          diagnostics := s₁.diagnostics ++
            (settle w.message).2.map fun (member, x) => ⟨env.catalog.fullName t, member, x⟩ } = s' := by
  unfold messageBody
  dsimp only
  rw [gives_look_bind, gives_bind]
  refine exists_congr fun w => exists_congr fun s₁ => and_congr_right fun _ => ?_
  simp only [gives_bind, gives_diagnoseAll, gives_pure]
  constructor
  · rintro ⟨_, _, rfl, rfl, rfl⟩
    exact ⟨rfl, rfl⟩
  · rintro ⟨rfl, rfl⟩
    exact ⟨⟨⟩, _, rfl, rfl, rfl⟩

end Properties

/-- The method that a shape and the types found for it make. -/
def methodOf (env : Setting ρ) (m : Catalog.Method ρ) (attributes : List (Catalog.Attribute ρ))
    (shape : Shape ρ) (request response : FieldType) : Schema.Method :=
  { name := Identifier.typeName env.names m.name
    request
    response
    requestStreamed := shape.requestStreamed
    responseStreamed := shape.responseStreamed
    isDeprecated := hasAttribute env.catalog attributes obsoleteAttribute }

theorem gives_addShaped {m : Catalog.Method ρ} {body body' : Service}
    {o : Option (List (Catalog.Attribute ρ) × Shape ρ)} :
    Gives (addShaped env calls id m body o) s body' s' ↔
      match o with
      | none => body = body' ∧ s = s'
      | some (attributes, shape) =>
        if body.hasMethod (Identifier.typeName env.names m.name) = true then body = body' ∧ s = s'
        else
          ∃ request s₁ response, Gives (calls.fieldType id shape.request) s request s₁ ∧
            Gives (calls.fieldType id shape.response) s₁ response s' ∧
            ⟨body.methods ++ [methodOf env m attributes shape request response]⟩ = body' := by
  unfold addShaped
  split
  · exact gives_pure
  · dsimp only
    split
    · exact gives_pure
    · simp only [gives_bind, gives_pure]
      constructor
      · rintro ⟨request, s₁, hr, response, _, hq, rfl, rfl⟩
        exact ⟨request, s₁, response, hr, hq, rfl⟩
      · rintro ⟨request, s₁, response, hr, hq, rfl⟩
        exact ⟨request, s₁, hr, response, _, hq, rfl, rfl⟩

theorem gives_addMethod {classes : Classes ρ} {m : Catalog.Method ρ} {body body' : Service} :
    Gives (addMethod env calls classes id m body) s body' s' ↔
      ∃ o s₁, Gives (search (tellMethod env classes m)) s o s₁ ∧ Gives (addShaped env calls id m body o) s₁ body' s' :=
  gives_bind

end Calls

end ProtoRecovery.Recovery
