import ProtoRecovery.Proofs.Recovery.Failure
import ProtoRecovery.Proofs.Recovery.Reading
/-!
# No property is lost silently

Every property that counts ends up as a field, as a choice, or in a remark; and of a choice every member is kept or
remarked on.
-/

namespace ProtoRecovery.Recovery

open Schema (DeclId Message Choice)

variable {ρ : Type}

/-! ## Fields and remarks -/

/-- The pairs whose number is neither taken nor that of an earlier pair. -/
def firstUses {α : Type} : (taken : List Int) → List (α × Int) → List (α × Int)
  | _, [] => []
  | taken, (a, n) :: rest => if n ∈ taken then firstUses taken rest else (a, n) :: firstUses (n :: taken) rest

/-- The other pairs. -/
def laterUses {α : Type} : (taken : List Int) → List (α × Int) → List (α × Int)
  | _, [] => []
  | taken, (a, n) :: rest => if n ∈ taken then (a, n) :: laterUses taken rest else laterUses (n :: taken) rest

/-- Properties that stand for fields have become fields, or there are remarks on them. -/
structure Balanced (env : Setting ρ) (s : State ρ) (t : ρ) (constants : List (Catalog.Field ρ))
    (values : List (Catalog.Property ρ)) (taken : List Int) (x x' : Progress) (numbers : List Int)
    (fields : List Schema.Field) : Prop where
  numbered : (constants.take values.length).map numberOf? = numbers.map some
  each : List.Forall₂ (IsFieldOf env s) (firstUses taken (values.zip numbers)) fields
  all : x'.draft.fields.Perm (fields ++ x.draft.fields)
  remarks : x'.remarks = x.remarks ++
    (laterUses taken (values.zip numbers)).map (duplicateRemark (env.catalog.fullName t)) ++
    (values.drop constants.length).map (missingRemark (env.catalog.fullName t))

section Balanced
variable {env : Setting ρ} {s : State ρ} {t : ρ} {k : Catalog.Field ρ} {constants : List (Catalog.Field ρ)}
  {p : Catalog.Property ρ} {values : List (Catalog.Property ρ)} {taken numbers : List Int} {m : Message}
  {r : List Diagnostic} {x' : Progress} {fields : List Schema.Field} {n : Int} {f : Schema.Field}

theorem balanced_nil (x : Progress) : Balanced env s t constants [] taken x x [] [] where
  numbered := by simp
  each := .nil
  all := .refl _
  remarks := by simp [laterUses]

theorem Balanced.missing
    (h : Balanced env s t [] values taken ⟨m, r ++ [missingRemark (env.catalog.fullName t) p]⟩ x' numbers fields) :
    Balanced env s t [] (p :: values) taken ⟨m, r⟩ x' numbers fields := by
  obtain rfl : numbers = [] := by simpa using h.numbered
  refine ⟨by simp, by simpa using h.each, h.all, ?_⟩
  simpa [laterUses] using h.remarks

theorem Balanced.duplicate (hn : numberOf? k = some n) (htaken : n ∈ taken)
    (h : Balanced env s t constants values taken ⟨m, r ++ [duplicateRemark (env.catalog.fullName t) (p, n)]⟩ x' numbers
      fields) :
    Balanced env s t (k :: constants) (p :: values) taken ⟨m, r⟩ x' (n :: numbers) fields where
  numbered := by simpa [hn] using h.numbered
  each := by simpa [firstUses, htaken] using h.each
  all := h.all
  remarks := by simpa [laterUses, htaken] using h.remarks

theorem Balanced.field (hn : numberOf? k = some n) (hfresh : n ∉ taken) (hf : IsFieldOf env s (p, n) f)
    (hinsert : (m.insert f).fields.Perm (f :: m.fields))
    (h : Balanced env s t constants values (n :: taken) ⟨m.insert f, r⟩ x' numbers fields) :
    Balanced env s t (k :: constants) (p :: values) taken ⟨m, r⟩ x' (n :: numbers) (f :: fields) where
  numbered := by simpa [hn] using h.numbered
  each := by simpa [firstUses, hfresh] using ⟨hf, h.each⟩
  all := (h.all.trans (hinsert.append_left fields)).trans List.perm_middle
  remarks := by simpa [laterUses, hfresh] using h.remarks

end Balanced

section Walk
variable [DecidableEq ρ] {env : Setting ρ} {s : State ρ} {t : ρ} {matched : Bool} {constants : List (Catalog.Field ρ)}
  {properties : List (Catalog.Property ρ)} {x x' : Progress}

theorem Walk.balanced (h : Walk env s t matched constants properties x x') {taken : List Int}
    (htaken : ∀ n, (x.draft.field? n).isSome = true ↔ n ∈ taken) :
    ∃ numbers fields, Balanced env s t constants
      ((accepted env s t matched constants.length properties).filter fun p => !tellsCase env s t p) taken x x' numbers
        fields := by
  induction h generalizing taken with
  | finished => exact ⟨[], [], balanced_nil _⟩
  | companion tells _ ih => exact accepted_companion tells ▸ ih htaken
  | passed own unread _ ih => exact accepted_passed own unread ▸ ih htaken
  | choice own read case _ ih =>
    obtain ⟨numbers, fields, hnext⟩ := ih htaken
    refine ⟨numbers, fields, ?_⟩
    rw [accepted_choice own read case, List.filter_cons_of_neg (by simp [case])]
    exact ⟨hnext.numbered, hnext.each, hnext.all, hnext.remarks⟩
  | missing own read value _ ih =>
    obtain ⟨numbers, fields, hnext⟩ := ih htaken
    refine ⟨numbers, fields, ?_⟩
    rw [accepted_value own read value, List.filter_cons_of_pos (by simp [value])]
    exact hnext.missing
  | @duplicate _ k constants p _ _ _ _ n own read value number there _ ih =>
    obtain ⟨numbers, fields, hnext⟩ := ih htaken
    refine ⟨n :: numbers, fields, ?_⟩
    rw [accepted_value own read value, List.filter_cons_of_pos (by simp [value])]
    simpa using hnext.duplicate number ((htaken n).1 there)
  | @field _ k constants p _ m _ _ n f own read value number fresh isField _ ih =>
    have hnumber : f.number = n := isField.number
    have hinsert : (m.insert f).fields.Perm (f :: m.fields) :=
      Message.insertAscending_perm fun hmem => fresh (Message.field?_isSome.2 (hnumber ▸ hmem))
    have htaken' : ∀ i, ((m.insert f).field? i).isSome = true ↔ i ∈ n :: taken := by
      intro i
      rw [Message.field?_isSome, (hinsert.map _).mem_iff, List.map_cons, List.mem_cons, List.mem_cons,
        ← Message.field?_isSome, htaken, hnumber]
    obtain ⟨numbers, fields, hnext⟩ := ih htaken'
    refine ⟨n :: numbers, f :: fields, ?_⟩
    rw [accepted_value own read value, List.filter_cons_of_pos (by simp [value])]
    simpa using hnext.field number (fun hmem => fresh ((htaken n).2 hmem)) isField hinsert

end Walk

/-! ## Members of choices -/

/-- The number that a remark says no field has. -/
def Diagnostic.dangling? (d : Diagnostic) : Option Int :=
  match d.anomaly with
  | .danglingMember n => some n
  | _ => none

/-- The name of the choice that a remark says has no members. -/
def Diagnostic.emptied? (d : Diagnostic) : Option String :=
  match d.anomaly with
  | .emptyChoice => some d.member
  | _ => none

/-- What is said of choices once they are sorted out. -/
def choiceRemarks (type : String) (xs : List (String × Settled)) : List Diagnostic :=
  xs.flatMap fun (name, s) => (choiceAnomalies s).map (⟨type, name, ·⟩)

section Settle
variable (isThere : Int → Bool) (type : String)

theorem settleNumbers_perm (claimed numbers : List Int) :
    numbers.Perm ((settleNumbers isThere claimed numbers).kept ++ (settleNumbers isThere claimed numbers).dropped) := by
  induction numbers generalizing claimed with
  | nil => exact .refl _
  | cons n rest ih =>
    unfold settleNumbers
    dsimp only
    split
    · exact (ih (n :: claimed)).cons n
    · exact ((ih claimed).cons n).trans List.perm_middle.symm

theorem settleChoices_perm (claimed : List Int) (cs : List Choice) :
    (cs.flatMap (·.numbers)).Perm ((settleChoices isThere claimed cs).flatMap (·.2.kept) ++
      (settleChoices isThere claimed cs).flatMap (·.2.dropped)) := by
  induction cs generalizing claimed with
  | nil => exact .refl _
  | cons c rest ih =>
    have hrest := ih (settleNumbers isThere claimed c.numbers).claimed
    simp only [settleChoices, List.flatMap_cons]
    refine ((settleNumbers_perm isThere claimed c.numbers).append hrest).trans ?_
    simp only [← Multiset.coe_eq_coe, ← Multiset.coe_add]
    exact add_add_add_comm _ _ _ _

theorem names_settleChoices (claimed : List Int) (cs : List Choice) :
    (settleChoices isThere claimed cs).map (·.1) = cs.map (·.name) := by
  induction cs generalizing claimed with
  | nil => rfl
  | cons c rest ih => simp [settleChoices, ih]

theorem dangling_choiceRemarks (xs : List (String × Settled)) :
    (choiceRemarks type xs).filterMap (·.dangling?) = xs.flatMap (·.2.dropped) := by
  have heach : ∀ name (s : Settled),
      ((choiceAnomalies s).map (Diagnostic.mk type name)).filterMap (·.dangling?) = s.dropped := by
    intro name s
    unfold choiceAnomalies
    split <;> simp [List.filterMap_map, Function.comp_def, Diagnostic.dangling?]
  rw [choiceRemarks, List.filterMap_flatMap]
  simp only [heach]

theorem names_perm (xs : List (String × Settled)) :
    (xs.map (·.1)).Perm ((leftChoices xs).map (·.name) ++ (choiceRemarks type xs).filterMap (·.emptied?)) := by
  have heach : ∀ name (s : Settled), ((choiceAnomalies s).map (Diagnostic.mk type name)).filterMap (·.emptied?) =
      if s.kept.isEmpty then [name] else [] := by
    intro name s
    unfold choiceAnomalies
    split <;> simp [List.filterMap_map, Function.comp_def, Diagnostic.emptied?]
  induction xs with
  | nil => exact .refl _
  | cons x rest ih =>
    obtain ⟨name, s⟩ := x
    rw [choiceRemarks, List.flatMap_cons, ← choiceRemarks, List.filterMap_append, heach]
    rw [leftChoices, List.filterMap_cons, ← leftChoices]
    cases hkept : s.kept.isEmpty with
    | true => simpa [hkept] using (ih.cons name).trans List.perm_middle.symm
    | false => simpa [hkept] using ih.cons name

/-- What is said of the choices of a message. -/
def settleRemarks (m : Message) : List Diagnostic :=
  choiceRemarks type (settleChoices (fun n => (m.field? n).isSome) [] m.choices)

theorem map_settle (m : Message) :
    ((settle m).2.map fun (member, x) => Diagnostic.mk type member x) = settleRemarks type m := by
  simp [settle, settleRemarks, choiceRemarks, List.map_flatMap, Function.comp_def]

theorem settle_members (m : Message) :
    (m.choices.flatMap (·.numbers)).Perm
      ((settle m).1.choices.flatMap (·.numbers) ++ (settleRemarks type m).filterMap (·.dangling?)) := by
  rw [settle_eq, settleRemarks, numbers_leftChoices, dangling_choiceRemarks]
  exact settleChoices_perm _ [] m.choices

theorem settle_names (m : Message) :
    (m.choices.map (·.name)).Perm
      ((settle m).1.choices.map (·.name) ++ (settleRemarks type m).filterMap (·.emptied?)) := by
  rw [settle_eq, settleRemarks, ← names_settleChoices (fun n => (m.field? n).isSome) []]
  exact names_perm type _

theorem of_mem_choiceRemarks {xs : List (String × Settled)} {d : Diagnostic} (h : d ∈ choiceRemarks type xs) :
    d.type = type ∧ (d.dangling?.isSome = true ∨ d.emptied?.isSome = true) := by
  obtain ⟨⟨name, s⟩, -, hd⟩ := List.mem_flatMap.1 h
  obtain ⟨x, hx, rfl⟩ := List.mem_map.1 hd
  refine ⟨rfl, ?_⟩
  rcases List.mem_append.1 hx with hx | hx
  · obtain ⟨n, -, rfl⟩ := List.mem_map.1 hx
    exact .inl rfl
  · split at hx
    · obtain rfl := List.mem_singleton.1 hx
      exact .inr rfl
    · cases hx

end Settle

/-! ## All of a class -/

/-- What becomes of the properties of a class that count. As long as there are constants, the properties that stand for
fields have one each, in order; `numbers` are their numbers. A property whose number no earlier one has is a field, and
there is one remark on every other, in what `after` adds to `before`. The numbers that choices list are kept or remarked
on, and so are the choices themselves; `settled` are the remarks on those. -/
structure Accounted [DecidableEq ρ] (env : Setting ρ) (s : State ρ) (t : ρ) (before after : List Diagnostic)
    (m : Message) (numbers : List Int) (fields : List Schema.Field) (settled : List Diagnostic) : Prop where
  numbered : ((constantsOf env t).take (valuesOf env s t).length).map numberOf? = numbers.map some
  each : List.Forall₂ (IsFieldOf env s) (firstUses [] ((valuesOf env s t).zip numbers)) fields
  all : m.fields.Perm fields
  remarks : after = before ++
    (laterUses [] ((valuesOf env s t).zip numbers)).map (duplicateRemark (env.catalog.fullName t)) ++
    ((valuesOf env s t).drop (constantsOf env t).length).map (missingRemark (env.catalog.fullName t)) ++ settled
  only : ∀ d ∈ settled, d.type = env.catalog.fullName t ∧ (d.dangling?.isSome = true ∨ d.emptied?.isSome = true)
  members : ((casesOf env s t).flatMap fun p => caseNumbers env.catalog (propertyType env s p)).Perm
    (m.choices.flatMap (·.numbers) ++ settled.filterMap (·.dangling?))
  choices : ((casesOf env s t).map fun p => Identifier.choiceName env.names p.name).Perm
    (m.choices.map (·.name) ++ settled.filterMap (·.emptied?))

theorem IsFieldOf.settled {env : Setting ρ} {s : State ρ} {pair : Catalog.Property ρ × Int} {f : Schema.Field}
    (h : IsFieldOf env s pair f) (claimed : List Int) : IsFieldOf env s pair (settledField claimed f) where
  name := (name_settledField claimed f).trans h.name
  number := (number_settledField claimed f).trans h.number
  type := (type_settledField claimed f).symm ▸ h.type

theorem exists_message_finishMessage {S : Schema} {id : DeclId} (h : kindOf? S id = some .message) (m : Message) :
    ∃ nested, (finishMessage S id m).decls[id]?.bind (·.message?) = some { m with nested } := by
  obtain ⟨d, hd, hk⟩ := exists_decl_of_kindOf? h
  cases hb : d.body with
  | message old =>
    refine ⟨old.nested, ?_⟩
    simp [finishMessage, Schema.decls_modifyDecl, hd, hb, Schema.Declaration.message?]
  | enum e => simp [hb, Schema.Body.kind] at hk
  | service e => simp [hb, Schema.Body.kind] at hk

section Message
variable [DecidableEq ρ] {env : Setting ρ} {s s₁ s₂ s' : State ρ} {t : ρ} {id : DeclId} {m : Message}
  (hM : Roams env.catalog .growing) (hproperties : ∀ pool, Lasts pool (env.catalog.properties t))
include hM hproperties

theorem accounted_messageBody {depth : Nat} (h : Gives (messageBody env (callsWithin env depth) t id) s₁ m s₂)
    (hnoted : s₁.find? (env.catalog.fullName t) ≠ none) (hlater : Later s₂ s) :
    ∃ numbers fields settled, Accounted env s t (s₁.remarksOn (env.catalog.fullName t))
      (s₂.remarksOn (env.catalog.fullName t)) m numbers fields settled := by
  obtain ⟨w, s₃, hw, rfl, rfl⟩ := gives_messageBody.1 h
  obtain ⟨hs, hwalk⟩ := walks_addProperties hM hw (s := s) hnoted ⟨hlater.memo, hlater.pool⟩
  obtain ⟨-, hsame⟩ := hs.of_after (hproperties _)
  have hwalk := hwalk false fun _ _ => rfl
  rw [← hsame] at hwalk
  have hnone : ∀ n, (Message.field? {} n).isSome = true ↔ n ∈ ([] : List Int) := by simp [Message.field?]
  obtain ⟨numbers, fields, hbalanced⟩ := hwalk.balanced hnone
  have hcases : w.message.choices = (casesOf env s t).map fun p => choiceOf env p (propertyType env s p) := hwalk.choices
  have hmembers := settle_members (env.catalog.fullName t) w.message
  have hnames := settle_names (env.catalog.fullName t) w.message
  rw [hcases, List.flatMap_map] at hmembers
  rw [hcases, List.map_map] at hnames
  have hfields := hbalanced.all
  rw [List.append_nil] at hfields
  refine ⟨numbers, fields.map (settledField _), settleRemarks (env.catalog.fullName t) w.message, hbalanced.numbered, ?_,
    hfields.map _, ?_, fun d hd => of_mem_choiceRemarks _ hd, hmembers, hnames⟩
  · exact List.forall₂_map_right_iff.2 (hbalanced.each.imp fun _ _ hf => hf.settled _)
  · rw [State.remarksOn, List.filter_append, filter_remarks, if_pos rfl, map_settle]
    exact congrArg (· ++ _) hbalanced.remarks

/-- The remarks that a new class has at the end are those on its properties. -/
theorem accounted_recoverMessage (hnew : s.find? (env.catalog.fullName t) = none)
    (h : Gives (recoverMessage env t) s id s') :
    ∃ m numbers fields settled, s'.schema.decls[id]?.bind (·.message?) = some m ∧
      Accounted env s' t (s.remarksOn (env.catalog.fullName t)) (s'.remarksOn (env.catalog.fullName t)) m numbers fields
        settled := by
  have h := gives_recoverMessage.1 h
  generalize depthFor env.catalog s t = depth at h
  cases depth with
  | zero => exact absurd h gives_throw
  | succ depth =>
    have hcalls := tracked_callsWithin env hM depth
    obtain ⟨-, ⟨hold, -⟩ | ⟨-, rfl, attributes, s₁, m, s₂, -, hp, hm, rfl⟩⟩ := gives_message.1 h
    · cases hnew.symm.trans hold
    · have hp : Gives (place env (callsWithin env depth) t s.schema.size)
          (s.introduced env t attributes Schema.Kind.message.emptyBody) () s₁ := hp
      have hdeclared : (s.introduced env t attributes Schema.Kind.message.emptyBody).find? (env.catalog.fullName t) =
          some s.schema.size := find?_introduced attributes hnew
      -- The class has its declaration by now, so nothing is said of it while the class around it is recovered.
      obtain ⟨hnoted, hremarks⟩ := silentOn_place (discreet_callsWithin env depth) hp (by rw [hdeclared]; simp)
      have hsolitary := solitary_introduced s env t attributes .message
      have hplaced := ((moves_place hM hcalls le_rfl hsolitary hsolitary.lt).of_gives hp).1
      have hid := hsolitary.lt.trans_le hplaced.size_le
      have hread := ((moves_messageBody hM hcalls hid.le hid).of_gives hm).1
      have hkind := kindOf?_of_does hM (hplaced.trans hread)
      obtain ⟨nested, hdecl⟩ := exists_message_finishMessage hkind m
      obtain ⟨numbers, fields, settled, hbody⟩ := accounted_messageBody hM hproperties hm hnoted
        (s := s₂.changed (finishMessage · s.schema.size m)) ⟨fun _ _ => id, .refl _⟩
      rw [hremarks] at hbody
      exact ⟨_, numbers, fields, settled, hdecl, hbody.numbered, hbody.each, hbody.all, hbody.remarks, hbody.only,
        hbody.members, hbody.choices⟩

end Message

/-- Whatever metadata is read and in whatever state, a message class that is recovered anew has all of its properties
accounted for. -/
theorem properties_accounted {names : Option Identifier.Dictionary} {options : Options} {id : DeclId} :
    (∀ (lib : Managed.Library) (t : Managed.TypeRef) (s s' : State Managed.TypeRef),
      s.find? (lib.catalog.fullName t) = none → Gives (recoverMessage ⟨lib.catalog, names, options⟩ t) s id s' →
      ∃ m numbers fields settled, s'.schema.decls[id]?.bind (·.message?) = some m ∧
        Accounted ⟨lib.catalog, names, options⟩ s' t (s.remarksOn (lib.catalog.fullName t))
          (s'.remarksOn (lib.catalog.fullName t)) m numbers fields settled) ∧
    ∀ (st : Il2cpp.Store) (t : Il2cpp.Handle) (s s' : State Il2cpp.Handle),
      s.find? (st.catalog.fullName t) = none → Gives (recoverMessage ⟨st.catalog, names, options⟩ t) s id s' →
      ∃ m numbers fields settled, s'.schema.decls[id]?.bind (·.message?) = some m ∧
        Accounted ⟨st.catalog, names, options⟩ s' t (s.remarksOn (st.catalog.fullName t))
          (s'.remarksOn (st.catalog.fullName t)) m numbers fields settled := by
  constructor
  · intro lib t s s' hnew h
    have hM : Roams (Setting.mk lib.catalog names options).catalog .growing := Managed.roams_library lib
    exact accounted_recoverMessage hM (fun _ => Managed.lasts_collect _ t) hnew h
  · intro st t s s' hnew h
    have hM : Roams (Setting.mk st.catalog names options).catalog .growing := roams_store st
    exact accounted_recoverMessage hM (fun _ => lasts_pure) hnew h

section Sample

open Managed (Assembly Library TypeRef)

/-- A class with a name that may be unset and an alias of the same number; of its choices one lists a number that no
field has and one lists nothing, and there is no constant for its last property. -/
def billAssembly : Assembly where
  name := "App"
  types :=
    let bill : Managed.Generated.Message :=
      { name := "Bill", namespaceName := some "App"
        items := [.field ⟨"Name", 1, .named "System.String", true⟩, .field ⟨"Alias", 1, .named "System.String", false⟩,
          .choice ⟨"Kind", [("Name", 1), ("Lost", 9)]⟩, .choice ⟨"Void", []⟩,
          .field ⟨"Extra", 3, .named "System.Int32", false⟩] }
    { bill.definition with fields := bill.definition.fields.take 2 } :: bill.definitions.drop 1

/-- The assembly loaded. -/
def billLibrary : Library := .ofAssemblies [billAssembly] []

/-- The class is recovered. -/
def billOutcome : Except Error DeclId × State TypeRef :=
  outcome (recoverMessage ⟨billLibrary.catalog, none, {}⟩ (.named "App.Bill")) (start billLibrary.catalog)

/-- Of three properties that stand for fields one becomes a field, and of two choices one is left with one member; there
is a remark on each of the others. -/
theorem properties_accounted_bill :
    Gives (recoverMessage ⟨billLibrary.catalog, none, {}⟩ (.named "App.Bill")) (start billLibrary.catalog) 0
        billOutcome.2 ∧
      (valuesOf ⟨billLibrary.catalog, none, {}⟩ billOutcome.2 (.named "App.Bill")).map (·.name) =
        ["Name", "Alias", "Extra"] ∧
      (casesOf ⟨billLibrary.catalog, none, {}⟩ billOutcome.2 (.named "App.Bill")).map (·.name) =
        ["KindCase", "VoidCase"] ∧
      (billOutcome.2.remarksOn "App.Bill").map (fun d => (d.member, d.anomaly)) =
        [("Alias", .duplicateNumber 1), ("Extra", .missingNumber), ("kind", .danglingMember 9),
          ("void", .emptyChoice)] ∧
      ∃ m numbers fields settled, billOutcome.2.schema.decls[0]?.bind (·.message?) = some m ∧
        Accounted ⟨billLibrary.catalog, none, {}⟩ billOutcome.2 (.named "App.Bill") []
          (billOutcome.2.remarksOn "App.Bill") m numbers fields settled := by
  have hgives : Gives (recoverMessage ⟨billLibrary.catalog, none, {}⟩ (.named "App.Bill")) (start billLibrary.catalog) 0
      billOutcome.2 := gives_of_outcome (by decide +kernel)
  exact ⟨hgives, by decide +kernel, by decide +kernel, by decide +kernel,
    properties_accounted.1 billLibrary _ _ _ rfl hgives⟩

end Sample

end ProtoRecovery.Recovery
