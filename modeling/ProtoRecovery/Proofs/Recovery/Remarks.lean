import ProtoRecovery.Proofs.Recovery.Visits
/-!
# What is said of a class

Anomalies are noted of the class that is being recovered, and a class is recovered once. So whatever is recovered while
a class has its declaration already, nothing more is said of that class.
-/

namespace ProtoRecovery.Recovery

open Schema (DeclId FieldType EnumMember Message)

variable {ρ : Type}

/-- The anomalies noted of a class. -/
def State.remarksOn (s : State ρ) (n : String) : List Diagnostic := s.diagnostics.filter (·.type == n)

/-- A class that has a declaration still has one, and nothing more was said of it. -/
def SilentOn (n : String) (s s' : State ρ) : Prop :=
  s.find? n ≠ none → s'.find? n ≠ none ∧ s'.remarksOn n = s.remarksOn n

section States
variable {n : String} {s s₁ s' : State ρ}

theorem SilentOn.refl (n : String) (s : State ρ) : SilentOn n s s := fun h => ⟨h, rfl⟩

theorem SilentOn.trans (h : SilentOn n s s₁) (h' : SilentOn n s₁ s') : SilentOn n s s' := by
  intro hs
  obtain ⟨hs₁, hsame⟩ := h hs
  obtain ⟨hs', hsame'⟩ := h' hs₁
  exact ⟨hs', hsame'.trans hsame⟩

theorem silentOn_of_same (hmemo : s'.memo = s.memo) (hdiagnostics : s'.diagnostics = s.diagnostics) :
    SilentOn n s s' := by
  intro h
  constructor
  · rwa [State.find?, hmemo]
  · rw [State.remarksOn, State.remarksOn, hdiagnostics]

theorem silentOn_after {α : Type} (q : Catalog.Look ρ α) : SilentOn n s (s.after q) := silentOn_of_same rfl rfl

theorem silentOn_changed (f : Schema → Schema) : SilentOn n s (s.changed f) := silentOn_of_same rfl rfl

theorem silentOn_declared (fullName name : String) (isDeprecated : Bool) (body : Schema.Body) :
    SilentOn n s (s.declared fullName name isDeprecated body) := by
  intro h
  refine ⟨fun hnone => h ?_, rfl⟩
  rw [State.find?, State.declared, List.lookup_append] at hnone
  exact (Option.or_eq_none_iff.1 hnone).1

theorem silentOn_diagnosed {type : String} (h : type ≠ n) (member : String) (x : Anomaly) :
    SilentOn n s (s.diagnosed type member x) := by
  intro hs
  refine ⟨hs, ?_⟩
  simp [State.remarksOn, State.diagnosed, h]

theorem remarksOn_diagnosed (member : String) (x : Anomaly) :
    (s.diagnosed n member x).remarksOn n = s.remarksOn n ++ [⟨n, member, x⟩] := by
  simp [State.remarksOn, State.diagnosed]

/-- Of all that is said of one class, what is said of a class. -/
theorem filter_remarks (type n : String) (xs : List (String × Anomaly)) :
    (xs.map fun (member, x) => Diagnostic.mk type member x).filter (·.type == n) =
      if type = n then xs.map fun (member, x) => ⟨type, member, x⟩ else [] := by
  split
  · rename_i h
    simp [List.filter_map, Function.comp_def, h]
  · rename_i h
    simp [List.filter_map, Function.comp_def, h]

end States

/-- Calls that end well say nothing of classes that have declarations. -/
structure Discreet (calls : Calls ρ) : Prop where
  message : ∀ {t s id s' n}, Gives (calls.message t) s id s' → SilentOn n s s'
  enum : ∀ {t s id s' n}, Gives (calls.enum t) s id s' → SilentOn n s s'
  fieldType : ∀ {source t s type s' n}, Gives (calls.fieldType source t) s type s' → SilentOn n s s'

section Steps
variable {env : Setting ρ} {calls : Calls ρ} (hc : Discreet calls) {s s' : State ρ} {t : ρ} {id source : DeclId}
  {n : String}

include hc in
theorem silentOn_place {u : Unit} (h : Gives (place env calls t id) s u s') : SilentOn n s s' := by
  rcases gives_place.1 h with ⟨owner, parent, s₁, -, hm, rfl⟩ | ⟨-, rfl⟩
  · exact ((silentOn_after _).trans (hc.message hm)).trans (silentOn_changed _)
  · exact (silentOn_after _).trans (silentOn_changed _)

include hc in
theorem silentOn_singleType {type : FieldType} (h : Gives (singleType env calls source t) s type s') :
    SilentOn n s s' := by
  have h := gives_singleType.1 h
  split at h
  · obtain ⟨-, rfl⟩ := h
    exact .refl n s
  · obtain ⟨-, rfl⟩ := h
    exact silentOn_changed _
  · split at h
    · split at h
      · obtain ⟨-, rfl⟩ := h
        exact .refl n s
      · obtain ⟨target, s₁, he, -, rfl⟩ := h
        exact (hc.enum he).trans (silentOn_changed _)
    · obtain ⟨target, s₁, hm, -, rfl⟩ := h
      exact (hc.message hm).trans (silentOn_changed _)

include hc in
theorem silentOn_fieldType {type : FieldType} (h : Gives (fieldType env calls source t) s type s') :
    SilentOn n s s' := by
  have h := gives_fieldType.1 h
  refine (silentOn_after (env.catalog.argumentsOf t)).trans ?_
  split at h
  · obtain ⟨-, rfl⟩ := h
    exact silentOn_changed _
  · obtain ⟨e, he, -⟩ := h
    exact hc.fieldType he
  · obtain ⟨k, s₁, v, hk, hv, -⟩ := h
    exact (hc.fieldType hk).trans (hc.fieldType hv)
  · exact silentOn_singleType hc h

theorem silentOn_enumMembers {enumName : String} {fields : List (Catalog.Field ρ)} {members : List EnumMember}
    (h : Gives (enumMembers env t enumName fields) s members s') : SilentOn n s s' := by
  induction fields generalizing s members with
  | nil =>
    obtain ⟨-, rfl⟩ := gives_pure.1 h
    exact .refl n s
  | cons f rest ih =>
    simp only [enumMembers, gives_bind, gives_pure] at h
    obtain ⟨m, s₁, hm, ms, s₂, hms, -, rfl⟩ := h
    refine SilentOn.trans ?_ (ih hms)
    rw [enumMember_eq] at hm
    split at hm
    · exact absurd hm gives_throw
    · obtain ⟨attributes, -, hm⟩ := gives_search_bind.1 hm
      obtain ⟨-, rfl⟩ := gives_pure.1 hm
      exact silentOn_after _

section Messages
variable [DecidableEq ρ] (hn : env.catalog.fullName t ≠ n)
include hc hn

omit [DecidableEq ρ] in
theorem silentOn_addTold {p : Catalog.Property ρ} {told : Told ρ} {w w' : InProgress ρ}
    (h : Gives (addTold env calls t id p w told) s w' s') : SilentOn n s s' := by
  have h := gives_addTold.1 h
  cases told with
  | nothing | choice =>
    obtain ⟨-, rfl⟩ := h
    exact .refl n s
  | unnumbered =>
    obtain ⟨-, rfl⟩ := h
    exact silentOn_diagnosed hn p.name .missingNumber
  | field type attributes number isOptional =>
    dsimp only at h
    split at h
    · obtain ⟨-, rfl⟩ := h
      exact silentOn_diagnosed hn p.name (.duplicateNumber number)
    · obtain ⟨found, hfound, -⟩ := h
      exact hc.fieldType hfound

theorem silentOn_addProperties {properties : List (Catalog.Property ρ)} {w w' : InProgress ρ}
    (h : Gives (addProperties env calls t id properties w) s w' s') : SilentOn n s s' := by
  refine stepThrough_trans (SilentOn.refl n) SilentOn.trans ?_ h
  intro p rest w s w₁ s₁ hstep
  have hstep := gives_addProperty.1 hstep
  split at hstep
  · obtain ⟨-, rfl⟩ := hstep
    exact .refl n s
  · obtain ⟨told, s₂, htold, hstep⟩ := hstep
    obtain ⟨-, rfl⟩ := gives_search.1 htold
    exact (silentOn_after _).trans (silentOn_addTold hc hn hstep)

theorem silentOn_messageBody {m : Message} (h : Gives (messageBody env calls t id) s m s') : SilentOn n s s' := by
  obtain ⟨raw, s₁, hraw, -, rfl⟩ := gives_messageBody.1 h
  refine ((silentOn_after _).trans (silentOn_addProperties hc hn hraw)).trans fun hs => ⟨hs, ?_⟩
  rw [State.remarksOn, List.filter_append, filter_remarks, if_neg hn, List.append_nil]
  rfl

end Messages

/-- A class that is new is not one that has a declaration, whatever is said of it. -/
theorem silentOn_introduce {σ : Type} {empty : Schema.Body} {settleIn : DeclId → Recover ρ Unit}
    {read : DeclId → Recover ρ σ} {finish : Schema → DeclId → σ → Schema}
    (h : Gives (introduce env t empty settleIn read finish) s id s')
    (hsettle : ∀ {s₁ s₂ : State ρ}, Gives (settleIn id) s₁ () s₂ → SilentOn n s₁ s₂)
    (hread : ∀ {x : σ} {s₁ s₂ : State ρ}, env.catalog.fullName t ≠ n → Gives (read id) s₁ x s₂ → SilentOn n s₁ s₂) :
    SilentOn n s s' := by
  rcases gives_introduce.1 h with ⟨-, rfl⟩ | ⟨hnew, -, attributes, s₁, x, s₂, -, hp, hx, rfl⟩
  · exact .refl n s
  · intro hs
    have hn : env.catalog.fullName t ≠ n := by
      rintro rfl
      exact hs hnew
    have hbody := ((hsettle hp).trans (hread hn hx)).trans (silentOn_changed (finish · id x))
    exact (silentOn_after (attributesOf env.catalog t)).trans ((silentOn_declared _ _ _ _).trans hbody) hs

include hc in
theorem silentOn_message [DecidableEq ρ] (h : Gives (message env calls t) s id s') : SilentOn n s s' := by
  rw [message_eq (gives_message.1 h).1] at h
  exact silentOn_introduce h (silentOn_place hc) fun hn => silentOn_messageBody hc hn

include hc in
theorem silentOn_enum (h : Gives (enum env calls t) s id s') : SilentOn n s s' := by
  rw [enum_eq (gives_enum.1 h).1] at h
  exact silentOn_introduce h (silentOn_place hc) fun _ => silentOn_enumMembers

end Steps

theorem discreet_callsWithin [DecidableEq ρ] (env : Setting ρ) (depth : Nat) : Discreet (callsWithin env depth) := by
  induction depth with
  | zero => exact ⟨fun h => absurd h gives_throw, fun h => absurd h gives_throw, fun h => absurd h gives_throw⟩
  | succ depth ih => exact ⟨silentOn_message ih, silentOn_enum ih, silentOn_fieldType ih⟩

end ProtoRecovery.Recovery
