import ProtoRecovery.Proofs.Recovery.Visits
/-!
# What a recovery fails with

An error of a recovery is about what the catalog says: a class of the wrong shape, a constant that is no number, a
method that cannot be told, or attributes that cannot be read. `Results` says of a step what it may fail with and what
it may give, whatever state it is taken in. There is one lemma for each step of a recovery, given that the calls it makes
fail with such errors only.
-/

namespace ProtoRecovery.Recovery

open Schema (DeclId)
open Catalog (Look Search Pool Attributes)

variable {ε σ ρ α β : Type}

/-! ## Steps that may fail -/

/-- A result is an error of one kind, or a value of another. -/
def Within (E : ε → Prop) (P : α → Prop) : Except ε α → Prop
  | .error e => E e
  | .ok a => P a

/-- Whatever state a step is taken in, it fails with such an error or gives such a value. -/
def Results (E : ε → Prop) (P : α → Prop) (m : ExceptT ε (StateM σ) α) : Prop := ∀ s, Within E P (m.run.run s).1

section Results
variable {E : ε → Prop} {P : α → Prop} {Q : β → Prop} {m : ExceptT ε (StateM σ) α} {f : α → ExceptT ε (StateM σ) β}

theorem Results.error {s : σ} {e : ε} (h : Results E P m) (hm : (m.run.run s).1 = .error e) : E e := by
  have hs := h s
  rw [hm] at hs
  exact hs

theorem Results.ok {s : σ} {a : α} (h : Results E P m) (hm : (m.run.run s).1 = .ok a) : P a := by
  have hs := h s
  rw [hm] at hs
  exact hs

theorem Results.imp {E' : ε → Prop} {P' : α → Prop} (h : Results E P m) (hE : ∀ e, E e → E' e) (hP : ∀ a, P a → P' a) :
    Results E' P' m := by
  intro s
  have hs := h s
  revert hs
  cases (m.run.run s).1 with
  | error e => exact hE e
  | ok a => exact hP a

theorem results_pure {a : α} (h : P a) : Results E P (pure a : ExceptT ε (StateM σ) α) := fun _ => h

theorem results_throw {e : ε} (h : E e) : Results E P (throw e : ExceptT ε (StateM σ) α) := fun _ => h

theorem results_bind (hm : Results E P m) (hf : ∀ a, P a → Results E Q (f a)) : Results E Q (m >>= f) := by
  intro s
  have hs := hm s
  rw [run_bind]
  revert hs
  rcases m.run.run s with ⟨e | a, s₁⟩
  · exact id
  · exact fun ha => hf a ha s₁

theorem results_forM {f : α → ExceptT ε (StateM σ) PUnit} {l : List α} (hf : ∀ a ∈ l, Results E (fun _ => True) (f a)) :
    Results E (fun _ => True) (l.forM f) := by
  induction l with
  | nil => exact results_pure trivial
  | cons a rest ih => exact results_bind (hf a (by simp)) fun _ _ => ih fun b hb => hf b (by simp [hb])

end Results

section Steps
variable {E : Error → Prop} {P : α → Prop}

/-- What questions are answered does not depend on who asks. -/
theorem results_lift {q : Look ρ α} (h : ∀ pool, P (q.run pool).1) : Results E P (liftM q : Search ρ α) := h

theorem results_look {q : Look ρ α} (h : ∀ pool, P (q.run pool).1) : Results E P (look q) := fun s => h s.pool

theorem results_search {q : Search ρ α} (h : Results E P q) : Results E P (search q) := by
  intro s
  have hs := h s.pool
  show Within E P (outcome (search q) s).1
  rw [outcome_search]
  exact hs

theorem results_stepThrough {ι τ : Type} {step : ι → List ι → τ → Recover ρ τ} {l : List ι} {w : τ}
    {I : List ι → τ → Prop} (hstep : ∀ {i rest w}, I (i :: rest) w → Results E (I rest) (step i rest w)) (h : I l w) :
    Results E (I []) (stepThrough step l w) := by
  intro s
  refine outcome_stepThrough (J := fun l w _ r => I l w → Within E (I []) r.1) (fun _ _ hw => hw) ?_ ?_ h
  · exact fun hfailed hw => (hstep hw).error (congrArg Prod.fst hfailed)
  · exact fun hgives hrest hw => hrest ((hstep hw).ok (congrArg Prod.fst hgives))

theorem results_change {f : Schema → Schema} : Results E (fun _ => True) (change f : Recover ρ Unit) := fun _ => trivial

theorem results_diagnose {type member : String} {x : Anomaly} :
    Results E (fun _ => True) (diagnose type member x : Recover ρ Unit) := fun _ => trivial

end Steps

/-! ## Complaints -/

/-- Attributes that a catalog gives, of a type or of one of its members. -/
inductive Attributed (c : Catalog ρ) : Attributes ρ → Prop
  | type (t : ρ) : Attributed c (c.attributes t)
  | field {t : ρ} {f : Catalog.Field ρ} : f ∈ c.fields t → Attributed c f.attributes
  | property {t : ρ} {pool : Pool ρ} {p : Catalog.Property ρ} : p ∈ ((c.properties t).run pool).1 →
      Attributed c p.attributes
  | method {t : ρ} {pool : Pool ρ} {m : Catalog.Method ρ} : m ∈ ((c.methods t).run pool).1 → Attributed c m.attributes

/-- What a recovery can find wrong with the types of a catalog. -/
inductive Complaint (c : Catalog ρ) : Error → Prop
  | endless (t : ρ) : Complaint c (.endlessType (c.fullName t))
  | attributes {e : Error} : Attributed c (.error e) → Complaint c e
  | notMessage {t : ρ} : c.isMessage t = false → Complaint c (.misfit (c.fullName t) .notMessage)
  | notEnum {t : ρ} : c.isEnum t = false → Complaint c (.misfit (c.fullName t) .notEnum)
  | member {t : ρ} {f : Catalog.Field ρ} : f ∈ c.fields t → f.constant.bind (·.int32?) = none →
      Complaint c (.misfit (c.fullName t) (.memberNotInt32 f.name))
  | number {t : ρ} {f : Catalog.Field ρ} : f ∈ c.fields t → f.constant.bind (·.int32?) = none →
      Complaint c (.misfit (c.fullName t) (.numberNotInt32 f.name))
  | noSides {t : ρ} : c.isHolder t = true → Complaint c (.misfit (c.fullName t) .noServerNorClient)
  | noHolder {t : ρ} : c.isHolder t = false → c.declaring? t = none →
      Complaint c (.misfit (c.fullName t) .notInHolder)
  | parameter {t : ρ} {pool : Pool ρ} {m : Catalog.Method ρ} (what : String) : m ∈ ((c.methods t).run pool).1 →
      Complaint c (.misfit (c.fullName t) (.missingParameter m.name what))
  | call {t : ρ} {pool : Pool ρ} {m : Catalog.Method ρ} : m ∈ ((c.methods t).run pool).1 →
      Complaint c (.misfit (c.fullName t) (.unknownCall m.name))

/-- A step that fails with complaints only. -/
abbrev Complains (c : Catalog ρ) (m : ExceptT Error (StateM σ) α) : Prop := Results (Complaint c) (fun _ => True) m

/-- Calls that fail with complaints only. -/
structure Calls.Complain (c : Catalog ρ) (calls : Calls ρ) : Prop where
  message : ∀ t, Complains c (calls.message t)
  enum : ∀ t, Complains c (calls.enum t)
  fieldType : ∀ source t, Complains c (calls.fieldType source t)

section Searches
variable {c : Catalog ρ} {t : ρ}

theorem complains_lift (q : Look ρ α) : Complains c (liftM q : Search ρ α) := results_lift fun _ => trivial

theorem complains_readAttributes {x : Attributes ρ} (h : Attributed c x) : Complains c (c.readAttributes x) := by
  cases x with
  | error e => exact results_throw (.attributes h)
  | ok attributes => exact complains_lift (c.resolveTypes attributes)

theorem complains_classify (t : ρ) : Complains c (classify c t) := by
  unfold classify
  cases ht : c.isHolder t with
  | true =>
    rw [if_pos rfl]
    refine results_bind (complains_lift (c.nestedOf t)) fun nested _ => ?_
    split
    · exact results_pure trivial
    · split
      · exact results_pure trivial
      · exact results_throw (.noSides ht)
  | false =>
    rw [if_neg Bool.false_ne_true]
    have hdeclaring : ∀ pool, ((c.declaringOf? t).run pool).1 = none → c.declaring? t = none := by
      intro pool h
      unfold Catalog.declaringOf? at h
      cases hd : c.declaring? t with
      | none => rfl
      | some r =>
        rw [hd] at h
        cases h
    refine results_bind (P := fun o => o = none → c.declaring? t = none) (results_lift hdeclaring) fun o ho => ?_
    cases o with
    | none => exact results_throw (.noHolder ht (ho rfl))
    | some holder => exact results_pure trivial

section Shapes
variable {pool : Pool ρ} {m : Catalog.Method ρ} (hm : m ∈ ((c.methods t).run pool).1)
include hm

theorem complains_requestParameter : Complains c (requestParameter c t m) := by
  unfold requestParameter
  refine results_bind (complains_lift (c.parametersOf m)) fun parameters _ => ?_
  split
  · exact results_pure trivial
  · exact results_throw (.parameter "request" hm)

theorem complains_clientShape? : Complains c (clientShape? c t m) := by
  unfold clientShape?
  refine results_bind (complains_lift (c.returnTypeOf m)) fun returned _ => ?_
  split
  · exact results_pure trivial
  · refine results_bind (complains_lift (c.argumentsOf returned)) fun arguments _ => ?_
    split
    · exact results_pure trivial
    · exact results_bind (complains_requestParameter hm) fun _ _ => results_pure trivial
    · exact results_bind (complains_requestParameter hm) fun _ _ => results_pure trivial
    · exact results_throw (.call hm)

theorem complains_serverShape : Complains c (serverShape c t m) := by
  unfold serverShape
  refine results_bind (complains_lift (c.parametersOf m)) fun parameters _ => ?_
  split
  · exact results_throw (.parameter "request" hm)
  · rename_i first others
    refine results_bind (complains_lift (onlyArgument? c first)) fun element _ => ?_
    refine results_bind (complains_lift (c.returnTypeOf m)) fun returned _ => ?_
    refine results_bind (complains_lift (onlyArgument? c returned)) fun response _ => ?_
    split
    · exact results_pure trivial
    · split
      · exact results_throw (.parameter "response writer" hm)
      · rename_i writer _
        refine results_bind (complains_lift (onlyArgument? c writer)) fun response _ => ?_
        split
        · exact results_pure trivial
        · exact results_throw (.parameter "response writer" hm)

theorem complains_shape? (isClient : Bool) : Complains c (shape? c isClient t m) := by
  cases isClient with
  | true => exact complains_clientShape? hm
  | false => exact results_bind (complains_serverShape hm) fun _ _ => results_pure trivial

end Shapes

theorem complains_tellMethod {env : Setting ρ} {classes : Classes ρ} {pool : Pool ρ} {m : Catalog.Method ρ}
    (hm : m ∈ ((env.catalog.methods classes.implementation).run pool).1) :
    Complains env.catalog (tellMethod env classes m) := by
  rw [tellMethod_eq]
  refine results_bind (complains_readAttributes (.method hm)) fun attributes _ => ?_
  split
  · exact results_bind (complains_shape? hm classes.isClient) fun _ _ => results_pure trivial
  · exact results_pure trivial

section Properties
variable {env : Setting ρ} {p : Catalog.Property ρ}

theorem complains_markedAttributes? (hp : Attributed env.catalog p.attributes) :
    Complains env.catalog (markedAttributes? env p) := by
  unfold markedAttributes?
  split
  · exact results_pure trivial
  · split
    · exact results_pure trivial
    · refine results_bind (complains_readAttributes hp) fun _ _ => ?_
      split
      · exact results_pure trivial
      · exact results_pure trivial

theorem complains_fieldNumber {f : Catalog.Field ρ} (hf : f ∈ c.fields t) : Complains c (fieldNumber c t f) := by
  unfold fieldNumber
  split
  · exact results_pure trivial
  · rename_i hnone
    exact results_throw (.number hf hnone)

theorem complains_tellProperty [DecidableEq ρ] {numbers : List (Catalog.Field ρ)} {rest : List (Catalog.Property ρ)}
    (hp : Attributed env.catalog p.attributes) (hnumbers : ∀ f ∈ numbers, f ∈ env.catalog.fields t) :
    Complains env.catalog (tellProperty env t numbers p rest) := by
  unfold tellProperty
  refine results_bind (complains_markedAttributes? hp) fun o _ => ?_
  cases o with
  | none => exact results_pure trivial
  | some attributes =>
    refine results_bind (complains_lift (env.catalog.typeOf p)) fun type _ => ?_
    refine results_bind (complains_lift (isCaseEnum env.catalog t type)) fun isCase _ => ?_
    split
    · exact results_pure trivial
    · cases numbers with
      | nil => exact results_pure trivial
      | cons constant numbers =>
        refine results_bind (complains_fieldNumber (hnumbers constant (by simp))) fun number _ => ?_
        exact results_bind (complains_lift (hasPresence env.catalog rest)) fun isOptional _ => results_pure trivial

end Properties

end Searches

/-! ## Steps of a recovery -/

section Calls
variable {env : Setting ρ} {calls : Calls ρ} {t : ρ}

theorem complains_look {c : Catalog ρ} (q : Look ρ α) : Complains c (look q) := results_look fun _ => trivial

theorem complains_enumMembers {enumName : String} {fields : List (Catalog.Field ρ)}
    (hfields : ∀ f ∈ fields, f ∈ env.catalog.fields t) : Complains env.catalog (enumMembers env t enumName fields) := by
  induction fields with
  | nil => exact results_pure trivial
  | cons f rest ih =>
    have hf := hfields f (by simp)
    have hmember : Complains env.catalog (enumMember env t enumName f) := by
      rw [enumMember_eq]
      split
      · rename_i hnone
        exact results_throw (.member hf hnone)
      · exact results_bind (results_search (complains_readAttributes (.field hf))) fun _ _ => results_pure trivial
    refine results_bind hmember fun _ _ => ?_
    exact results_bind (ih fun g hg => hfields g (by simp [hg])) fun _ _ => results_pure trivial

variable (hcalls : calls.Complain env.catalog)
include hcalls

theorem complains_place (t : ρ) (id : DeclId) : Complains env.catalog (place env calls t id) := by
  unfold place
  refine results_bind (complains_look (owner? env.catalog t)) fun o _ => ?_
  cases o with
  | none => exact results_change
  | some owner => exact results_bind (hcalls.message owner) fun _ _ => results_change

theorem complains_singleType (source : DeclId) (t : ρ) : Complains env.catalog (singleType env calls source t) := by
  unfold singleType
  dsimp only
  split
  · exact results_pure trivial
  · exact results_bind results_change fun _ _ => results_pure trivial
  · split
    · split
      · exact results_pure trivial
      · exact results_bind (hcalls.enum t) fun _ _ => results_bind results_change fun _ _ => results_pure trivial
    · exact results_bind (hcalls.message t) fun _ _ => results_bind results_change fun _ _ => results_pure trivial

theorem complains_fieldType (source : DeclId) (t : ρ) : Complains env.catalog (fieldType env calls source t) := by
  unfold fieldType
  refine results_bind (complains_look (env.catalog.argumentsOf t)) fun arguments _ => ?_
  split
  · exact results_bind results_change fun _ _ => results_pure trivial
  · split
    · exact results_bind (hcalls.fieldType source _) fun _ _ => results_pure trivial
    · refine results_bind (hcalls.fieldType source _) fun _ _ => ?_
      exact results_bind (hcalls.fieldType source _) fun _ _ => results_pure trivial
    · exact complains_singleType hcalls source t

/-- A property uses up one constant at most. -/
theorem complains_addTold {id : DeclId} {p : Catalog.Property ρ} {w : InProgress ρ} (told : Told ρ) :
    Results (Complaint env.catalog) (fun w' => ∀ f ∈ w'.numbers, f ∈ w.numbers) (addTold env calls t id p w told) := by
  have htail : ∀ f ∈ w.numbers.tail, f ∈ w.numbers := fun f hf => List.mem_of_mem_tail hf
  unfold addTold
  cases told with
  | nothing | choice => exact results_pure fun _ hf => hf
  | unnumbered => exact results_bind results_diagnose fun _ _ => results_pure fun _ hf => hf
  | field type attributes number isOptional =>
    dsimp only
    split
    · exact results_bind results_diagnose fun _ _ => results_pure htail
    · exact results_bind (hcalls.fieldType id type) fun _ _ => results_pure htail

/-- The constants that are left are the type's own, so a complaint about one names a field of the type. -/
theorem complains_addProperties [DecidableEq ρ] {id : DeclId} {ps : List (Catalog.Property ρ)} {w : InProgress ρ}
    (hps : ∀ p ∈ ps, Attributed env.catalog p.attributes) (hnumbers : ∀ f ∈ w.numbers, f ∈ env.catalog.fields t) :
    Complains env.catalog (addProperties env calls t id ps w) := by
  refine (results_stepThrough (I := fun ps w => (∀ p ∈ ps, Attributed env.catalog p.attributes) ∧
    ∀ f ∈ w.numbers, f ∈ env.catalog.fields t) ?_ ⟨hps, hnumbers⟩).imp (fun _ he => he) fun _ _ => trivial
  intro p rest w ⟨hps, hnumbers⟩
  have hrest : ∀ q ∈ rest, Attributed env.catalog q.attributes := fun q hq => hps q (by simp [hq])
  unfold addProperty
  split
  · exact results_pure ⟨hrest, hnumbers⟩
  · refine results_bind (results_search (complains_tellProperty (hps p (by simp)) hnumbers)) fun told _ => ?_
    exact (complains_addTold hcalls told).imp (fun _ he => he) fun w' hw' => ⟨hrest, fun f hf => hnumbers f (hw' f hf)⟩

theorem complains_messageBody [DecidableEq ρ] (t : ρ) (id : DeclId) :
    Complains env.catalog (messageBody env calls t id) := by
  unfold messageBody
  refine results_bind (P := fun ps => ∀ p ∈ ps, Attributed env.catalog p.attributes)
    (results_look fun pool p hp => .property hp) fun properties hproperties => ?_
  refine results_bind (complains_addProperties hcalls (fun p hp => hproperties p (List.mem_of_mem_filter hp))
    fun f hf => List.mem_of_mem_filter hf) fun m _ => ?_
  exact results_bind (results_forM fun _ _ => results_diagnose) fun _ _ => results_pure trivial

theorem complains_addShaped {id : DeclId} {m : Catalog.Method ρ} {body : Schema.Service}
    (o : Option (List (Catalog.Attribute ρ) × Shape ρ)) : Complains env.catalog (addShaped env calls id m body o) := by
  cases o with
  | none => exact results_pure trivial
  | some x =>
    unfold addShaped
    dsimp only
    split
    · exact results_pure trivial
    · refine results_bind (hcalls.fieldType id x.2.request) fun _ _ => ?_
      exact results_bind (hcalls.fieldType id x.2.response) fun _ _ => results_pure trivial

theorem complains_addMethods {classes : Classes ρ} {id : DeclId} {pool : Pool ρ} {methods : List (Catalog.Method ρ)}
    {body : Schema.Service} (hmethods : ∀ m ∈ methods, m ∈ ((env.catalog.methods classes.implementation).run pool).1) :
    Complains env.catalog (addMethods env calls classes id methods body) := by
  refine (results_stepThrough (I := fun methods _ => ∀ m ∈ methods,
    m ∈ ((env.catalog.methods classes.implementation).run pool).1) ?_ hmethods).imp (fun _ he => he) fun _ _ => trivial
  intro m rest body hmethods
  refine results_bind (results_search (complains_tellMethod (hmethods m (by simp)))) fun o _ => ?_
  exact (complains_addShaped hcalls o).imp (fun _ he => he) fun _ _ n hn => hmethods n (by simp [hn])

omit hcalls in
theorem complains_introduce {body : Schema.Body} {settleIn : DeclId → Recover ρ Unit} {read : DeclId → Recover ρ σ}
    {finish : Schema → DeclId → σ → Schema} (hsettle : ∀ id, Complains env.catalog (settleIn id))
    (hread : ∀ id, Complains env.catalog (read id)) :
    Complains env.catalog (introduce env t body settleIn read finish) := by
  have hknown : Complains env.catalog (known? (env.catalog.fullName t) : Recover ρ _) := fun _ => trivial
  unfold introduce
  refine results_bind hknown fun o _ => ?_
  cases o with
  | some id => exact results_pure trivial
  | none =>
    have hdeclare : ∀ name isDeprecated,
        Complains env.catalog (declare (env.catalog.fullName t) name isDeprecated body : Recover ρ _) :=
      fun _ _ _ => trivial
    refine results_bind (results_search (complains_readAttributes (.type t))) fun attributes _ => ?_
    refine results_bind (hdeclare _ _) fun id _ => ?_
    refine results_bind (hsettle id) fun _ _ => results_bind (hread id) fun x _ => ?_
    exact results_bind results_change fun _ _ => results_pure trivial

theorem complains_message [DecidableEq ρ] (t : ρ) : Complains env.catalog (message env calls t) := by
  cases ht : env.catalog.isMessage t with
  | false =>
    intro s
    show Within _ _ (outcome (message env calls t) s).1
    rw [outcome_message_refused ht]
    exact .notMessage ht
  | true =>
    rw [message_eq ht]
    exact complains_introduce (complains_place hcalls t) (complains_messageBody hcalls t)

theorem complains_enum (t : ρ) : Complains env.catalog (enum env calls t) := by
  cases ht : env.catalog.isEnum t with
  | false =>
    intro s
    show Within _ _ (outcome (enum env calls t) s).1
    rw [outcome_enum_refused ht]
    exact .notEnum ht
  | true =>
    rw [enum_eq ht]
    exact complains_introduce (complains_place hcalls t) fun _ =>
      complains_enumMembers fun f hf => List.mem_of_mem_filter hf

theorem complains_service (t : ρ) : Complains env.catalog (service env calls t) := by
  rw [service_eq]
  refine results_bind (results_search (complains_classify t)) fun classes _ => ?_
  refine complains_introduce (fun _ => results_change) fun id => ?_
  refine results_bind (P := fun ms => ∃ pool, ms = ((env.catalog.methods classes.implementation).run pool).1)
    (results_look fun pool => ⟨pool, rfl⟩) fun methods hmethods => ?_
  obtain ⟨pool, rfl⟩ := hmethods
  exact complains_addMethods hcalls fun m hm => List.mem_of_mem_filter hm

end Calls

/-! ## Whole recoveries -/

section Whole
variable [DecidableEq ρ] (env : Setting ρ)

theorem complain_callsWithin (depth : Nat) : (callsWithin env depth).Complain env.catalog := by
  induction depth with
  | zero =>
    have hendless : ∀ {α : Type} (t : ρ), Complains env.catalog (throw (.endlessType (env.catalog.fullName t)) :
        Recover ρ α) := fun t => results_throw (.endless t)
    exact ⟨hendless, hendless, fun _ => hendless⟩
  | succ depth ih => exact ⟨complains_message ih, complains_enum ih, complains_fieldType ih⟩

theorem complains_callsFor {t : ρ} {f : Calls ρ → Recover ρ α}
    (hf : ∀ depth, Complains env.catalog (f (callsWithin env depth))) : Complains env.catalog (callsFor env t >>= f) := by
  intro s
  show Within _ _ (outcome (callsFor env t >>= f) s).1
  rw [outcome_callsFor]
  exact hf _ s

theorem complains_recoverMessage (t : ρ) : Complains env.catalog (recoverMessage env t) :=
  complains_callsFor env fun depth => (complain_callsWithin env depth).message t

theorem complains_recoverEnum (t : ρ) : Complains env.catalog (recoverEnum env t) :=
  complains_callsFor env fun depth => (complain_callsWithin env depth).enum t

theorem complains_recoverService (t : ρ) : Complains env.catalog (recoverService env t) :=
  complains_callsFor env fun depth => complains_service (complain_callsWithin env depth) t

end Whole

/-! ## Libraries -/

theorem exists_definition_of_mem_collect {lib : Managed.Library} {members : Bool → Managed.Definition → List α}
    {t : Managed.TypeRef} {pool : Pool Managed.TypeRef} {a : α} (h : a ∈ ((lib.collect members t).run pool).1) :
    ∃ isInherited d, a ∈ members isInherited d := by
  obtain ⟨bases, h⟩ : ∃ bases : List Managed.Definition,
      a ∈ ((lib.definitionOf? t).map (members false)).getD [] ++ bases.flatMap (members true) :=
    ⟨((lib.basesOf (Managed.chainLimit - 1) t).run pool).1, h⟩
  rcases List.mem_append.1 h with h | h
  · cases hd : lib.definitionOf? t with
    | none => simp [hd] at h
    | some d => exact ⟨false, d, by simpa [hd] using h⟩
  · obtain ⟨d, -, hd⟩ := List.mem_flatMap.1 h
    exact ⟨true, d, hd⟩

/-- The attributes in a library can all be read. -/
theorem attributes_of_library {lib : Managed.Library} {x : Attributes Managed.TypeRef} (h : Attributed lib.catalog x) :
    ∃ attributes, x = .ok attributes := by
  cases h with
  | type t =>
    show ∃ attributes, ((lib.definitionOf? t).map fun d => Managed.Library.attributesOf d.attributes).getD (.ok []) = _
    cases lib.definitionOf? t with
    | none => exact ⟨[], rfl⟩
    | some d => exact ⟨_, rfl⟩
  | @field t f hf =>
    replace hf : f ∈ ((lib.definitionOf? t).map fun d => d.fields.map Managed.Library.fieldOf).getD [] := hf
    cases hd : lib.definitionOf? t with
    | none => simp [hd] at hf
    | some d =>
      rw [hd] at hf
      obtain ⟨record, -, rfl⟩ := List.mem_map.1 hf
      exact ⟨_, rfl⟩
  | property hp =>
    obtain ⟨_, d, hp⟩ := exists_definition_of_mem_collect hp
    obtain ⟨record, -, rfl⟩ := List.mem_map.1 hp
    exact ⟨_, rfl⟩
  | method hm =>
    obtain ⟨_, d, hm⟩ := exists_definition_of_mem_collect hm
    obtain ⟨record, -, rfl⟩ := List.mem_map.1 hm
    exact ⟨_, rfl⟩

end ProtoRecovery.Recovery
