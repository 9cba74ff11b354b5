import ProtoRecovery.Proofs.Recovery.Steps
/-!
# Types as they stand in the end

A pool grows while questions are asked, and an answer given early still stands later. A view fixes what
holds of the pool in the end; going back over a question, the pool before it is seen too, and every type in
the answer stands.
-/

namespace ProtoRecovery.Recovery

open Catalog (Look Search Pool)

variable {ρ α β : Type} {c : Catalog ρ}

/-- What is known of types from the pool in the end. -/
structure View (c : Catalog ρ) where
  /-- The pools on the way there. -/
  sees : Pool ρ → Prop
  /-- The references that stand for their types. -/
  stands : ρ → Prop
  /-- The message classes that classes belong to. -/
  owner : ρ → Option ρ → Prop
  /-- The classes that services may be named for. -/
  holder : ρ → Prop
  resolve : ∀ r pool, sees ((c.resolve r).run pool).2 → sees pool ∧ stands ((c.resolve r).run pool).1
  methods : ∀ t pool, sees ((c.methods t).run pool).2 → sees pool
  properties : ∀ t pool, sees ((c.properties t).run pool).2 → sees pool
  owner_of : ∀ t pool, stands t → sees ((owner? c t).run pool).2 → owner t ((owner? c t).run pool).1

/-- The view that knows nothing. -/
def View.blind (c : Catalog ρ) : View c where
  sees _ := True
  stands _ := True
  owner _ _ := True
  holder _ := True
  resolve _ _ _ := ⟨trivial, trivial⟩
  methods _ _ _ := trivial
  properties _ _ _ := trivial
  owner_of _ _ _ _ := trivial

variable (v : View c)

/-- A question whose answer satisfies a condition, as far as the view goes. -/
def View.Finds (q : Look ρ α) (P : α → Prop) : Prop :=
  ∀ pool, v.sees (q.run pool).2 → v.sees pool ∧ P (q.run pool).1

/-- The same for a question that may fail. -/
def View.Seeks (q : Search ρ α) (P : α → Prop) : Prop := v.Finds q.run fun r => ∀ a, r = .ok a → P a

section Rules
variable {v} {P : α → Prop} {Q : β → Prop}

theorem finds_pure {a : α} (h : P a) : v.Finds (pure a) P := fun _ hs => ⟨hs, h⟩

/-- Going back, the second question comes first: what it finds may depend on what the first one finds. -/
theorem finds_bind {q : Look ρ α} {f : α → Look ρ β} (hq : v.Finds q P)
    (hf : ∀ a, v.Finds (f a) fun b => P a → Q b) : v.Finds (q >>= f) Q := by
  intro pool hs
  obtain ⟨hs, hQ⟩ := hf (q.run pool).1 (q.run pool).2 hs
  obtain ⟨hs, hP⟩ := hq pool hs
  exact ⟨hs, hQ hP⟩

theorem View.Finds.mono {P' : α → Prop} {q : Look ρ α} (hq : v.Finds q P) (h : ∀ a, P a → P' a) :
    v.Finds q P' :=
  fun pool hs => (hq pool hs).imp_right (h _)

theorem seeks_pure {a : α} (h : P a) : v.Seeks (pure a) P :=
  finds_pure fun _ ha => Except.ok.inj ha ▸ h

theorem seeks_throw {e : Error} : v.Seeks (throw e) P := finds_pure nofun

theorem seeks_lift {q : Look ρ α} (hq : v.Finds q P) : v.Seeks (liftM q) P := by
  show v.Finds (Except.ok <$> q) fun r => ∀ a, r = .ok a → P a
  intro pool hs
  exact (hq pool hs).imp_right fun h _ ha => Except.ok.inj ha ▸ h

theorem seeks_bind {q : Search ρ α} {f : α → Search ρ β} (hq : v.Seeks q P)
    (hf : ∀ a, v.Seeks (f a) fun b => P a → Q b) : v.Seeks (q >>= f) Q := by
  show v.Finds (q.run >>= ExceptT.bindCont f) _
  refine finds_bind hq fun r => ?_
  cases r with
  | error e => exact finds_pure nofun
  | ok a => exact (hf a).mono fun _ h hP b hb => h b hb (hP a rfl)

end Rules

/-! ## Questions about types -/

section Questions
variable {v}

theorem finds_resolve (r : ρ) : v.Finds (c.resolve r) v.stands := v.resolve r

/-- What a reference is looked up as, while the view lasts. -/
def View.Takes (v : View c) (r t : ρ) : Prop := ∃ pool, v.sees ((c.resolve r).run pool).2 ∧ ((c.resolve r).run pool).1 = t

theorem View.Takes.stands {r t : ρ} (h : v.Takes r t) : v.stands t := by
  obtain ⟨pool, hs, rfl⟩ := h
  exact (v.resolve r pool hs).2

theorem finds_taken (r : ρ) : v.Finds (c.resolve r) (v.Takes r) :=
  fun pool hs => ⟨(v.resolve r pool hs).1, pool, hs, rfl⟩

theorem finds_resolveAll (rs : List ρ) : v.Finds (c.resolveAll rs) (∀ t ∈ ·, v.stands t) := by
  induction rs with
  | nil => exact finds_pure (by simp)
  | cons r rest ih =>
    refine finds_bind (finds_resolve r) fun t => finds_bind ih fun ts => finds_pure ?_
    intro hts ht
    simpa using ⟨ht, hts⟩

theorem finds_resolve? (o : Option ρ) : v.Finds (c.resolve? o) (∀ t ∈ ·, v.stands t) := by
  cases o with
  | none => exact finds_pure (by simp)
  | some r => exact finds_bind (finds_resolve r) fun t => finds_pure (by simp)

theorem finds_resolveTypes (attributes : List (Catalog.Attribute ρ)) :
    v.Finds (c.resolveTypes attributes) fun _ => True := by
  induction attributes with
  | nil => exact finds_pure trivial
  | cons a rest ih =>
    exact finds_bind (finds_resolve a.type) fun _ => finds_bind ih fun _ => finds_pure fun _ _ => trivial

theorem seeks_readAttributes (attributes : Catalog.Attributes ρ) :
    v.Seeks (c.readAttributes attributes) fun _ => True := by
  cases attributes with
  | error e => exact seeks_throw
  | ok attributes => exact seeks_lift (finds_resolveTypes attributes)

theorem finds_owner (t : ρ) : v.Finds (owner? c t) (∀ o ∈ ·, v.stands o) := by
  unfold owner? enclosing?
  refine finds_bind (P := (∀ o ∈ ·, v.stands o)) ?_ fun o => finds_pure fun ho x hx => ?_
  · refine finds_bind (finds_resolve? _) fun o => ?_
    cases o with
    | none => exact finds_pure (by simp)
    | some outer =>
      dsimp only
      split
      · exact (finds_resolve? _).mono fun _ h _ => h
      · exact finds_pure (by simp)
  · exact ho x (Option.filter_eq_some_iff.1 hx).1

theorem finds_isCaseEnum [DecidableEq ρ] (t type : ρ) : v.Finds (isCaseEnum c t type) fun _ => True := by
  unfold isCaseEnum
  split
  · exact finds_bind (finds_resolve? _) fun _ => finds_pure fun _ => trivial
  · exact finds_pure trivial

theorem finds_hasPresence (rest : List (Catalog.Property ρ)) :
    v.Finds (hasPresence c rest) fun _ => True := by
  cases rest with
  | nil => exact finds_pure trivial
  | cons next rest =>
    unfold hasPresence
    dsimp only
    split
    · exact finds_pure trivial
    · exact finds_bind (finds_resolve next.type) fun _ => finds_pure fun _ => trivial

section Properties
variable {names : Option Identifier.Dictionary} {options : Options} (p : Catalog.Property ρ)

theorem seeks_markedAttributes? : v.Seeks (markedAttributes? ⟨c, names, options⟩ p) fun _ => True := by
  unfold markedAttributes?
  cases p.getter with
  | none => exact seeks_pure trivial
  | some getter =>
    dsimp only
    split
    · exact seeks_pure trivial
    · refine seeks_bind (seeks_readAttributes p.attributes) fun attributes => ?_
      split
      · exact seeks_pure fun _ => trivial
      · exact seeks_pure fun _ => trivial

theorem seeks_fieldNumber (t : ρ) (f : Catalog.Field ρ) : v.Seeks (fieldNumber c t f) fun _ => True := by
  unfold fieldNumber
  split
  · exact seeks_pure trivial
  · exact seeks_throw

/-- The type of a field is what the type of the property was looked up as. -/
theorem seeks_tellProperty [DecidableEq ρ] (t : ρ) (numbers : List (Catalog.Field ρ)) (rest : List (Catalog.Property ρ)) :
    v.Seeks (tellProperty ⟨c, names, options⟩ t numbers p rest) (·.Of ⟨c, names, options⟩ p (v.Takes p.type)) := by
  unfold tellProperty
  refine seeks_bind (seeks_markedAttributes? p) fun o => ?_
  cases o with
  | none => exact seeks_pure fun _ => .nothing
  | some attributes =>
    refine seeks_bind (seeks_lift (finds_taken p.type)) fun type => ?_
    refine seeks_bind (seeks_lift (finds_isCaseEnum t type)) fun isCase => ?_
    split
    · exact seeks_pure fun _ _ _ => .choice type
    · cases numbers with
      | nil => exact seeks_pure fun _ _ _ => .unnumbered
      | cons constant numbers =>
        refine seeks_bind (seeks_fieldNumber t constant) fun number => ?_
        refine seeks_bind (seeks_lift (finds_hasPresence rest)) fun isOptional => ?_
        exact seeks_pure fun _ _ _ htype _ => .field htype attributes number isOptional

end Properties

/-! ## Questions about services -/

theorem seeks_classify (t : ρ) : v.Seeks (classify c t) fun classes => v.stands t → v.stands classes.holder := by
  unfold classify
  split
  · refine seeks_bind (seeks_lift (finds_resolveAll _)) fun nested => ?_
    split
    · exact seeks_pure fun _ => id
    · split
      · exact seeks_pure fun _ => id
      · exact seeks_throw
  · refine seeks_bind (seeks_lift (finds_resolve? _)) fun o => ?_
    cases o with
    | none => exact seeks_throw
    | some holder => exact seeks_pure fun h _ => h holder rfl

theorem seeks_requestParameter (t : ρ) (m : Catalog.Method ρ) :
    v.Seeks (requestParameter c t m) v.stands := by
  unfold requestParameter
  refine seeks_bind (seeks_lift (finds_resolveAll _)) fun ts => ?_
  cases ts with
  | nil => exact seeks_throw
  | cons first _ => exact seeks_pure fun h => h first (by simp)

/-- A shape is made of types that stand. -/
def View.Standing (shape : Shape ρ) : Prop := v.stands shape.request ∧ v.stands shape.response

theorem seeks_clientShape? (t : ρ) (m : Catalog.Method ρ) :
    v.Seeks (clientShape? c t m) (∀ shape ∈ ·, v.Standing shape) := by
  unfold clientShape?
  refine seeks_bind (seeks_lift (finds_resolve _)) fun returned => ?_
  split
  · exact seeks_pure (by simp)
  · refine seeks_bind (seeks_lift (finds_resolveAll _)) fun arguments => ?_
    split
    · exact seeks_pure (by simp +contextual [View.Standing])
    · refine seeks_bind (seeks_requestParameter t m) fun request => seeks_pure ?_
      simp +contextual [View.Standing]
    · refine seeks_bind (seeks_requestParameter t m) fun request => seeks_pure ?_
      simp +contextual [View.Standing]
    · exact seeks_throw

theorem finds_onlyArgument? (t : ρ) : v.Finds (onlyArgument? c t) (∀ x ∈ ·, v.stands x) := by
  unfold onlyArgument?
  refine finds_bind (finds_resolveAll _) fun arguments => ?_
  split
  · exact finds_pure (by simp)
  · exact finds_pure (by simp)

theorem standing_of_element {first response : ρ} {element : Option ρ} {a b : Bool} (hf : v.stands first)
    (he : ∀ x ∈ element, v.stands x) (hr : v.stands response) :
    v.Standing ⟨element.getD first, response, a, b⟩ := by
  refine ⟨?_, hr⟩
  cases element with
  | none => exact hf
  | some x => exact he x rfl

theorem seeks_serverShape (t : ρ) (m : Catalog.Method ρ) : v.Seeks (serverShape c t m) v.Standing := by
  unfold serverShape
  refine seeks_bind (seeks_lift (finds_resolveAll _)) fun parameters => ?_
  cases parameters with
  | nil => exact seeks_throw
  | cons first others =>
    -- A stream in either direction is known by its one argument; without one for the response, a writer tells it.
    refine seeks_bind (seeks_lift (finds_onlyArgument? first)) fun element => ?_
    refine seeks_bind (seeks_lift (finds_resolve _)) fun returned => ?_
    refine seeks_bind (seeks_lift (finds_onlyArgument? returned)) fun o => ?_
    cases o with
    | some response =>
      refine seeks_pure fun hr _ he hp => ?_
      exact standing_of_element (hp first (by simp)) he (hr response rfl)
    | none =>
      cases others with
      | nil => exact seeks_throw
      | cons writer others =>
        refine seeks_bind (seeks_lift (finds_onlyArgument? writer)) fun o => ?_
        cases o with
        | none => exact seeks_throw
        | some response =>
          refine seeks_pure fun hr _ _ he hp => ?_
          exact standing_of_element (hp first (by simp)) he (hr response rfl)

theorem seeks_shape? (isClient : Bool) (t : ρ) (m : Catalog.Method ρ) :
    v.Seeks (shape? c isClient t m) (∀ shape ∈ ·, v.Standing shape) := by
  unfold shape?
  split
  · exact seeks_clientShape? t m
  · exact seeks_bind (seeks_serverShape t m) fun shape => seeks_pure (by simp)

theorem seeks_tellMethod {names : Option Identifier.Dictionary} {options : Options} (classes : Classes ρ)
    (m : Catalog.Method ρ) : v.Seeks (tellMethod ⟨c, names, options⟩ classes m) (∀ x ∈ ·, v.Standing x.2) := by
  rw [tellMethod_eq]
  refine seeks_bind (seeks_readAttributes m.attributes) fun attributes => ?_
  split
  · refine seeks_bind (seeks_shape? classes.isClient classes.implementation m) fun o => seeks_pure ?_
    simp +contextual
  · exact seeks_pure (by simp)

end Questions

end ProtoRecovery.Recovery
