import ProtoRecovery.Proofs.Recovery.Visits
/-!
# Recoveries side by side

Two recoveries may have looked up different types, and may be allowed different depths. `Kin` says which pools are close
enough for that not to matter, and bounds how deep calls go: a class is entered only while its name is not noted, and the
arguments of a type are of a lower rank. Calls that are deep enough then end alike, and never for want of depth.
-/

namespace ProtoRecovery.Recovery

open Schema (DeclId FieldType Message Body)
open Catalog (Look Search Pool)

variable {ρ α β : Type}

/-- Attributes that can be read, of types that satisfy a condition. -/
def Readable (P : ρ → Prop) (x : Catalog.Attributes ρ) : Prop := ∃ as, x = .ok as ∧ ∀ a ∈ as, P a.type

/-- A question with one answer from pools that are near each other, which stay near. -/
def Agree (near : Pool ρ → Pool ρ → Prop) (q : Look ρ α) (P : α → Prop) : Prop :=
  ∀ p p', near p p' → (q.run p).1 = (q.run p').1 ∧ near (q.run p).2 (q.run p').2 ∧ P (q.run p).1

/-- Pools that answer alike, and a bound on what there is to enter. -/
structure Kin (c : Catalog ρ) where
  near : Pool ρ → Pool ρ → Prop
  /-- The types that may be asked about. -/
  seen : ρ → Prop
  /-- The names of what may be declared. -/
  keys : Finset String
  rank : ρ → Nat
  resolve : ∀ r, seen r → Agree near (c.resolve r) seen
  declaring : ∀ t r, c.declaring? t = some r → seen r
  attributes : ∀ t, Readable seen (c.attributes t)
  fields : ∀ t, ∀ f ∈ c.fields t, Readable seen f.attributes
  properties : ∀ t, Agree near (c.properties t) fun ps => ∀ p ∈ ps, seen p.type ∧ Readable seen p.attributes
  arguments : ∀ t, seen t → Agree near (c.argumentsOf t) fun as => ∀ a ∈ as, seen a ∧ rank a < rank t
  rank_le : ∀ t, rank t ≤ keys.card
  key_mem : ∀ t, seen t → c.isMessage t = true ∨ c.isEnum t = true → c.fullName t ∈ keys

/-! ## Questions -/

section Questions
variable {c : Catalog ρ} {near : Pool ρ → Pool ρ → Prop} {P : α → Prop} {Q : β → Prop}

theorem agree_pure {a : α} (h : P a) : Agree near (pure a) P := fun _ _ hp => ⟨rfl, hp, h⟩

theorem agree_bind {q : Look ρ α} {f : α → Look ρ β} (hq : Agree near q P) (hf : ∀ a, P a → Agree near (f a) Q) :
    Agree near (q >>= f) Q := by
  intro p p' hp
  obtain ⟨ha, hp, hP⟩ := hq p p' hp
  have hrun : (q >>= f).run p' = (f (q.run p).1).run (q.run p').2 := by
    rw [ha]
    rfl
  rw [hrun]
  exact hf _ hP _ _ hp

variable (v : Kin c)

theorem agree_declaringOf? (t : ρ) : Agree v.near (c.declaringOf? t) (∀ o ∈ ·, v.seen o) := by
  unfold Catalog.declaringOf?
  cases hd : c.declaring? t with
  | none => exact agree_pure (by simp)
  | some r => exact agree_bind (v.resolve r (v.declaring t r hd)) fun x hx => agree_pure (by simpa using hx)

theorem agree_owner? (t : ρ) : Agree v.near (owner? c t) (∀ o ∈ ·, v.seen o) := by
  unfold owner? enclosing?
  refine agree_bind (P := (∀ o ∈ ·, v.seen o)) (agree_bind (agree_declaringOf? v t) fun o ho => ?_) fun o ho => ?_
  · cases o with
    | none => exact agree_pure (by simp)
    | some outer =>
      dsimp only
      split
      · exact agree_declaringOf? v outer
      · exact agree_pure ho
  · exact agree_pure fun x hx => ho x (Option.filter_eq_some_iff.1 hx).1

theorem agree_resolveTypes {as : List (Catalog.Attribute ρ)} (h : ∀ a ∈ as, v.seen a.type) :
    Agree v.near (c.resolveTypes as) fun _ => True := by
  induction as with
  | nil => exact agree_pure trivial
  | cons a rest ih =>
    refine agree_bind (v.resolve a.type (h a (by simp))) fun _ _ => ?_
    exact agree_bind (ih fun x hx => h x (by simp [hx])) fun _ _ => agree_pure trivial

theorem agree_readAttributes {x : Catalog.Attributes ρ} (h : Readable v.seen x) :
    Agree v.near (c.readAttributes x).run fun r => ∃ as, r = .ok as := by
  obtain ⟨as, rfl, has⟩ := h
  intro p p' hp
  obtain ⟨hr, hp, -⟩ := agree_resolveTypes v has p p' hp
  exact ⟨congrArg Except.ok hr, hp, _, rfl⟩

theorem agree_isCaseEnum [DecidableEq ρ] (t type : ρ) : Agree v.near (isCaseEnum c t type) fun _ => True := by
  unfold isCaseEnum
  split
  · exact agree_bind (agree_declaringOf? v type) fun _ _ => agree_pure trivial
  · exact agree_pure trivial

theorem agree_hasPresence {rest : List (Catalog.Property ρ)} (h : ∀ p ∈ rest, v.seen p.type) :
    Agree v.near (hasPresence c rest) fun _ => True := by
  cases rest with
  | nil => exact agree_pure trivial
  | cons next rest =>
    unfold hasPresence
    dsimp only
    split
    · exact agree_pure trivial
    · exact agree_bind (v.resolve next.type (h next (by simp))) fun _ _ => agree_pure trivial

end Questions

/-- A search with one result from pools that are near each other; if it fails, then not for want of depth. -/
def Settles (near : Pool ρ → Pool ρ → Prop) (q : Search ρ α) (P : α → Prop) : Prop :=
  Agree near q.run fun r => (∀ name, r ≠ .error (.endlessType name)) ∧ ∀ a, r = .ok a → P a

section Settles
variable {c : Catalog ρ} {near : Pool ρ → Pool ρ → Prop} {P : α → Prop} {Q : β → Prop}

theorem settles_pure {a : α} (h : P a) : Settles near (pure a) P :=
  agree_pure ⟨nofun, fun _ ha => Except.ok.inj ha ▸ h⟩

theorem settles_throw {e : Error} (he : ∀ name, e ≠ .endlessType name) : Settles near (throw e) P :=
  agree_pure ⟨fun name h => he name (Except.error.inj h), nofun⟩

theorem settles_lift {q : Look ρ α} (hq : Agree near q P) : Settles near (liftM q) P := by
  show Agree near (Except.ok <$> q) _
  intro p p' hp
  obtain ⟨ha, hp, hP⟩ := hq p p' hp
  exact ⟨congrArg Except.ok ha, hp, nofun, fun _ h => Except.ok.inj h ▸ hP⟩

theorem settles_bind {q : Search ρ α} {f : α → Search ρ β} (hq : Settles near q P)
    (hf : ∀ a, P a → Settles near (f a) Q) : Settles near (q >>= f) Q := by
  show Agree near (q.run >>= ExceptT.bindCont f) _
  refine agree_bind hq fun r hr => ?_
  cases r with
  | error e => exact agree_pure ⟨fun name h => hr.1 name (congrArg _ (Except.error.inj h)), nofun⟩
  | ok a => exact hf a (hr.2 a rfl)

end Settles

section Searches
variable {c : Catalog ρ} (v : Kin c) {p : Catalog.Property ρ}

theorem settles_readAttributes {x : Catalog.Attributes ρ} (h : Readable v.seen x) :
    Settles v.near (c.readAttributes x) fun _ => True := by
  obtain ⟨as, rfl, has⟩ := h
  exact settles_lift (agree_resolveTypes v has)

theorem settles_markedAttributes? {env : Setting ρ} (v : Kin env.catalog) (hp : Readable v.seen p.attributes) :
    Settles v.near (markedAttributes? env p) fun _ => True := by
  unfold markedAttributes?
  split
  · exact settles_pure trivial
  · split
    · exact settles_pure trivial
    · refine settles_bind (settles_readAttributes v hp) fun attributes _ => ?_
      split
      · exact settles_pure trivial
      · exact settles_pure trivial

theorem settles_fieldNumber (t : ρ) (f : Catalog.Field ρ) : Settles v.near (fieldNumber c t f) fun _ => True := by
  unfold fieldNumber
  split
  · exact settles_pure trivial
  · exact settles_throw (by simp)

theorem settles_tellProperty [DecidableEq ρ] {env : Setting ρ} (v : Kin env.catalog) (t : ρ)
    (numbers : List (Catalog.Field ρ)) {rest : List (Catalog.Property ρ)} (hp : v.seen p.type)
    (ha : Readable v.seen p.attributes) (hrest : ∀ q ∈ rest, v.seen q.type) :
    Settles v.near (tellProperty env t numbers p rest) (·.Of env p v.seen) := by
  unfold tellProperty
  refine settles_bind (settles_markedAttributes? v ha) fun o _ => ?_
  cases o with
  | none => exact settles_pure .nothing
  | some attributes =>
    refine settles_bind (settles_lift (v.resolve p.type hp)) fun type htype => ?_
    refine settles_bind (settles_lift (agree_isCaseEnum v t type)) fun isCase _ => ?_
    split
    · exact settles_pure (.choice type)
    · cases numbers with
      | nil => exact settles_pure .unnumbered
      | cons constant numbers =>
        refine settles_bind (settles_fieldNumber v t constant) fun number _ => ?_
        refine settles_bind (settles_lift (agree_hasPresence v hrest)) fun isOptional _ => ?_
        exact settles_pure (.field htype attributes number isOptional)

end Searches

/-! ## Steps -/

/-- Two states with the same record, and pools that are near each other. -/
structure Kin.Same {c : Catalog ρ} (v : Kin c) (s s' : State ρ) : Prop where
  schema : s.schema = s'.schema
  memo : s.memo = s'.memo
  diagnostics : s.diagnostics = s'.diagnostics
  pool : v.near s.pool s'.pool

/-- Two steps end alike: with the same result, not for want of depth, and in states with the same record. -/
structure Kin.Paired {c : Catalog ρ} (v : Kin c) (m m' : Recover ρ α) (s s' : State ρ) : Prop where
  result : (outcome m s).1 = (outcome m' s').1
  bounded : ∀ name, (outcome m s).1 ≠ .error (.endlessType name)
  same : v.Same (outcome m s).2 (outcome m' s').2
  memo : s.memo <+: (outcome m s).2.memo

section Paired
variable {c : Catalog ρ} {v : Kin c} {s s' : State ρ}

theorem paired_pure {a : α} (h : v.Same s s') : v.Paired (pure a) (pure a) s s' :=
  ⟨rfl, nofun, h, List.prefix_rfl⟩

theorem paired_throw {e : Error} (h : v.Same s s') (he : ∀ name, e ≠ .endlessType name) :
    v.Paired (throw e : Recover ρ α) (throw e) s s' :=
  ⟨rfl, fun name hn => he name (Except.error.inj hn), h, List.prefix_rfl⟩

theorem paired_bind {m m' : Recover ρ α} {f f' : α → Recover ρ β} (hm : v.Paired m m' s s')
    (hf : ∀ a s₁ s₁', v.Same s₁ s₁' → s.memo <+: s₁.memo → v.Paired (f a) (f' a) s₁ s₁') :
    v.Paired (m >>= f) (m' >>= f') s s' := by
  obtain ⟨hresult, hbounded, hsame, hmemo⟩ := hm
  have hb := outcome_bind m f s
  have hb' := outcome_bind m' f' s'
  revert hresult hbounded hsame hmemo hb hb'
  rcases outcome m s with ⟨e | a, s₁⟩ <;> rcases outcome m' s' with ⟨e' | a', s₁'⟩
  · intro hresult hbounded hsame hmemo hb hb'
    refine ⟨?_, ?_, ?_, ?_⟩
    · rw [hb, hb', Except.error.inj hresult]
    · rw [hb]
      exact fun name hn => hbounded name (congrArg Except.error (Except.error.inj hn))
    · rw [hb, hb']
      exact hsame
    · rw [hb]
      exact hmemo
  · exact fun h => nomatch h
  · exact fun h => nomatch h
  · intro hresult _ hsame hmemo hb hb'
    obtain rfl := Except.ok.inj hresult
    obtain ⟨hr, hn, hs, hm⟩ := hf a s₁ s₁' hsame hmemo
    exact ⟨by rw [hb, hb']; exact hr, by rw [hb]; exact hn, by rw [hb, hb']; exact hs, by rw [hb]; exact hmemo.trans hm⟩

/-- Two steps that go on as others do. -/
theorem paired_of_outcome {m m' n n' : Recover ρ α} {s₁ s₁' : State ρ} (hm : outcome m s = outcome n s₁)
    (hm' : outcome m' s' = outcome n' s₁') (hmemo : s.memo <+: s₁.memo) (h : v.Paired n n' s₁ s₁') :
    v.Paired m m' s s' where
  result := by rw [hm, hm']; exact h.result
  bounded := by rw [hm]; exact h.bounded
  same := by rw [hm, hm']; exact h.same
  memo := by rw [hm]; exact hmemo.trans h.memo

/-- Two ways through one list, step by step side by side. What has been noted stays noted. -/
theorem paired_stepThrough {ι σ : Type} {step step' : ι → List ι → σ → Recover ρ σ} {l : List ι} {w : σ} {P : ι → Prop}
    (hl : ∀ i ∈ l, P i) (hstep : ∀ {i rest w s₁ s₁'}, (∀ j ∈ i :: rest, P j) → v.Same s₁ s₁' → s.memo <+: s₁.memo →
      v.Paired (step i rest w) (step' i rest w) s₁ s₁') (h : v.Same s s') :
    v.Paired (stepThrough step l w) (stepThrough step' l w) s s' := by
  suffices hall : ∀ w s₁ s₁', v.Same s₁ s₁' → s.memo <+: s₁.memo →
      v.Paired (stepThrough step l w) (stepThrough step' l w) s₁ s₁' from hall w s s' h List.prefix_rfl
  induction l with
  | nil => exact fun _ _ _ hs _ => paired_pure hs
  | cons i rest ih =>
    intro w s₁ s₁' hs hm
    refine paired_bind (hstep hl hs hm) fun w₁ s₂ s₂' hs₂ hm₂ => ?_
    exact ih (fun j hj => hl j (List.mem_cons_of_mem _ hj)) w₁ s₂ s₂' hs₂ (hm.trans hm₂)

/-- Two steps that go on after the first of them surely ended well, with the same. -/
theorem paired_of_gives {m m' : Recover ρ α} {f f' : α → Recover ρ β} {a : α} {s₁ s₁' : State ρ} (hm : Gives m s a s₁)
    (hm' : Gives m' s' a s₁') (hmemo : s.memo <+: s₁.memo) (h : v.Paired (f a) (f' a) s₁ s₁') :
    v.Paired (m >>= f) (m' >>= f') s s' := by
  unfold Gives at hm hm'
  refine paired_of_outcome ?_ ?_ hmemo h
  · rw [outcome_bind, hm]
  · rw [outcome_bind, hm']

theorem paired_change {f : Schema → Schema} (h : v.Same s s') : v.Paired (change f) (change f) s s' :=
  ⟨rfl, nofun, ⟨congrArg f h.schema, h.memo, h.diagnostics, h.pool⟩, List.prefix_rfl⟩

theorem paired_diagnose {type member : String} {x : Anomaly} (h : v.Same s s') :
    v.Paired (diagnose type member x) (diagnose type member x) s s' :=
  ⟨rfl, nofun, ⟨h.schema, h.memo, congrArg (· ++ _) h.diagnostics, h.pool⟩, List.prefix_rfl⟩

theorem paired_look {q : Look ρ α} {P : α → Prop} {f f' : α → Recover ρ β} (h : v.Same s s') (hq : Agree v.near q P)
    (hf : ∀ a s₁ s₁', P a → v.Same s₁ s₁' → s₁.memo = s.memo → v.Paired (f a) (f' a) s₁ s₁') :
    v.Paired (look q >>= f) (look q >>= f') s s' := by
  obtain ⟨ha, hp, hP⟩ := hq s.pool s'.pool h.pool
  refine paired_of_gives (gives_look.2 ⟨rfl, rfl⟩) (gives_look.2 ⟨ha.symm, rfl⟩) List.prefix_rfl ?_
  exact hf (s.answer q) (s.after q) (s'.after q) hP ⟨h.schema, h.memo, h.diagnostics, hp⟩ rfl

theorem paired_search {q : Search ρ α} {P : α → Prop}
    {f f' : α → Recover ρ β} (h : v.Same s s') (hq : Settles v.near q P)
    (hf : ∀ a s₁ s₁', P a → v.Same s₁ s₁' → s₁.memo = s.memo → v.Paired (f a) (f' a) s₁ s₁') :
    v.Paired (search q >>= f) (search q >>= f') s s' := by
  unfold search
  rw [bind_assoc, bind_assoc]
  refine paired_look h hq fun r s₁ s₁' hr hs hm => ?_
  cases r with
  | error e =>
    show v.Paired (throw e : Recover ρ β) (throw e) s₁ s₁'
    exact paired_throw hs fun name he => hr.1 name (congrArg _ he)
  | ok a => exact hf a s₁ s₁' (hr.2 a rfl) hs hm

theorem paired_known {name : String} {f f' : Option DeclId → Recover ρ β} (h : v.Same s s')
    (hf : v.Paired (f (s.find? name)) (f' (s.find? name)) s s') :
    v.Paired (known? name >>= f) (known? name >>= f') s s' := by
  have hfind : s'.find? name = s.find? name := by rw [State.find?, State.find?, h.memo]
  exact paired_of_gives (gives_known.2 ⟨rfl, rfl⟩) (gives_known.2 ⟨hfind, rfl⟩) List.prefix_rfl hf

theorem paired_declare {fullName name : String} {b : Bool} {body : Body} {f f' : DeclId → Recover ρ β}
    (h : v.Same s s')
    (hf : ∀ s₁ s₁', v.Same s₁ s₁' → s₁.memo = s.memo ++ [(fullName, s.schema.size)] →
      v.Paired (f s.schema.size) (f' s.schema.size) s₁ s₁') :
    v.Paired (declare fullName name b body >>= f) (declare fullName name b body >>= f') s s' := by
  have hsize : s'.schema.size = s.schema.size := by rw [h.schema]
  refine paired_of_gives (gives_declare.2 ⟨rfl, rfl⟩) (gives_declare.2 ⟨hsize, rfl⟩) (List.prefix_append ..) ?_
  refine hf _ _ ⟨?_, ?_, h.diagnostics, h.pool⟩ rfl
  · show s.schema.declare name b body = s'.schema.declare name b body
    rw [h.schema]
  · show s.memo ++ [(fullName, s.schema.size)] = s'.memo ++ [(fullName, s'.schema.size)]
    rw [h.memo, hsize]

theorem paired_attributes {x : Catalog.Attributes ρ} {f f' : List (Catalog.Attribute ρ) → Recover ρ β}
    (h : v.Same s s') (hx : Readable v.seen x)
    (hf : ∀ as s₁ s₁', v.Same s₁ s₁' → s₁.memo = s.memo → v.Paired (f as) (f' as) s₁ s₁') :
    v.Paired (search (c.readAttributes x) >>= f) (search (c.readAttributes x) >>= f') s s' := by
  unfold search
  rw [bind_assoc, bind_assoc]
  refine paired_look h (agree_readAttributes v hx) ?_
  rintro _ s₁ s₁' ⟨as, rfl⟩ hs hm
  exact hf as s₁ s₁' hs hm

end Paired

/-! ## Depth -/

section Depth
variable {c : Catalog ρ} (v : Kin c)

/-- How many of the names are not noted yet. -/
def Kin.unmet (s : State ρ) : Nat := (v.keys.filter fun k => s.find? k = none).card

/-- A depth that is enough to enter classes. -/
def Kin.need (s : State ρ) : Nat := v.unmet s * (v.keys.card + 2) + 1

theorem unmet_subset {s s₁ : State ρ} (h : s.memo <+: s₁.memo) :
    (v.keys.filter fun k => s₁.find? k = none) ⊆ v.keys.filter fun k => s.find? k = none := by
  intro k hk
  simp only [Finset.mem_filter] at hk ⊢
  refine ⟨hk.1, ?_⟩
  cases hs : s.find? k with
  | none => rfl
  | some id =>
    have : s₁.find? k = some id := lookup_of_prefix h hs
    rw [hk.2] at this
    cases this

theorem need_le {s s₁ : State ρ} (h : s.memo <+: s₁.memo) : v.need s₁ ≤ v.need s :=
  Nat.succ_le_succ (Nat.mul_le_mul_right _ (Finset.card_le_card (unmet_subset v h)))

/-- Noting a name leaves enough depth for a whole chain of arguments. -/
theorem need_noted {s s₁ : State ρ} {k : String} {id : DeclId} (hk : k ∈ v.keys) (hnew : s.find? k = none)
    (h : s.memo ++ [(k, id)] <+: s₁.memo) : v.need s₁ + (v.keys.card + 2) ≤ v.need s := by
  have hfound : s₁.find? k = some id := by
    refine lookup_of_prefix h ?_
    rw [List.lookup_append, show s.memo.lookup k = none from hnew]
    simp
  have hlt : v.unmet s₁ + 1 ≤ v.unmet s := by
    refine Finset.card_lt_card ((Finset.ssubset_iff_of_subset (unmet_subset v ?_)).2 ⟨k, ?_, ?_⟩)
    · exact (List.prefix_append ..).trans h
    · simp [hk, hnew]
    · simp [hfound]
  have hmul := Nat.mul_le_mul_right (v.keys.card + 2) hlt
  rw [Nat.add_mul, Nat.one_mul] at hmul
  unfold Kin.need
  omega

/-- Calls that end alike wherever they are made, if the depth is enough. -/
structure Kin.Deep (depth : Nat) (calls calls' : Calls ρ) : Prop where
  message : ∀ {t s s'}, v.seen t → v.Same s s' → v.need s ≤ depth → v.Paired (calls.message t) (calls'.message t) s s'
  enum : ∀ {t s s'}, v.seen t → v.Same s s' → v.need s ≤ depth → v.Paired (calls.enum t) (calls'.enum t) s s'
  fieldType : ∀ {source t s s'}, v.seen t → v.Same s s' → v.need s + (v.rank t + 1) ≤ depth →
    v.Paired (calls.fieldType source t) (calls'.fieldType source t) s s'

end Depth

/-! ## The steps of a recovery -/

section Calls
variable {env : Setting ρ} {v : Kin env.catalog} {depth : Nat} {calls calls' : Calls ρ} (hc : v.Deep depth calls calls')
  {s s' : State ρ} {t : ρ}

include hc in
theorem paired_place {id : DeclId} (h : v.Same s s') (hd : v.need s ≤ depth) :
    v.Paired (place env calls t id) (place env calls' t id) s s' := by
  unfold place
  refine paired_look h (agree_owner? v t) fun o s₁ s₁' ho hs hm => ?_
  cases o with
  | none => exact paired_change hs
  | some owner =>
    refine paired_bind (hc.message (ho owner rfl) hs ((need_le v (hm ▸ List.prefix_rfl)).trans hd)) ?_
    exact fun parent s₂ s₂' hs₂ _ => paired_change hs₂

theorem paired_wellKnownType {source : DeclId} {w : Schema.WellKnown} (h : v.Same s s') :
    v.Paired (wellKnownType source w : Recover ρ FieldType) (wellKnownType source w) s s' :=
  paired_bind (paired_change h) fun _ _ _ hs _ => paired_pure hs

theorem paired_referenceType {source target : DeclId} (h : v.Same s s') :
    v.Paired (referenceType source target : Recover ρ FieldType) (referenceType source target) s s' :=
  paired_bind (paired_change h) fun _ _ _ hs _ => paired_pure hs

include hc in
theorem paired_singleType {source : DeclId} (ht : v.seen t) (h : v.Same s s') (hd : v.need s ≤ depth) :
    v.Paired (singleType env calls source t) (singleType env calls' source t) s s' := by
  unfold singleType
  dsimp only
  split
  · exact paired_pure h
  · exact paired_wellKnownType h
  · split
    · split
      · exact paired_pure h
      · exact paired_bind (hc.enum ht h hd) fun target _ _ hs _ => paired_referenceType hs
    · exact paired_bind (hc.message ht h hd) fun target _ _ hs _ => paired_referenceType hs

include hc in
theorem paired_fieldType {source : DeclId} (ht : v.seen t) (h : v.Same s s') (hd : v.need s + v.rank t ≤ depth) :
    v.Paired (fieldType env calls source t) (fieldType env calls' source t) s s' := by
  unfold fieldType
  refine paired_look h (v.arguments t ht) fun arguments s₁ s₁' ha hs hm => ?_
  have hd₁ : v.need s₁ + v.rank t ≤ depth := (Nat.add_le_add_right (need_le v (hm ▸ List.prefix_rfl)) _).trans hd
  -- An argument is of a lower rank, so one call less deep is enough for it, also after others.
  have hargument : ∀ a ∈ arguments, ∀ s₂ s₂', v.Same s₂ s₂' → s₁.memo <+: s₂.memo →
      v.Paired (calls.fieldType source a) (calls'.fieldType source a) s₂ s₂' := by
    intro a hmem s₂ s₂' hs₂ hm₂
    have hrank := (ha a hmem).2
    have hneed := need_le v hm₂
    exact hc.fieldType (ha a hmem).1 hs₂ (by omega)
  split
  · exact paired_wellKnownType hs
  · split
    · rename_i element _
      refine paired_bind (hargument element (by simp) s₁ s₁' hs List.prefix_rfl) ?_
      exact fun _ _ _ hs₂ _ => paired_pure hs₂
    · rename_i key value _
      refine paired_bind (hargument key (by simp) s₁ s₁' hs List.prefix_rfl) fun _ s₂ s₂' hs₂ hm₂ => ?_
      exact paired_bind (hargument value (by simp) s₂ s₂' hs₂ hm₂) fun _ _ _ hs₃ _ => paired_pure hs₃
    · exact paired_singleType hc ht hs ((Nat.le_add_right _ _).trans hd₁)

omit hc in
theorem paired_enumMembers {enumName : String} {fields : List (Catalog.Field ρ)}
    (hf : ∀ f ∈ fields, Readable v.seen f.attributes) (h : v.Same s s') :
    v.Paired (enumMembers env t enumName fields) (enumMembers env t enumName fields) s s' := by
  induction fields generalizing s s' with
  | nil => exact paired_pure h
  | cons f rest ih =>
    unfold enumMembers
    refine paired_bind ?_ fun member s₁ s₁' hs _ => ?_
    · rw [enumMember_eq]
      split
      · exact paired_throw h (by simp)
      · exact paired_attributes h (hf f (by simp)) fun _ _ _ hs _ => paired_pure hs
    · exact paired_bind (ih (fun g hg => hf g (by simp [hg])) hs) fun _ _ _ hs₂ _ => paired_pure hs₂

include hc in
theorem paired_addTold {id : DeclId} {p : Catalog.Property ρ} {told : Told ρ} {w : InProgress ρ}
    (htold : told.Of env p v.seen) (h : v.Same s s') (hd : v.need s + (v.keys.card + 1) ≤ depth) :
    v.Paired (addTold env calls t id p w told) (addTold env calls' t id p w told) s s' := by
  unfold addTold
  cases htold with
  | nothing | choice => exact paired_pure h
  | unnumbered => exact paired_bind (paired_diagnose h) fun _ _ _ hs₁ _ => paired_pure hs₁
  | @field type htype attributes number isOptional =>
    dsimp only
    split
    · exact paired_bind (paired_diagnose h) fun _ _ _ hs₁ _ => paired_pure hs₁
    · have hrank := v.rank_le type
      exact paired_bind (hc.fieldType htype h (by omega)) fun _ _ _ hs₁ _ => paired_pure hs₁

include hc in
/-- Every field needs a whole chain of arguments, and no more. -/
theorem paired_addProperties [DecidableEq ρ] {id : DeclId} {ps : List (Catalog.Property ρ)} {w : InProgress ρ}
    (hps : ∀ p ∈ ps, v.seen p.type ∧ Readable v.seen p.attributes) (h : v.Same s s')
    (hd : v.need s + (v.keys.card + 1) ≤ depth) :
    v.Paired (addProperties env calls t id ps w) (addProperties env calls' t id ps w) s s' := by
  refine paired_stepThrough hps (fun {p rest w s₁ s₁'} hps hs₁ hm₁ => ?_) h
  obtain ⟨hp, ha⟩ := hps p (by simp)
  have hrest : ∀ q ∈ rest, v.seen q.type := fun q hq => (hps q (by simp [hq])).1
  unfold addProperty
  split
  · exact paired_pure hs₁
  · refine paired_search hs₁ (settles_tellProperty v t w.numbers hp ha hrest) fun told s₂ s₂' htold hs₂ hm₂ => ?_
    -- The depth stays enough, however many names have been noted.
    exact paired_addTold hc htold hs₂ ((Nat.add_le_add_right (need_le v (hm₂ ▸ hm₁)) _).trans hd)

omit hc in
theorem paired_diagnoseAll {type : String} {anomalies : List (String × Anomaly)} {c : Catalog ρ} {v : Kin c}
    (h : v.Same s s') :
    v.Paired (anomalies.forM fun (member, x) => diagnose type member x : Recover ρ PUnit)
      (anomalies.forM fun (member, x) => diagnose type member x) s s' := by
  induction anomalies generalizing s s' with
  | nil => exact paired_pure h
  | cons a rest ih => exact paired_bind (paired_diagnose h) fun _ _ _ hs _ => ih hs

include hc in
theorem paired_messageBody [DecidableEq ρ] {id : DeclId} (h : v.Same s s')
    (hd : v.need s + (v.keys.card + 1) ≤ depth) :
    v.Paired (messageBody env calls t id) (messageBody env calls' t id) s s' := by
  unfold messageBody
  refine paired_look h (v.properties t) fun ps s₁ s₁' hps hs₁ hm₁ => ?_
  have hneed : v.need s₁ ≤ v.need s := need_le v (hm₁ ▸ List.prefix_rfl)
  have hd₁ := (Nat.add_le_add_right hneed _).trans hd
  refine paired_bind (paired_addProperties hc (fun p hp => hps p (List.mem_of_mem_filter hp)) hs₁ hd₁) ?_
  intro m s₂ s₂' hs₂ _
  exact paired_bind (paired_diagnoseAll hs₂) fun _ _ _ hs₃ _ => paired_pure hs₃

omit hc in
variable (env) in
/-- A class that is new is noted before anything else is done. -/
theorem paired_introduce {σ : Type} {empty : Body} {settleIn settleIn' : DeclId → Recover ρ Unit}
    {read read' : DeclId → Recover ρ σ} {finish : Schema → DeclId → σ → Schema} (h : v.Same s s')
    (hsettle : ∀ id s₁ s₁', v.Same s₁ s₁' → s.find? (env.catalog.fullName t) = none →
      s.memo ++ [(env.catalog.fullName t, id)] <+: s₁.memo → v.Paired (settleIn id) (settleIn' id) s₁ s₁')
    (hread : ∀ id s₁ s₁', v.Same s₁ s₁' → s.find? (env.catalog.fullName t) = none →
      s.memo ++ [(env.catalog.fullName t, id)] <+: s₁.memo → v.Paired (read id) (read' id) s₁ s₁') :
    v.Paired (introduce env t empty settleIn read finish) (introduce env t empty settleIn' read' finish) s s' := by
  unfold introduce
  refine paired_known h ?_
  cases hnew : s.find? (env.catalog.fullName t) with
  | some id => exact paired_pure h
  | none =>
    refine paired_attributes h (v.attributes t) fun attributes s₁ s₁' hs₁ hm₁ => ?_
    refine paired_declare hs₁ fun s₂ s₂' hs₂ hm₂ => ?_
    rw [hm₁] at hm₂
    refine paired_bind (hsettle _ s₂ s₂' hs₂ hnew (hm₂ ▸ List.prefix_rfl)) fun _ s₃ s₃' hs₃ hm₃ => ?_
    refine paired_bind (hread _ s₃ s₃' hs₃ hnew (hm₂ ▸ hm₃)) fun x s₄ s₄' hs₄ _ => ?_
    exact paired_bind (paired_change hs₄) fun _ _ _ hs₅ _ => paired_pure hs₅

include hc in
theorem paired_message [DecidableEq ρ] (ht : v.seen t) (h : v.Same s s') (hd : v.need s ≤ depth + 1) :
    v.Paired (message env calls t) (message env calls' t) s s' := by
  cases hk : env.catalog.isMessage t with
  | false =>
    unfold message
    simp only [hk, Bool.not_false, if_true]
    exact paired_throw h (by simp)
  | true =>
    rw [message_eq hk, message_eq hk]
    have hkey := v.key_mem t ht (.inl hk)
    refine paired_introduce env h (fun id s₁ s₁' hs hnew hm => ?_) fun id s₁ s₁' hs hnew hm => ?_
    · have hneed := need_noted v hkey hnew hm
      exact paired_place hc hs (by omega)
    · have hneed := need_noted v hkey hnew hm
      exact paired_messageBody hc hs (by omega)

include hc in
theorem paired_enum (ht : v.seen t) (h : v.Same s s') (hd : v.need s ≤ depth + 1) :
    v.Paired (enum env calls t) (enum env calls' t) s s' := by
  cases hk : env.catalog.isEnum t with
  | false =>
    unfold enum
    simp only [hk, Bool.not_false, if_true]
    exact paired_throw h (by simp)
  | true =>
    rw [enum_eq hk, enum_eq hk]
    have hkey := v.key_mem t ht (.inr hk)
    refine paired_introduce env h (fun id s₁ s₁' hs hnew hm => ?_) fun id s₁ s₁' hs hnew hm => ?_
    · have hneed := need_noted v hkey hnew hm
      exact paired_place hc hs (by omega)
    · exact paired_enumMembers (fun f hf => v.fields t f (List.mem_of_mem_filter hf)) hs

end Calls

/-- Calls that go deep enough end alike, however deep they may go. -/
theorem deep_callsWithin [DecidableEq ρ] (env : Setting ρ) (v : Kin env.catalog) {depth d d' : Nat} (hd : depth ≤ d)
    (hd' : depth ≤ d') : v.Deep depth (callsWithin env d) (callsWithin env d') := by
  induction depth generalizing d d' with
  | zero => exact ⟨fun _ _ h => by simp [Kin.need] at h, fun _ _ h => by simp [Kin.need] at h, fun _ _ h => by omega⟩
  | succ depth ih =>
    obtain ⟨d, rfl⟩ : ∃ n, d = n + 1 := ⟨d - 1, by omega⟩
    obtain ⟨d', rfl⟩ : ∃ n, d' = n + 1 := ⟨d' - 1, by omega⟩
    have hc := ih (Nat.le_of_succ_le_succ hd) (Nat.le_of_succ_le_succ hd')
    exact ⟨fun ht h hn => paired_message hc ht h hn, fun ht h hn => paired_enum hc ht h hn,
      fun ht h hn => paired_fieldType hc ht h (by omega)⟩

end ProtoRecovery.Recovery
