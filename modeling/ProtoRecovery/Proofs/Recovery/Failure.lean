import ProtoRecovery.Il2cpp.Catalog
import ProtoRecovery.Proofs.Managed.Pool
import ProtoRecovery.Proofs.Recovery.Visits
/-!
# What a failure leaves behind

A class is noted as soon as it is declared, and nothing is taken back. So a request that fails either was refused before
its class was declared, and then it fails again in the same way; or the class stays, noted and without a body, and the
next request for it ends well.
-/

namespace ProtoRecovery.Recovery

open Schema (DeclId Kind Message Service EnumMember Above Kept Solitary)
open Catalog (Pool)
open Identifier (Dictionary)

variable {ρ α : Type}

/-! ## Attempts that fail -/

/-- What is kept for good is the same in two states. -/
def SameRecord (s s' : State ρ) : Prop :=
  s'.schema = s.schema ∧ s'.memo = s.memo ∧ s'.diagnostics = s.diagnostics

/-- A class was declared and noted, and has no body; nothing that was there before is lost. -/
structure Abandoned (c : Catalog ρ) (names : Option Dictionary) (t : ρ) (k : Kind) (s s' : State ρ) : Prop where
  new : s.find? (c.fullName t) = none
  noted : s'.find? (c.fullName t) = some s.schema.size
  blank : ∃ isDeprecated, s'.schema.faceOf? s.schema.size =
    some ⟨Identifier.typeName names (c.name t), isDeprecated, k.emptyBody⟩
  kept : Kept s.schema.size s.schema.size s.schema s'.schema
  memo : s.memo <+: s'.memo
  diagnostics : s.diagnostics <+: s'.diagnostics

section Introduce
variable {σ : Type} {env : Setting ρ} {t : ρ} {k : Kind} {s s' : State ρ} {e : Error}
  {settleIn : DeclId → Recover ρ Unit} {read : DeclId → Recover ρ σ} {finish : Schema → DeclId → σ → Schema}
  {Q : σ → State ρ → Prop}

/-- Attributes that cannot be read can never be read. -/
theorem answer_attributesOf_error {c : Catalog ρ} :
    s.answer (attributesOf c t) = .error e ↔ c.attributes t = .error e := by
  unfold attributesOf Catalog.readAttributes State.answer
  cases c.attributes t with
  | error e' =>
    show Except.error e' = Except.error e ↔ _
    simp
  | ok attributes =>
    constructor
    · intro h
      have hok : ∀ (as : List (Catalog.Attribute ρ)) p,
          ∃ bs, ((liftM (c.resolveTypes as) : Catalog.Search ρ _).run.run p).1 = .ok bs := fun as p => ⟨_, rfl⟩
      obtain ⟨bs, hbs⟩ := hok attributes s.pool
      rw [hbs] at h
      cases h
    · rintro ⟨⟩

theorem outcome_change (f : Schema → Schema) (s : State ρ) : outcome (change f) s = (.ok (), s.changed f) :=
  gives_change.2 rfl

/-- A class that could not be finished stays as it was declared. -/
theorem abandoned_of_does (hM : Roams env.catalog .growing) (hsuits : Suits env.catalog (fun _ => True) k t)
    (hnew : s.find? (env.catalog.fullName t) = none)
    (attributes : List (Catalog.Attribute ρ))
    (h : Does env.catalog .growing s.schema.size (s.schema.size + 1) (s.introduced env t attributes k.emptyBody) s') :
    Abandoned env.catalog env.names t k s s' ∧ Extends s.pool s'.pool := by
  have hdeclared : Onward .growing s.schema.size s.schema.size s (s.introduced env t attributes k.emptyBody) :=
    (does_introduced hM hsuits trivial hnew attributes).onward hM (Schema.above_size s.schema)
  have honward := h.onward hM hdeclared.above
  have hsize := (solitary_introduced s env t attributes k).lt
  refine ⟨⟨hnew, ?_, ?_, ?_, ?_, ?_⟩, hdeclared.pool.trans honward.pool⟩
  · exact lookup_of_prefix honward.memo (find?_introduced attributes hnew)
  · refine ⟨hasAttribute env.catalog attributes obsoleteAttribute, ?_⟩
    rw [honward.kept.faceOf? hsize (Nat.lt_succ_self _)]
    exact (Schema.faceOf?_declare ..).trans (if_pos rfl)
  · exact hdeclared.kept.trans (honward.kept.mono le_rfl (Nat.le_succ _))
  · exact hdeclared.memo.trans honward.memo
  · exact hdeclared.diagnostics.trans honward.diagnostics

/-- If a class cannot be introduced, either its attributes cannot be read, or it was declared and then given up. -/
theorem introduce_failed (hM : Roams env.catalog .growing) (hsuits : Suits env.catalog (fun _ => True) k t)
    (hsettle : ∀ id (s₁ : State ρ), Solitary s₁.schema id →
      Moves env.catalog .growing id (id + 1) (settleIn id) s₁ fun _ _ => True)
    (hread : ∀ id (s₁ : State ρ), id < s₁.schema.size →
      Moves env.catalog .growing id (id + 1) (read id) s₁ Q)
    (h : outcome (introduce env t k.emptyBody settleIn read finish) s = (.error e, s')) :
    (s.find? (env.catalog.fullName t) = none ∧ env.catalog.attributes t = .error e ∧
      s' = s.after (attributesOf env.catalog t)) ∨
      (Abandoned env.catalog env.names t k s s' ∧ Extends s.pool s'.pool) := by
  cases hknown : s.find? (env.catalog.fullName t) with
  | some id =>
    rw [outcome_introduce_known hknown] at h
    cases h
  | none =>
    rw [outcome_introduce_new hknown] at h
    cases hattributes : s.answer (attributesOf env.catalog t) with
    | error e' =>
      rw [hattributes] at h
      cases h
      exact .inl ⟨rfl, answer_attributesOf_error.1 hattributes, rfl⟩
    | ok attributes =>
      rw [hattributes] at h
      refine .inr (abandoned_of_does hM hsuits hknown attributes ?_)
      have hfurnish := moves_furnish (hsettle s.schema.size) (hread s.schema.size)
        (solitary_introduced s env t attributes k)
      -- Nothing can fail once the body has been read.
      have hsplit : (do
          settleIn s.schema.size
          let x ← read s.schema.size
          change (finish · s.schema.size x)
          return s.schema.size) = ((do settleIn s.schema.size; read s.schema.size) >>= fun x => do
            change (finish · s.schema.size x)
            return s.schema.size) := by simp only [bind_assoc]
      dsimp only at h
      rw [hsplit, outcome_bind] at h
      have hdoes := hfurnish.does
      revert h hdoes
      rcases outcome (do settleIn s.schema.size; read s.schema.size)
        (s.introduced env t attributes k.emptyBody) with ⟨e' | x, s₁⟩
      · rintro ⟨⟩ hdoes
        exact hdoes
      · intro h _
        dsimp only at h
        rw [outcome_bind, outcome_change] at h
        cases h

/-- How calls for a class fare: one that fails was refused, and is refused again, or it leaves the class abandoned, and
the next call takes that for the class. Calls may go to different depths. -/
def Fares (c : Catalog ρ) (names : Option Dictionary) (t : ρ) (k : Kind) (refused : State ρ → Error → Prop)
    (call : (depth : Nat) → Recover ρ DeclId) : Prop :=
  ∀ depth (s s' : State ρ) e, outcome (call depth) s = (.error e, s') → Extends s.pool s'.pool ∧
    ((refused s e ∧ SameRecord s s' ∧ ∀ depth', ∃ s₂, outcome (call depth') s' = (.error e, s₂) ∧ SameRecord s' s₂) ∨
      (Abandoned c names t k s s' ∧ ∀ depth', outcome (call depth') s' = (.ok s.schema.size, s')))

/-- A new class whose attributes cannot be read. -/
def Unreadable (c : Catalog ρ) (t : ρ) (s : State ρ) (e : Error) : Prop :=
  s.find? (c.fullName t) = none ∧ c.attributes t = .error e

theorem fares_introduce (hM : Roams env.catalog .growing) (hsuits : Suits env.catalog (fun _ => True) k t)
    {settleIn : Nat → DeclId → Recover ρ Unit}
    {read : Nat → DeclId → Recover ρ σ}
    (hsettle : ∀ depth id (s₁ : State ρ), Solitary s₁.schema id →
      Moves env.catalog .growing id (id + 1) (settleIn depth id) s₁ fun _ _ => True)
    (hread : ∀ depth id (s₁ : State ρ), id < s₁.schema.size →
      Moves env.catalog .growing id (id + 1) (read depth id) s₁ Q) :
    Fares env.catalog env.names t k (Unreadable env.catalog t)
      fun depth => introduce env t k.emptyBody (settleIn depth) (read depth) finish := by
  intro depth s s' e h
  rcases introduce_failed hM hsuits (hsettle depth) (hread depth) h with ⟨hnew, he, rfl⟩ | ⟨habandoned, hpool⟩
  · refine ⟨(asks_readAttributes hM _ s.pool).1, .inl ⟨⟨hnew, he⟩, ⟨rfl, rfl, rfl⟩, fun depth' => ?_⟩⟩
    refine ⟨(s.after (attributesOf env.catalog t)).after (attributesOf env.catalog t), ?_, rfl, rfl, rfl⟩
    have hnew' : (s.after (attributesOf env.catalog t)).find? (env.catalog.fullName t) = none := hnew
    dsimp only
    rw [outcome_introduce_new hnew', answer_attributesOf_error.2 he]
  · exact ⟨hpool, .inr ⟨habandoned, fun depth' => outcome_introduce_known habandoned.noted⟩⟩

/-- A class of the wrong shape is refused at once. -/
theorem fares_misfit {c : Catalog ρ} {names : Option Dictionary} {refused : State ρ → Error → Prop}
    {call : Nat → Recover ρ DeclId} (hcall : ∀ depth s, outcome (call depth) s = (.error e, s)) (he : ∀ s, refused s e) :
    Fares c names t k refused call := by
  intro depth s s' e' h
  rw [hcall] at h
  cases h
  exact ⟨.refl _, .inl ⟨he s, ⟨rfl, rfl, rfl⟩, fun depth' => ⟨s, hcall depth' s, rfl, rfl, rfl⟩⟩⟩

theorem Fares.mono {c : Catalog ρ} {names : Option Dictionary} {refused refused' : State ρ → Error → Prop}
    {call : Nat → Recover ρ DeclId} (h : Fares c names t k refused call) (hr : ∀ s e, refused s e → refused' s e) :
    Fares c names t k refused' call := by
  intro depth s s' e he
  obtain ⟨hpool, ⟨hrefused, hrest⟩ | habandoned⟩ := h depth s s' e he
  · exact ⟨hpool, .inl ⟨hr s e hrefused, hrest⟩⟩
  · exact ⟨hpool, .inr habandoned⟩

end Introduce

section Calls
variable [DecidableEq ρ] (env : Setting ρ) {t : ρ} (hM : Roams env.catalog .growing)
include hM

theorem fares_message :
    Fares env.catalog env.names t .message
      (fun s e => (env.catalog.isMessage t = false ∧ e = .misfit (env.catalog.fullName t) .notMessage) ∨
        Unreadable env.catalog t s e)
      fun depth => message env (callsWithin env depth) t := by
  cases ht : env.catalog.isMessage t with
  | false => exact fares_misfit (fun _ _ => outcome_message_refused ht) fun _ => .inl ⟨rfl, rfl⟩
  | true =>
    simp only [message_eq ht]
    have hcalls := tracked_callsWithin env hM
    exact Fares.mono (fares_introduce (k := .message) hM ht
      (fun depth _ _ hid => moves_place hM (hcalls depth) le_rfl hid hid.lt)
      (fun depth _ _ hid => moves_messageBody hM (hcalls depth) hid.le hid)) fun _ _ => .inr

theorem fares_enum :
    Fares env.catalog env.names t .enum
      (fun s e => (env.catalog.isEnum t = false ∧ e = .misfit (env.catalog.fullName t) .notEnum) ∨
        Unreadable env.catalog t s e)
      fun depth => enum env (callsWithin env depth) t := by
  cases ht : env.catalog.isEnum t with
  | false => exact fares_misfit (fun _ _ => outcome_enum_refused ht) fun _ => .inl ⟨rfl, rfl⟩
  | true =>
    simp only [enum_eq ht]
    exact Fares.mono (fares_introduce (k := .enum) hM ht
      (fun depth _ _ hid => moves_place hM (tracked_callsWithin env hM depth) le_rfl hid hid.lt)
      (fun _ _ _ _ => moves_enumMembers hM)) fun _ _ => .inr

/-- A service whose classes are told fares like any other class. -/
theorem fares_service (classes : Classes ρ) :
    Fares env.catalog env.names classes.holder .service (Unreadable env.catalog classes.holder)
      fun depth => introduce env classes.holder (.service {}) (startFile env.catalog classes.holder)
        (serviceBody env (callsWithin env depth) classes) finishService := by
  exact fares_introduce (k := .service) hM trivial (fun _ _ _ hid => moves_startFile classes.holder le_rfl hid)
    fun depth _ _ hid => moves_serviceBody hM (tracked_callsWithin env hM depth) hid.le hid

end Calls

/-! ## Requests that fail -/

/-- A request is refused before anything is declared: the class is not fit for it, the classes of a service cannot be
told, or the attributes of a new class cannot be read. -/
inductive Request.Refused (c : Catalog ρ) (s : State ρ) : Request ρ → Error → Prop
  | notMessage (r : ρ) (options : Options) : c.isMessage (s.answer (c.resolve r)) = false →
      Refused c s (.message r options) (.misfit (c.fullName (s.answer (c.resolve r))) .notMessage)
  | notEnum (r : ρ) (options : Options) : c.isEnum (s.answer (c.resolve r)) = false →
      Refused c s (.enum r options) (.misfit (c.fullName (s.answer (c.resolve r))) .notEnum)
  | noService (r : ρ) (options : Options) {e : Error} :
      (s.after (c.resolve r)).answer (classify c (s.answer (c.resolve r))).run = .error e →
      Refused c s (.service r options) e
  | unreadable {q : Request ρ} {t : ρ} {k : Kind} {e : Error} : q.IsFor c s t k →
      s.find? (c.fullName t) = none → c.attributes t = .error e → Refused c s q e

/-- What a request that failed leaves behind: everything is as it was, and the request fails again; or there is an
unfinished declaration, and the same request gives that. -/
def Request.LeavesBehind [DecidableEq ρ] (c : Catalog ρ) (names : Option Dictionary) (q : Request ρ) (e : Error)
    (s s' : State ρ) : Prop :=
  (q.Refused c s e ∧ SameRecord s s' ∧ ∃ s₂, outcome (q.run c names) s' = (.error e, s₂) ∧ SameRecord s' s₂) ∨
    ∃ t k, q.IsFor c s t k ∧ Abandoned c names t k s s' ∧
      ∃ s₂, outcome (q.run c names) s' = (.ok (some s.schema.size), s₂) ∧ SameRecord s' s₂

section Requests
variable [DecidableEq ρ] {c : Catalog ρ} {names : Option Dictionary} {options : Options} {s s' : State ρ} {r : ρ}
  {e : Error}

omit [DecidableEq ρ] in
/-- There is always room for one call. -/
theorem depthFor_pos (s : State ρ) (t : ρ) : ∃ depth, depthFor c s t = depth + 1 := by
  have hpos : 0 < depthFor c s t := by
    have hle : ∀ (pool : Pool ρ) n, n ≤ pool.foldl (fun n x => n + c.weight x.2) n := by
      intro pool
      induction pool with
      | nil => exact fun _ => le_rfl
      | cons entry rest ih => exact fun n => (Nat.le_add_right _ _).trans (ih _)
    have hsize : 0 < s.pool.foldl (fun n x => n + c.weight x.2) (c.extent + c.weight t + 3) :=
      (Nat.succ_pos _).trans_le (hle s.pool _)
    exact Nat.mul_pos hsize hsize
  exact ⟨depthFor c s t - 1, by omega⟩

theorem outcome_recoverMessage (env : Setting ρ) (t : ρ) (s : State ρ) : ∃ depth,
    outcome (recoverMessage env t) s = outcome (message env (callsWithin env depth) t) s := by
  obtain ⟨depth, hdepth⟩ := depthFor_pos (c := env.catalog) s t
  refine ⟨depth, ?_⟩
  unfold recoverMessage
  rw [outcome_callsFor, hdepth]
  rfl

theorem outcome_messageRequest (r : ρ) (options : Options) (s : State ρ) : ∃ depth,
    outcome ((Request.message r options).run c names) s =
      let x := outcome (message ⟨c, names, options⟩ (callsWithin ⟨c, names, options⟩ depth) (s.answer (c.resolve r)))
        (s.after (c.resolve r))
      (x.1.map some, x.2) := by
  obtain ⟨depth, h⟩ := outcome_recoverMessage ⟨c, names, options⟩ (s.answer (c.resolve r)) (s.after (c.resolve r))
  exact ⟨depth, outcome_lookUp.trans (by rw [h])⟩

theorem outcome_enumRequest (r : ρ) (options : Options) (s : State ρ) : ∃ depth,
    outcome ((Request.enum r options).run c names) s =
      let x := outcome (enum ⟨c, names, options⟩ (callsWithin ⟨c, names, options⟩ depth) (s.answer (c.resolve r)))
        (s.after (c.resolve r))
      (x.1.map some, x.2) := by
  obtain ⟨depth, hdepth⟩ := depthFor_pos (c := c) (s.after (c.resolve r)) (s.answer (c.resolve r))
  refine ⟨depth, outcome_lookUp.trans ?_⟩
  unfold recoverEnum
  rw [outcome_callsFor, hdepth]
  rfl

theorem outcome_serviceRequest (names : Option Dictionary) (r : ρ) (options : Options) (s : State ρ) : ∃ depth,
    outcome ((Request.service r options).run c names) s =
      let x := outcome (service ⟨c, names, options⟩ (callsWithin ⟨c, names, options⟩ depth) (s.answer (c.resolve r)))
        (s.after (c.resolve r))
      (x.1.map some, x.2) := by
  refine ⟨depthFor c (s.after (c.resolve r)) (s.answer (c.resolve r)), outcome_lookUp.trans ?_⟩
  unfold recoverService
  rw [outcome_callsFor]

omit [DecidableEq ρ] in
/-- A type is the same when it is looked up again. -/
theorem resolve_again (h : Extends (s.after (c.resolve r)).pool s'.pool) :
    s'.answer (c.resolve r) = s.answer (c.resolve r) ∧ s'.after (c.resolve r) = s' := by
  obtain ⟨-, hrun⟩ := lasts_resolve r s.pool h
  unfold State.answer State.after
  rw [hrun]
  exact ⟨rfl, rfl⟩

omit [DecidableEq ρ] in
theorem map_some_eq_error {x : Except Error DeclId × State ρ} (h : (x.1.map some, x.2) = (.error e, s')) :
    x = (.error e, s') := by
  obtain ⟨a | id, s₁⟩ := x
  · cases h
    rfl
  · cases h

/-- What a request for a class leaves behind is what its call leaves behind. -/
theorem leavesBehind_of_fares {q : Request ρ} {k : Kind} {refused : State ρ → Error → Prop}
    {call : Nat → Recover ρ DeclId}
    (hfares : Fares c names (s.answer (c.resolve r)) k refused call) (hfor : q.IsFor c s (s.answer (c.resolve r)) k)
    (hrefused : ∀ e, refused (s.after (c.resolve r)) e → q.Refused c s e)
    (hrun : ∀ s₁ : State ρ, s₁.answer (c.resolve r) = s.answer (c.resolve r) → ∃ depth,
      outcome (q.run c names) s₁ =
        ((outcome (call depth) (s₁.after (c.resolve r))).1.map some, (outcome (call depth) (s₁.after (c.resolve r))).2))
    (h : outcome (q.run c names) s = (.error e, s')) : q.LeavesBehind c names e s s' := by
  obtain ⟨depth, hs⟩ := hrun s rfl
  rw [hs] at h
  obtain ⟨hpool, hcases⟩ := hfares depth _ _ e (map_some_eq_error h)
  obtain ⟨htype, hstate⟩ := resolve_again hpool
  obtain ⟨depth', hs'⟩ := hrun s' htype
  rw [hstate] at hs'
  rcases hcases with ⟨hr, hsame, hagain⟩ | ⟨habandoned, hagain⟩
  · obtain ⟨s₂, h₂, hsame₂⟩ := hagain depth'
    exact .inl ⟨hrefused e hr, hsame, s₂, by rw [hs', h₂]; rfl, hsame₂⟩
  · refine .inr ⟨_, k, hfor, ?_, s', by rw [hs', hagain depth']; rfl, rfl, rfl, rfl⟩
    exact ⟨habandoned.new, habandoned.noted, habandoned.blank, habandoned.kept, habandoned.memo,
      habandoned.diagnostics⟩

omit [DecidableEq ρ] in
theorem outcome_service {env : Setting ρ} {calls : Calls ρ} {t : ρ} :
    outcome (service env calls t) s =
      match s.answer (classify env.catalog t).run with
      | .error e => (.error e, s.after (classify env.catalog t).run)
      | .ok classes => outcome (introduce env classes.holder (.service {}) (startFile env.catalog classes.holder)
          (serviceBody env calls classes) finishService) (s.after (classify env.catalog t).run) := by
  rw [service_eq, outcome_bind, outcome_search]
  cases s.answer (classify env.catalog t).run <;> rfl

omit [DecidableEq ρ] in
theorem classify_again {t : ρ} (h : Extends (s.after (classify c t).run).pool s'.pool) :
    s'.answer (classify c t).run = s.answer (classify c t).run ∧ s'.after (classify c t).run = s' := by
  obtain ⟨-, hrun⟩ := lasts_classify t s.pool h
  unfold State.answer State.after
  rw [hrun]
  exact ⟨rfl, rfl⟩

theorem leavesBehind_service (hM : Roams c .growing)
    (h : outcome ((Request.service r options).run c names) s = (.error e, s')) :
    (Request.service r options).LeavesBehind c names e s s' := by
  obtain ⟨depth, hs⟩ := outcome_serviceRequest (c := c) names r options s
  obtain ⟨depth', hs'⟩ := outcome_serviceRequest (c := c) names r options s'
  rw [hs] at h
  have hcall := map_some_eq_error h
  rw [outcome_service] at hcall
  -- Whatever happens, the class is told from the pool as before.
  have hpool : Extends (s.after (c.resolve r)).pool
      ((s.after (c.resolve r)).after (classify c (s.answer (c.resolve r))).run).pool :=
    (asks_classify hM _ _).1
  cases hclasses : (s.after (c.resolve r)).answer (classify c (s.answer (c.resolve r))).run with
  | error e' =>
    rw [hclasses] at hcall
    cases hcall
    obtain ⟨htype, hstate⟩ := resolve_again hpool
    obtain ⟨hagain, hafter⟩ := classify_again (Extends.refl
      ((s.after (c.resolve r)).after (classify c (s.answer (c.resolve r))).run).pool)
    rw [htype, hstate, outcome_service, hagain, hclasses] at hs'
    exact .inl ⟨.noService r options hclasses, ⟨rfl, rfl, rfl⟩, _, hs', rfl, rfl, rfl⟩
  | ok classes =>
    rw [hclasses] at hcall
    obtain ⟨hpool', hcases⟩ := fares_service ⟨c, names, options⟩ hM classes depth _ _ e hcall
    obtain ⟨htype, hstate⟩ := resolve_again (hpool.trans hpool')
    obtain ⟨hagain, hafter⟩ := classify_again hpool'
    rw [htype, hstate, outcome_service, hagain, hclasses, hafter] at hs'
    have hfor : (Request.service r options).IsFor c s classes.holder .service := .service r options hclasses
    rcases hcases with ⟨⟨hnew, he⟩, hsame, hrepeat⟩ | ⟨habandoned, hrepeat⟩
    · obtain ⟨s₂, h₂, hsame₂⟩ := hrepeat depth'
      exact .inl ⟨.unreadable hfor hnew he, hsame, s₂, by rw [hs']; dsimp only; rw [h₂]; rfl, hsame₂⟩
    · refine .inr ⟨_, _, hfor, ?_, s', by rw [hs']; dsimp only; rw [hrepeat depth']; rfl, rfl, rfl, rfl⟩
      exact ⟨habandoned.new, habandoned.noted, habandoned.blank, habandoned.kept, habandoned.memo,
        habandoned.diagnostics⟩

/-- For any catalog whose questions only add to the pool. -/
theorem leavesBehind_of_roams (hM : Roams c .growing) (q : Request ρ)
    (h : outcome (q.run c names) s = (.error e, s')) : q.LeavesBehind c names e s s' := by
  cases q with
  | type r => cases h
  | message r options =>
    refine leavesBehind_of_fares (fares_message ⟨c, names, options⟩ hM) (.message r options) ?_ ?_ h
    · rintro e (⟨ht, rfl⟩ | ⟨hnew, he⟩)
      · exact .notMessage r options ht
      · exact .unreadable (.message r options) hnew he
    · intro s₁ hs₁
      rw [← hs₁]
      exact outcome_messageRequest r options s₁
  | enum r options =>
    refine leavesBehind_of_fares (fares_enum ⟨c, names, options⟩ hM) (.enum r options) ?_ ?_ h
    · rintro e (⟨ht, rfl⟩ | ⟨hnew, he⟩)
      · exact .notEnum r options ht
      · exact .unreadable (.enum r options) hnew he
    · intro s₁ hs₁
      rw [← hs₁]
      exact outcome_enumRequest r options s₁
  | service r options => exact leavesBehind_service hM h

end Requests

/-! ## Libraries and stores -/

theorem roams_store (st : Il2cpp.Store) : Roams st.catalog .growing where
  refl := .refl
  trans _ _ _ := .trans
  resolve := extends_resolve st.catalog
  methods _ := .refl
  properties _ := .refl
  found _ _ := trivial
  stays _ _ _ _ _ := trivial

/-- Whatever metadata is read and in whatever state, a request that fails was refused and left no trace, or it left its
class declared and unfinished, and everything else as it was or added to. -/
theorem failure_refused_or_abandoned {names : Option Dictionary} {e : Error} :
    (∀ (lib : Managed.Library) (q : Request Managed.TypeRef) (s s' : State Managed.TypeRef),
      outcome (q.run lib.catalog names) s = (.error e, s') → q.LeavesBehind lib.catalog names e s s') ∧
    ∀ (st : Il2cpp.Store) (q : Request Il2cpp.Handle) (s s' : State Il2cpp.Handle),
      outcome (q.run st.catalog names) s = (.error e, s') → q.LeavesBehind st.catalog names e s s' :=
  ⟨fun lib q _ _ => leavesBehind_of_roams (Managed.roams_library lib) q,
    fun st q _ _ => leavesBehind_of_roams (roams_store st) q⟩

/-- The class whose second number is too wide is abandoned. -/
theorem order_abandoned :
    orderOutcome.1 = .error (.misfit "App.Order" (.numberNotInt32 "CountFieldNumber")) ∧
      (Request.message (.named "App.Order") {}).LeavesBehind orderLibrary.catalog none
        (.misfit "App.Order" (.numberNotInt32 "CountFieldNumber")) (start orderLibrary.catalog) orderOutcome.2 := by
  have herror : orderOutcome.1 = .error (.misfit "App.Order" (.numberNotInt32 "CountFieldNumber")) := by
    decide +kernel
  refine ⟨herror, failure_refused_or_abandoned.1 orderLibrary _ _ _ ?_⟩
  rw [← herror]
  exact (Prod.mk.eta : (orderOutcome.1, orderOutcome.2) = orderOutcome).symm

/-- It fails the first time, and is given without its fields the second time. -/
theorem order_given_unfinished :
    orderOutcome.1.toOption = none ∧ ¬SameRecord (start orderLibrary.catalog) orderOutcome.2 ∧
      (outcome (Request.run orderLibrary.catalog none (.message (.named "App.Order") {})) orderOutcome.2).1.toOption =
        some (some 0) ∧
      orderOutcome.2.schema.faceOf? 0 = some ⟨"Order", false, .message {}⟩ := by
  refine ⟨by decide +kernel, fun h => ?_, by decide +kernel, by decide +kernel⟩
  have hsize : orderOutcome.2.schema.size = 2 := by decide +kernel
  rw [h.1] at hsize
  cases hsize

end ProtoRecovery.Recovery
