import ProtoRecovery.Proofs.Managed.Generated
import ProtoRecovery.Proofs.Recovery.Moves
/-!
# Sessions in which requests may fail

`Visited` are the states that a session can be in if it goes on after a failure. What every effect keeps holds of all of
them; here, that messages are well formed.
-/

namespace ProtoRecovery.Recovery

open Schema (DeclId Kind Message Service Body Solitary)
open Catalog (Pool)
open Identifier (Dictionary)

variable {ρ α : Type}

/-! ## Classes that are declared -/

section Introduce
variable {σ : Type} {env : Setting ρ} {t : ρ} {s : State ρ} {id : DeclId} {empty : Body}
  {settleIn : DeclId → Recover ρ Unit} {read : DeclId → Recover ρ σ} {finish : Schema → DeclId → σ → Schema}

theorem outcome_introduce_known (h : s.find? (env.catalog.fullName t) = some id) :
    outcome (introduce env t empty settleIn read finish) s = (.ok id, s) :=
  gives_introduce.2 (.inl ⟨h, rfl⟩)

/-- The state in which a class has just been declared, given its attributes. -/
def State.introduced (s : State ρ) (env : Setting ρ) (t : ρ) (attributes : List (Catalog.Attribute ρ)) (body : Body) :
    State ρ :=
  (s.after (attributesOf env.catalog t)).declared (env.catalog.fullName t)
    (Identifier.typeName env.names (env.catalog.name t)) (hasAttribute env.catalog attributes obsoleteAttribute) body

/-- What becomes of a new class: it is refused if its attributes cannot be read, and declared otherwise. -/
theorem outcome_introduce_new (h : s.find? (env.catalog.fullName t) = none) :
    outcome (introduce env t empty settleIn read finish) s =
      match s.answer (attributesOf env.catalog t) with
      | .error e => (.error e, s.after (attributesOf env.catalog t))
      | .ok attributes => outcome (do
          settleIn s.schema.size
          let x ← read s.schema.size
          change (finish · s.schema.size x)
          return s.schema.size) (s.introduced env t attributes empty) := by
  have hknown : outcome (known? (env.catalog.fullName t)) s = (.ok none, s) := gives_known.2 ⟨h, rfl⟩
  unfold introduce
  rw [outcome_bind, hknown]
  dsimp only
  rw [outcome_bind, outcome_search]
  cases s.answer (attributesOf env.catalog t) with
  | error e => rfl
  | ok attributes =>
    dsimp only
    rw [outcome_bind, show outcome (declare _ _ _ _) _ = _ from gives_declare.2 ⟨rfl, rfl⟩]
    rfl

variable {M : Manner ρ} {lo hi : Nat} {k : Kind} {Q : σ → State ρ → Prop} (hM : Roams env.catalog M)

theorem kindOf?_eq_face (S : Schema) (x : DeclId) : kindOf? S x = (S.faceOf? x).map (·.body.kind) := by
  have hkind : ∀ b : Body, b.bare.kind = b.kind := by
    intro b
    cases b <;> rfl
  unfold kindOf? Schema.outlineOf? Schema.faceOf?
  cases S.decls[x]? with
  | none => rfl
  | some d => simp [Schema.Declaration.outline, Schema.Declaration.face, hkind]

/-- What is done to a class that has just been declared, up to where its body is filled in. -/
theorem moves_furnish
    (hsettle : ∀ s₁ : State ρ, Solitary s₁.schema id →
      Moves env.catalog M id (id + 1) (settleIn id) s₁ fun _ _ => True)
    (hread : ∀ s₁ : State ρ, id < s₁.schema.size → Moves env.catalog M id (id + 1) (read id) s₁ Q)
    (hid : Solitary s.schema id) : Moves env.catalog M id (id + 1) (do settleIn id; read id) s Q :=
  moves_bind (hsettle s hid) fun _ s₁ hs₁ _ => hread s₁ (hid.lt.trans_le hs₁.size_le)

/-- What has just been declared is on its own. -/
theorem solitary_introduced (s : State ρ) (env : Setting ρ) (t : ρ) (attributes : List (Catalog.Attribute ρ))
    (k : Kind) :
    Solitary (s.introduced env t attributes k.emptyBody).schema s.schema.size := by
  have hnone : (s.after (attributesOf env.catalog t)).schema.decls[s.schema.size]? = none :=
    List.getElem?_eq_none le_rfl
  refine ⟨⟨(Nat.lt_succ_self _).trans_eq (Schema.size_declare ..).symm, ?_, ?_⟩, ?_⟩
  · exact (Schema.fileOf?_declare ..).trans (by rw [Schema.fileOf?, hnone]; rfl)
  · exact (Schema.parentOf?_declare ..).trans (by rw [Schema.parentOf?, hnone]; rfl)
  · exact (Schema.nestedIn_declare ..).trans (by rw [Schema.nestedIn, hnone]; rfl)

/-- What has just been declared is noted. -/
theorem find?_introduced (attributes : List (Catalog.Attribute ρ)) (h : s.find? (env.catalog.fullName t) = none) :
    (s.introduced env t attributes empty).find? (env.catalog.fullName t) = some s.schema.size := by
  show (s.memo ++ [(env.catalog.fullName t, s.schema.size)]).lookup _ = _
  rw [List.lookup_append, show s.memo.lookup _ = none from h]
  simp

include hM

theorem does_introduced (hsuits : Suits env.catalog M.holder k t) (hstands : M.stands s.pool t)
    (h : s.find? (env.catalog.fullName t) = none) (attributes : List (Catalog.Attribute ρ)) :
    Does env.catalog M lo hi s (s.introduced env t attributes k.emptyBody) := by
  have hlook := (asks_readAttributes hM (env.catalog.attributes t) s.pool).1
  exact .head (.look hlook) (.single (.declare _ _ hsuits (hM.stays _ _ _ hlook hstands) h))

/-- What has just been declared stays of its kind while it gets its place and its body is read. -/
theorem kindOf?_of_does {attributes : List (Catalog.Attribute ρ)} {s' : State ρ}
    (h : Does env.catalog M s.schema.size (s.schema.size + 1) (s.introduced env t attributes k.emptyBody) s') :
    kindOf? s'.schema s.schema.size = some k := by
  have habove : Schema.Above s.schema.size (s.introduced env t attributes k.emptyBody).schema :=
    (Schema.above_size s.schema).of_nestedIn fun p => Schema.nestedIn_declare s.schema p _ _ k
  have hface := (h.onward hM habove).kept.faceOf? (solitary_introduced s env t attributes k).lt (Nat.lt_succ_self _)
  rw [kindOf?_eq_face, hface]
  show Option.map _ ((s.schema.declare ..).faceOf? _) = _
  rw [Schema.faceOf?_declare, if_pos rfl, Option.map_some, Schema.kind_emptyBody]

theorem moves_introduce (hsuits : Suits env.catalog M.holder k t) (hstands : M.stands s.pool t)
    (hsettle : ∀ id (s₁ : State ρ), Solitary s₁.schema id →
      Moves env.catalog M id (id + 1) (settleIn id) s₁ fun _ _ => True)
    (hread : ∀ id (s₁ : State ρ), id < s₁.schema.size → Moves env.catalog M id (id + 1) (read id) s₁ Q)
    (hfinish : ∀ id (s₁ : State ρ) x, kindOf? s₁.schema id = some k → Q x s₁ →
      Effect env.catalog M id id s₁ (s₁.changed (finish · id x)))
    (hlo : lo ≤ s.schema.size) (hhi : hi ≤ s.schema.size) :
    Moves env.catalog M lo hi (introduce env t k.emptyBody settleIn read finish) s fun id s' =>
      Noted env.catalog M s' k t id := by
  cases h : s.find? (env.catalog.fullName t) with
  | some id =>
    refine moves_of_outcome (outcome_introduce_known h) .refl ?_
    rintro _ ⟨⟩
    exact ⟨hsuits, hstands, h⟩
  | none =>
    cases hattributes : s.answer (attributesOf env.catalog t) with
    | error e =>
      refine moves_of_outcome (r := .error e) (by rw [outcome_introduce_new h, hattributes]; rfl)
        (.single (.look (asks_readAttributes hM (env.catalog.attributes t) s.pool).1)) ?_
      rintro _ ⟨⟩
    | ok attributes =>
      have hdeclared : Does env.catalog M lo hi s (s.introduced env t attributes k.emptyBody) :=
        does_introduced hM hsuits hstands h attributes
      have hnoted : Noted env.catalog M (s.introduced env t attributes k.emptyBody) k t s.schema.size :=
        ⟨hsuits, Does.stands hM hdeclared hstands, find?_introduced attributes h⟩
      -- From here on the class itself is finished too, so its own position counts among the later ones.
      have hmoves : Moves env.catalog M s.schema.size s.schema.size (do
          settleIn s.schema.size
          let x ← read s.schema.size
          change (finish · s.schema.size x)
          return s.schema.size) (s.introduced env t attributes k.emptyBody) fun id _ => id = s.schema.size := by
        have hfurnish := (moves_furnish (hsettle _) (hread _) (solitary_introduced s env t attributes k)).imp
          fun _ _ hs₂ hQ => And.intro (kindOf?_of_does hM hs₂) hQ
        have hall := moves_bind (hfurnish.mono le_rfl (Nat.le_succ _)) fun x s₂ _ h =>
          moves_bind (Q := fun _ _ => True) (moves_change (hfinish _ s₂ x h.1 h.2) trivial) fun _ _ _ _ =>
            moves_pure (Q := fun id _ => id = s.schema.size) rfl
        simpa only [bind_assoc] using hall
      refine moves_of_outcome (by rw [outcome_introduce_new h, hattributes])
        (hdeclared.trans (hmoves.does.mono hlo hhi)) fun id hid => ?_
      obtain rfl := hmoves.result id hid
      exact hmoves.does.noted hM hnoted

end Introduce

/-! ## Messages, enums and services -/

section Kinds
variable {env : Setting ρ} {calls : Calls ρ} {t : ρ} {s : State ρ}

theorem message_eq [DecidableEq ρ] (ht : env.catalog.isMessage t = true) :
    message env calls t =
      introduce env t (.message {}) (place env calls t) (messageBody env calls t) finishMessage := by
  unfold message
  simp only [ht, Bool.not_true, Bool.false_eq_true, if_false]
  rfl

theorem outcome_message_refused [DecidableEq ρ] (ht : env.catalog.isMessage t = false) :
    outcome (message env calls t) s = (.error (.misfit (env.catalog.fullName t) .notMessage), s) := by
  unfold message
  simp only [ht, Bool.not_false, if_true]
  rfl

/-- The members of an enum, as a recovery reads them. -/
abbrev membersOf (env : Setting ρ) (t : ρ) : Recover ρ (List Schema.EnumMember) :=
  enumMembers env t (Identifier.typeName env.names (env.catalog.name t)) ((env.catalog.fields t).filter isConstant)

theorem enum_eq (ht : env.catalog.isEnum t = true) :
    enum env calls t =
      introduce env t (.enum {}) (place env calls t) (fun _ => membersOf env t) finishEnum := by
  unfold enum
  simp only [ht, Bool.not_true, Bool.false_eq_true, if_false]
  rfl

theorem outcome_enum_refused (ht : env.catalog.isEnum t = false) :
    outcome (enum env calls t) s = (.error (.misfit (env.catalog.fullName t) .notEnum), s) := by
  unfold enum
  simp only [ht, Bool.not_false, if_true]
  rfl

variable {M : Manner ρ} {lo hi : Nat} (hM : Roams env.catalog M) (hcalls : Tracked env.catalog M calls)
include hM hcalls

theorem moves_message [DecidableEq ρ] (t : ρ) (hstands : M.stands s.pool t) (hlo : lo ≤ s.schema.size)
    (hhi : hi ≤ s.schema.size) :
    Moves env.catalog M lo hi (message env calls t) s fun id s' => Noted env.catalog M s' .message t id := by
  cases ht : env.catalog.isMessage t with
  | false =>
    refine moves_of_outcome (outcome_message_refused ht) .refl ?_
    rintro _ ⟨⟩
  | true =>
    rw [message_eq ht]
    exact moves_introduce (k := .message) hM ht hstands (fun _ _ hid => moves_place hM hcalls le_rfl hid hid.lt)
      (fun _ _ hid => moves_messageBody hM hcalls hid.le hid) (fun _ _ _ hk hm => .finishMessage le_rfl hk hm.1 hm.2)
      hlo hhi

theorem moves_enum (t : ρ) (hstands : M.stands s.pool t) (hlo : lo ≤ s.schema.size) (hhi : hi ≤ s.schema.size) :
    Moves env.catalog M lo hi (enum env calls t) s fun id s' => Noted env.catalog M s' .enum t id := by
  cases ht : env.catalog.isEnum t with
  | false =>
    refine moves_of_outcome (outcome_enum_refused ht) .refl ?_
    rintro _ ⟨⟩
  | true =>
    rw [enum_eq ht]
    exact moves_introduce (k := .enum) hM ht hstands (fun _ _ hid => moves_place hM hcalls le_rfl hid hid.lt)
      (fun _ _ _ => moves_enumMembers hM) (fun _ _ members hk _ => .finishEnum members le_rfl hk) hlo hhi

/-- The methods of a service, as a recovery reads them. -/
abbrev serviceBody (env : Setting ρ) (calls : Calls ρ) (classes : Classes ρ) (id : DeclId) : Recover ρ Service :=
  look (env.catalog.methods classes.implementation) >>= fun methods =>
    addMethods env calls classes id (methods.filter isCallable) {}

theorem moves_serviceBody {classes : Classes ρ} {id : DeclId} (hlo : lo ≤ s.schema.size) (hhi : hi ≤ s.schema.size) :
    Moves env.catalog M lo hi (serviceBody env calls classes id) s fun body s' =>
      Grounded env.catalog M s' (Body.service body).leaves :=
  moves_bind (Q := fun _ _ => True) (moves_look (asks_methods hM _) fun _ => trivial) fun _ _ hs₁ _ =>
    moves_addMethods hM hcalls (fun _ hx => by simp [Body.leaves, Body.types] at hx) (hlo.trans hs₁.size_le)
      (hhi.trans hs₁.size_le)

/-- What happens once the classes of a service are told. -/
theorem moves_introduceService (classes : Classes ρ) (hholder : M.holder classes.holder)
    (hstands : M.stands s.pool classes.holder) (hlo : lo ≤ s.schema.size) (hhi : hi ≤ s.schema.size) :
    Moves env.catalog M lo hi (introduce env classes.holder (.service {}) (startFile env.catalog classes.holder)
      (serviceBody env calls classes) finishService) s fun id s' => Noted env.catalog M s' .service classes.holder id :=
  moves_introduce (k := .service) hM hholder hstands (fun _ _ hid => moves_startFile classes.holder le_rfl hid)
    (fun _ _ hid => moves_serviceBody hM hcalls hid.le hid) (fun _ _ _ hk hbody => .finishService le_rfl hk hbody) hlo hhi

theorem moves_service (t : ρ) (hstands : M.stands s.pool t)
    (hholder : ∀ classes, s.answer (classify env.catalog t).run = .ok classes → M.holder classes.holder)
    (hlo : lo ≤ s.schema.size) (hhi : hi ≤ s.schema.size) :
    Moves env.catalog M lo hi (service env calls t) s fun id s' => ∃ classes,
      s.answer (classify env.catalog t).run = .ok classes ∧ Noted env.catalog M s' .service classes.holder id := by
  have hask := asks_classify hM t
  rw [service_eq]
  refine moves_bind (Q := fun classes s₁ => s.answer (classify env.catalog t).run = .ok classes ∧
      M.stands s₁.pool classes.holder) (moves_search hask fun classes hclasses h => ⟨hclasses, h classes rfl ?_⟩)
    fun classes s₁ hs₁ hclasses => ?_
  · exact hM.stays _ _ _ (hask s.pool).1 hstands
  · exact (moves_introduceService hM hcalls classes (hholder classes hclasses.1) hclasses.2 (hlo.trans hs₁.size_le)
      (hhi.trans hs₁.size_le)).imp fun _ _ _ h => ⟨classes, hclasses.1, h⟩

end Kinds

/-! ## Whole requests -/

/-- The class that a request is for, in the state it is made in, and what that is to be. -/
inductive Request.IsFor (c : Catalog ρ) (s : State ρ) : Request ρ → ρ → Kind → Prop
  | message (r : ρ) (options : Options) : IsFor c s (.message r options) (s.answer (c.resolve r)) .message
  | enum (r : ρ) (options : Options) : IsFor c s (.enum r options) (s.answer (c.resolve r)) .enum
  | service (r : ρ) (options : Options) {classes : Classes ρ} :
      (s.after (c.resolve r)).answer (classify c (s.answer (c.resolve r))).run = .ok classes →
      IsFor c s (.service r options) classes.holder .service

section Requests
variable [DecidableEq ρ] {c : Catalog ρ} {M : Manner ρ} {names : Option Dictionary} {holder : ρ → Prop} {s : State ρ}

theorem tracked_callsWithin (env : Setting ρ) (hM : Roams env.catalog M) (depth : Nat) :
    Tracked env.catalog M (callsWithin env depth) := by
  induction depth with
  | zero =>
    exact ⟨fun _ _ _ _ _ _ _ => moves_throw, fun _ _ _ _ _ _ _ => moves_throw, fun _ _ _ _ _ _ _ _ => moves_throw⟩
  | succ depth ih =>
    exact ⟨fun t _ _ _ => moves_message hM ih t, fun t _ _ _ => moves_enum hM ih t,
      fun _ _ _ _ _ => moves_fieldType hM ih⟩

theorem outcome_callsFor {env : Setting ρ} {t : ρ} (f : Calls ρ → Recover ρ α) (s : State ρ) :
    outcome (callsFor env t >>= f) s = outcome (f (callsWithin env (depthFor env.catalog s t))) s := by
  rw [outcome_bind]
  rfl

theorem moves_callsFor {env : Setting ρ} {t : ρ} {lo hi : Nat} {f : Calls ρ → Recover ρ α} {Q : α → State ρ → Prop}
    (h : Moves c M lo hi (f (callsWithin env (depthFor env.catalog s t))) s Q) :
    Moves c M lo hi (callsFor env t >>= f) s Q :=
  moves_of_outcome (outcome_callsFor f s) h.does h.result

omit [DecidableEq ρ] in
/-- A request looks its type up and then calls what it is for. -/
theorem outcome_lookUp {r : ρ} {f : ρ → Recover ρ DeclId} :
    outcome (do return some (← f (← look (c.resolve r)))) s =
      ((outcome (f (s.answer (c.resolve r))) (s.after (c.resolve r))).1.map some,
        (outcome (f (s.answer (c.resolve r))) (s.after (c.resolve r))).2) := by
  rw [outcome_bind, show outcome (look (c.resolve r)) s = _ from gives_look.2 ⟨rfl, rfl⟩]
  dsimp only
  rw [outcome_bind]
  rcases outcome (f (s.answer (c.resolve r))) (s.after (c.resolve r)) with ⟨e | id, s₁⟩ <;> rfl

/-- Every request comes down to effects, and what it gives is what the class it is for is noted with. -/
theorem moves_request (hM : Roams c M) (q : Request ρ) (hq : q.Holds c M.holder s) {lo hi : Nat}
    (hlo : lo ≤ s.schema.size) (hhi : hi ≤ s.schema.size) :
    Moves c M lo hi (q.run c names) s fun o s' => ∀ id ∈ o, ∃ t k, q.IsFor c s t k ∧ Noted c M s' k t id := by
  have hlookUp : ∀ (r : ρ) (f : ρ → Recover ρ DeclId),
      (M.stands (s.after (c.resolve r)).pool (s.answer (c.resolve r)) →
        Moves c M lo hi (f (s.answer (c.resolve r))) (s.after (c.resolve r)) fun id s' =>
          ∃ t k, q.IsFor c s t k ∧ Noted c M s' k t id) →
      Moves c M lo hi (do return some (← f (← look (c.resolve r)))) s fun o s' =>
        ∀ id ∈ o, ∃ t k, q.IsFor c s t k ∧ Noted c M s' k t id := by
    intro r f hf
    have hlook : Moves c M lo hi (look (c.resolve r)) s fun t s₁ =>
        t = s.answer (c.resolve r) ∧ s₁ = s.after (c.resolve r) := moves_look (asks_resolve hM r) fun _ => ⟨rfl, rfl⟩
    refine moves_bind hlook ?_
    rintro _ _ - ⟨rfl, rfl⟩
    refine moves_bind (hf (hM.found r s.pool)) fun id s₂ _ h => moves_pure ?_
    rintro _ ⟨⟩
    exact h
  cases q with
  | type r =>
    refine moves_bind (Q := fun _ _ => True) (moves_look (asks_resolve hM r) fun _ => trivial) fun _ _ _ _ => ?_
    refine moves_pure ?_
    rintro _ ⟨⟩
  | message r options =>
    refine hlookUp r (recoverMessage ⟨c, names, options⟩) fun hstands => ?_
    exact moves_callsFor (((tracked_callsWithin ⟨c, names, options⟩ hM _).message _ hstands hlo hhi).imp
      fun _ _ _ h => ⟨_, _, .message r options, h⟩)
  | enum r options =>
    refine hlookUp r (recoverEnum ⟨c, names, options⟩) fun hstands => ?_
    exact moves_callsFor (((tracked_callsWithin ⟨c, names, options⟩ hM _).enum _ hstands hlo hhi).imp
      fun _ _ _ h => ⟨_, _, .enum r options, h⟩)
  | service r options =>
    refine hlookUp r (recoverService ⟨c, names, options⟩) fun hstands => ?_
    exact moves_callsFor ((moves_service hM (tracked_callsWithin ⟨c, names, options⟩ hM _) _ hstands hq hlo hhi).imp
      fun _ _ _ ⟨_, hclasses, h⟩ => ⟨_, _, .service r options hclasses, h⟩)

/-- The states between requests, whether these end well or not. -/
inductive Visited (c : Catalog ρ) (names : Option Dictionary) : State ρ → Prop
  | start : Visited c names (start c)
  | step {s : State ρ} (q : Request ρ) : Visited c names s → Visited c names (outcome (q.run c names) s).2

/-- The same with a condition on the classes that services are named for. -/
inductive Attempted (c : Catalog ρ) (names : Option Dictionary) (holder : ρ → Prop) : State ρ → Prop
  | start : Attempted c names holder (start c)
  | step {s : State ρ} (q : Request ρ) : Attempted c names holder s → q.Holds c holder s →
      Attempted c names holder (outcome (q.run c names) s).2

omit [DecidableEq ρ] in
theorem holds_of_forall (h : ∀ t, holder t) (q : Request ρ) : q.Holds c holder s := by
  cases q <;> first | trivial | exact fun _ _ => h _

theorem Visited.attempted (h : Visited c names s) (hholder : ∀ t, holder t) : Attempted c names holder s := by
  induction h with
  | start => exact .start
  | step q _ ih => exact .step q ih (holds_of_forall hholder q)

theorem Reached.visited (h : Reached c names holder s) : Visited c names s := by
  induction h with
  | start => exact .start
  | @step s s' q _ _ _ hgives ih =>
    have houtcome : (outcome (q.run c names) s).2 = s' := congrArg Prod.snd hgives
    exact houtcome ▸ .step q ih

/-- What holds at the start and is kept by every effect holds whatever is asked. -/
theorem attempted_invariant (h : Attempted c names M.holder s) (hM : Roams c M) {P : State ρ → Prop}
    (hstart : P (start c)) (hkeep : ∀ s s', Effect c M 0 0 s s' → P s → P s') : P s := by
  induction h with
  | start => exact hstart
  | step q _ hq ih => exact (moves_request hM q hq (Nat.zero_le _) (Nat.zero_le _)).does.invariant ih hkeep

end Requests

/-! ## Messages -/

section Messages
variable {c : Catalog ρ} {M : Manner ρ} {lo hi : Nat} {s s' : State ρ} {x : DeclId} {F : Schema.Face}

/-- A face that a message may have. -/
def Presentable (F : Schema.Face) : Prop := ∀ m, F.body = .message m → m.WellFormed

theorem presentable_empty (name : String) (b : Bool) (k : Kind) : Presentable ⟨name, b, k.emptyBody⟩ := by
  cases k with
  | message =>
    rintro m ⟨⟩
    exact Schema.Message.wellFormed_empty
  | enum => rintro m ⟨⟩
  | service => rintro m ⟨⟩

/-- Changing one declaration gives it a presentable face, or none of its own. -/
theorem face_modifyDecl {S : Schema} {id : DeclId} {f : Schema.Declaration → Schema.Declaration}
    (hf : ∀ d, (f d).face = d.face ∨ Presentable (f d).face) (hF : (S.modifyDecl id f).faceOf? x = some F) :
    S.faceOf? x = some F ∨ Presentable F := by
  rw [Schema.faceOf?_modifyDecl] at hF
  split at hF
  · obtain ⟨d, hd, rfl⟩ := Option.map_eq_some_iff.1 hF
    refine (hf d).imp_left fun h => ?_
    rw [Schema.faceOf?, hd, h]
    rfl
  · exact .inl hF

/-- Every effect leaves a face as it is, or makes it presentable. -/
theorem Effect.face (h : Effect c M lo hi s s') (hF : s'.schema.faceOf? x = some F) :
    s.schema.faceOf? x = some F ∨ Presentable F := by
  cases h with
  | look => exact .inl hF
  | diagnose => exact .inl hF
  | declare name b =>
    rw [State.declared, Schema.faceOf?_declare] at hF
    split at hF
    · cases hF
      exact .inr (presentable_empty name b _)
    · exact .inl hF
  | nest => exact .inl (Schema.faceOf?_nest ▸ hF)
  | openFile => exact .inl (faceOf?_openFile ▸ hF)
  | linkFiles => exact .inl (faceOf?_linkFiles ▸ hF)
  | linkPath => exact .inl (faceOf?_linkPath ▸ hF)
  | finishMessage _ _ hm =>
    refine face_modifyDecl (fun d => ?_) hF
    split
    · refine .inr ?_
      rintro _ ⟨⟩
      exact hm.of_eq rfl rfl
    · exact .inl rfl
  | finishEnum members =>
    rw [State.changed, Schema.faceOf?, decls_finishEnum] at hF
    refine face_modifyDecl (fun d => ?_) hF
    unfold withMembers
    split
    · refine .inr ?_
      rintro _ ⟨⟩
    · exact .inl rfl
  | finishService =>
    refine face_modifyDecl (fun d => ?_) hF
    split
    · refine .inr ?_
      rintro _ ⟨⟩
    · exact .inl rfl

theorem presentable_of_visited [DecidableEq ρ] {names : Option Dictionary} (h : Visited c names s)
    (hF : s.schema.faceOf? x = some F) : Presentable F := by
  refine attempted_invariant (h.attempted fun _ => trivial) (roams_anyhow c)
    (P := fun s => ∀ x F, s.schema.faceOf? x = some F → Presentable F) ?_ ?_ x F hF
  · intro x F hF
    simp [start, Schema.faceOf?] at hF
  · intro s s' he hs x F hF
    exact (he.face hF).elim (hs x F) id

theorem wellFormed_of_face {d : Schema.Declaration} {m : Message} (hface : Presentable d.face)
    (hm : d.message? = some m) : m.WellFormed :=
  (hface { m with nested := [] } (Schema.body_face_of_message? hm)).of_eq rfl rfl

end Messages

/-- Whatever is asked of a catalog, and whether or not it ends well, every message that is there is well formed. -/
theorem messages_wellFormed [DecidableEq ρ] {c : Catalog ρ} {names : Option Dictionary} {s : State ρ}
    (h : Visited c names s) : ∀ d ∈ s.schema.decls, ∀ m, d.message? = some m → m.WellFormed := by
  intro d hd m hm
  obtain ⟨x, hx⟩ := List.mem_iff_getElem?.1 hd
  exact wellFormed_of_face (presentable_of_visited h (by rw [Schema.faceOf?, hx]; rfl)) hm

section Sample

open Managed (Assembly Definition Library TypeRef)
open Managed.Generated (literal)

/-- A class with a part whose choice lists a number twice and a number that no field has, and with a second number
that is too wide. -/
def orderAssembly : Assembly where
  name := "App"
  types :=
    let order : Managed.Generated.Message :=
      { name := "Order", namespaceName := some "App"
        items := [.field ⟨"Part", 1, .named "App.Part", false⟩, .field ⟨"Count", 2, .named "System.Int64", false⟩] }
    let part : Managed.Generated.Message :=
      { name := "Part", namespaceName := some "App"
        items := [.field ⟨"Code", 1, .named "System.Int32", true⟩, .field ⟨"Label", 2, .named "System.String", true⟩,
          .choice ⟨"Pick", [("Code", 1), ("Again", 1), ("Gone", 9)]⟩] }
    let numbers := [literal "PartFieldNumber" 1, { literal "CountFieldNumber" 2 with constant := some (.i8 2) }]
    { order.definition with fields := numbers } :: part.definitions

/-- The assembly loaded. -/
def orderLibrary : Library := .ofAssemblies [orderAssembly] []

/-- The class is asked for. -/
def orderOutcome : Except Error (Option DeclId) × State TypeRef :=
  outcome (Request.run orderLibrary.catalog none (.message (.named "App.Order") {})) (start orderLibrary.catalog)

/-- The request fails halfway, with the class unfinished and its part finished; both are well formed. -/
theorem messages_wellFormed_order :
    Visited orderLibrary.catalog none orderOutcome.2 ∧ orderOutcome.1.toOption = none ∧
      (orderOutcome.2.schema.decls.map fun d => d.message?.map fun m =>
        (m.fields.map fun f => (f.number, f.isOptional), m.choices.map (·.numbers))) =
        [some ([], []), some ([(1, false), (2, true)], [[1]])] ∧
      ∀ d ∈ orderOutcome.2.schema.decls, ∀ m, d.message? = some m → m.WellFormed := by
  have hvisited : Visited orderLibrary.catalog none orderOutcome.2 := .step _ .start
  exact ⟨hvisited, by decide +kernel, by decide +kernel, messages_wellFormed hvisited⟩

end Sample

end ProtoRecovery.Recovery
