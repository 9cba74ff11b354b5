import ProtoRecovery.Proofs.Recovery.Kin
import ProtoRecovery.Proofs.Recovery.Registry
import ProtoRecovery.Proofs.Schema.Sweep
/-!
# Recoveries end

Calls may go as deep as they need, and files are given to all below a declaration. Services add nothing to how deep
messages and enums go. And since a class is declared before it is put in its place, a file is only ever given where
nothing leads back.
-/

namespace ProtoRecovery.Recovery

open Relation (ReflTransGen)
open Schema (DeclId FileId SweepsOnce)
open Catalog (Look Search Pool)
open Identifier (Dictionary)

variable {ρ α β : Type}

/-! ## Services side by side -/

/-- What there is to know of a method, all of it seen. -/
structure Kin.SeesMethod {c : Catalog ρ} (v : Kin c) (m : Catalog.Method ρ) : Prop where
  returnType : v.seen m.returnType
  parameters : ∀ r ∈ m.parameters, v.seen r
  attributes : Readable v.seen m.attributes

/-- Pools that answer alike about services too. -/
structure Kin.Serves {c : Catalog ρ} (v : Kin c) : Prop where
  nested : ∀ t, ∀ r ∈ c.nested t, v.seen r
  methods : ∀ t, Agree v.near (c.methods t) (∀ m ∈ ·, v.SeesMethod m)

section Questions
variable {c : Catalog ρ} (v : Kin c) {t : ρ} {m : Catalog.Method ρ}

theorem agree_resolveSeen {rs : List ρ} (h : ∀ r ∈ rs, v.seen r) :
    Agree v.near (c.resolveAll rs) (∀ x ∈ ·, v.seen x) := by
  induction rs with
  | nil => exact agree_pure (by simp)
  | cons r rest ih =>
    refine agree_bind (v.resolve r (h r (by simp))) fun x hx => ?_
    refine agree_bind (ih fun y hy => h y (by simp [hy])) fun xs hxs => agree_pure ?_
    exact List.forall_mem_cons.2 ⟨hx, hxs⟩

theorem agree_onlyArgument? (ht : v.seen t) : Agree v.near (onlyArgument? c t) (∀ x ∈ ·, v.seen x) := by
  unfold onlyArgument?
  refine agree_bind (v.arguments t ht) fun arguments harguments => ?_
  split
  · exact agree_pure (by simpa using (harguments _ (by simp)).1)
  · exact agree_pure (by simp)

theorem settles_classify (hv : v.Serves) (t : ρ) : Settles v.near (classify c t) fun _ => True := by
  unfold classify
  split
  · refine settles_bind (settles_lift (agree_resolveSeen v (hv.nested t))) fun nested _ => ?_
    split
    · exact settles_pure trivial
    · split
      · exact settles_pure trivial
      · exact settles_throw nofun
  · refine settles_bind (settles_lift (agree_declaringOf? v t)) fun o _ => ?_
    cases o with
    | some holder => exact settles_pure trivial
    | none => exact settles_throw nofun

theorem settles_requestParameter (hm : v.SeesMethod m) : Settles v.near (requestParameter c t m) v.seen := by
  unfold requestParameter
  refine settles_bind (settles_lift (agree_resolveSeen v hm.parameters)) fun parameters hparameters => ?_
  cases parameters with
  | nil => exact settles_throw nofun
  | cons first _ => exact settles_pure (hparameters first (by simp))

/-- A shape is made of types that are seen. -/
def Kin.SeesShape (shape : Shape ρ) : Prop := v.seen shape.request ∧ v.seen shape.response

theorem settles_clientShape? (hm : v.SeesMethod m) :
    Settles v.near (clientShape? c t m) (∀ shape ∈ ·, v.SeesShape shape) := by
  unfold clientShape?
  refine settles_bind (settles_lift (v.resolve m.returnType hm.returnType)) fun returned hreturned => ?_
  split
  · exact settles_pure (by simp)
  · refine settles_bind (settles_lift (v.arguments returned hreturned)) fun arguments harguments => ?_
    split
    · refine settles_pure ?_
      rintro _ ⟨⟩
      exact ⟨(harguments _ (by simp)).1, (harguments _ (by simp)).1⟩
    · refine settles_bind (settles_requestParameter v hm) fun request hrequest => settles_pure ?_
      rintro _ ⟨⟩
      exact ⟨hrequest, (harguments _ (by simp)).1⟩
    · refine settles_bind (settles_requestParameter v hm) fun request hrequest => settles_pure ?_
      rintro _ ⟨⟩
      exact ⟨hrequest, hreturned⟩
    · exact settles_throw nofun

theorem settles_serverShape (hm : v.SeesMethod m) : Settles v.near (serverShape c t m) v.SeesShape := by
  unfold serverShape
  refine settles_bind (settles_lift (agree_resolveSeen v hm.parameters)) fun parameters hparameters => ?_
  cases parameters with
  | nil => exact settles_throw nofun
  | cons first others =>
    have hfirst := hparameters first (by simp)
    refine settles_bind (settles_lift (agree_onlyArgument? v hfirst)) fun element helement => ?_
    have hrequest : v.seen (element.getD first) := by
      cases element with
      | none => exact hfirst
      | some x => exact helement x rfl
    refine settles_bind (settles_lift (v.resolve m.returnType hm.returnType)) fun returned hreturned => ?_
    refine settles_bind (settles_lift (agree_onlyArgument? v hreturned)) fun o ho => ?_
    cases o with
    | some response => exact settles_pure ⟨hrequest, ho response rfl⟩
    | none =>
      cases others with
      | nil => exact settles_throw nofun
      | cons writer _ =>
        refine settles_bind (settles_lift (agree_onlyArgument? v (hparameters writer (by simp)))) fun o ho => ?_
        cases o with
        | none => exact settles_throw nofun
        | some response => exact settles_pure ⟨hrequest, ho response rfl⟩

theorem settles_shape? (isClient : Bool) (hm : v.SeesMethod m) :
    Settles v.near (shape? c isClient t m) (∀ shape ∈ ·, v.SeesShape shape) := by
  unfold shape?
  split
  · exact settles_clientShape? v hm
  · refine settles_bind (settles_serverShape v hm) fun shape hshape => settles_pure ?_
    rintro _ ⟨⟩
    exact hshape

theorem settles_tellMethod {env : Setting ρ} (v : Kin env.catalog) (classes : Classes ρ) (hm : v.SeesMethod m) :
    Settles v.near (tellMethod env classes m) (∀ x ∈ ·, v.SeesShape x.2) := by
  rw [tellMethod_eq]
  refine settles_bind (settles_readAttributes v hm.attributes) fun attributes _ => ?_
  split
  · refine settles_bind (settles_shape? v classes.isClient hm) fun o ho => settles_pure fun x hx => ?_
    obtain ⟨shape, hshape, rfl⟩ := Option.mem_map.1 hx
    exact ho shape hshape
  · exact settles_pure (by simp)

end Questions

section Calls
variable {env : Setting ρ} {v : Kin env.catalog} {depth : Nat} {calls calls' : Calls ρ} (hc : v.Deep depth calls calls')
  {s s' : State ρ} {classes : Classes ρ} {id : DeclId}
include hc

theorem paired_addShaped {m : Catalog.Method ρ} {body : Schema.Service}
    {o : Option (List (Catalog.Attribute ρ) × Shape ρ)} (ho : ∀ x ∈ o, v.SeesShape x.2) (h : v.Same s s')
    (hd : v.need s + (v.keys.card + 1) ≤ depth) :
    v.Paired (addShaped env calls id m body o) (addShaped env calls' id m body o) s s' := by
  cases o with
  | none => exact paired_pure h
  | some x =>
    obtain ⟨hrequest, hresponse⟩ := ho x rfl
    unfold addShaped
    dsimp only
    split
    · exact paired_pure h
    · have hrank := v.rank_le x.2.request
      refine paired_bind (hc.fieldType hrequest h (by omega)) fun request s₁ s₁' hs₁ hm₁ => ?_
      have hneed := need_le v hm₁
      have hrank := v.rank_le x.2.response
      exact paired_bind (hc.fieldType hresponse hs₁ (by omega)) fun response _ _ hs₂ _ => paired_pure hs₂

/-- A request and a response need no more than a field does. -/
theorem paired_addMethods {ms : List (Catalog.Method ρ)} {body : Schema.Service} (hms : ∀ m ∈ ms, v.SeesMethod m)
    (h : v.Same s s') (hd : v.need s + (v.keys.card + 1) ≤ depth) :
    v.Paired (addMethods env calls classes id ms body) (addMethods env calls' classes id ms body) s s' := by
  refine paired_stepThrough hms (fun {m rest body s₁ s₁'} hms hs₁ hm₁ => ?_) h
  refine paired_search hs₁ (settles_tellMethod v classes (hms m (by simp))) fun o s₂ s₂' ho hs₂ hm₂ => ?_
  exact paired_addShaped hc ho hs₂ ((Nat.add_le_add_right (need_le v (hm₂ ▸ hm₁)) _).trans hd)

variable (env) in
theorem paired_service (hv : v.Serves) {t : ρ} (h : v.Same s s') (hd : v.need s + (v.keys.card + 1) ≤ depth) :
    v.Paired (service env calls t) (service env calls' t) s s' := by
  rw [service_eq, service_eq]
  refine paired_search h (settles_classify v hv t) fun classes s₁ s₁' _ hs₁ hm₁ => ?_
  refine paired_introduce env hs₁ (fun id s₂ s₂' hs₂ _ _ => paired_change hs₂) fun id s₂ s₂' hs₂ _ hm₂ => ?_
  refine paired_look hs₂ (hv.methods classes.implementation) fun ms s₃ s₃' hms hs₃ hm₃ => ?_
  have hmemo : s.memo <+: s₃.memo := hm₃ ▸ hm₁ ▸ (List.prefix_append ..).trans hm₂
  refine paired_addMethods hc (fun m hm => hms m (List.mem_of_mem_filter hm)) hs₃ ?_
  exact (Nat.add_le_add_right (need_le v hmemo) _).trans hd

end Calls

/-! ## Depth that is enough -/

/-- A recovery ends: it does not stop for want of depth, and it makes no difference how far beyond a depth its calls
may go. -/
structure Ends [DecidableEq ρ] (env : Setting ρ) (m : Recover ρ α) (f : Calls ρ → Recover ρ α) (depth : Nat)
    (s : State ρ) : Prop where
  bounded : ∀ name, (outcome m s).1 ≠ .error (.endlessType name)
  deeper : ∀ d ≥ depth, outcome (f (callsWithin env d)) s = outcome m s

/-! ## Files that are given -/

/-- The file that is opened for a declaration, and holds it, before the declaration knows. -/
def listed (c : Catalog ρ) (t : ρ) (id : DeclId) (schema : Schema) : Schema :=
  let file : Schema.File := { assembly := some (c.assembly t), namespaceName := c.namespaceName? t }
  (schema.addFile file).modifyFile schema.files.length fun f => { f with tops := f.tops ++ [id] }

/-- How files are given from one state to the next: none at all, or to all from one declaration on, and nothing is
visited twice for it. -/
inductive GivesFiles (c : Catalog ρ) (s : State ρ) : State ρ → Prop
  | nothing {s' : State ρ} (same : ∀ x, s'.schema.fileOf? x = s.schema.fileOf? x) : GivesFiles c s s'
  | nest {parent id : DeclId} {file : FileId} (around : s.schema.fileOf? parent = some file)
      (sweep : SweepsOnce file (s.schema.hang parent id) id (s.schema.nest parent id)) :
      GivesFiles c s (s.changed (·.nest parent id))
  | openFile (t : ρ) {id : DeclId}
      (sweep : SweepsOnce s.schema.files.length (listed c t id s.schema) id (openFile c t id s.schema)) :
      GivesFiles c s (s.changed (openFile c t id))

/-- An effect, with the way it gives files. -/
def Swept (c : Catalog ρ) (s s' : State ρ) : Prop := Effect c .anyhow 0 0 s s' ∧ GivesFiles c s s'

section Swept
variable {c : Catalog ρ} {M : Manner ρ} {s s' : State ρ}

theorem givesFiles_nest (h : Filed s) {parent id : DeclId} (hid : s.schema.Loose id)
    (hp : parent < s.schema.size) : GivesFiles c s (s.changed (·.nest parent id)) := by
  cases hfile : s.schema.fileOf? parent with
  | none =>
    refine .nothing fun x => ?_
    show (s.schema.nest parent id).fileOf? x = _
    rw [Schema.nest_of_no_file hfile, Schema.fileOf?_hang]
  | some file =>
    refine .nest hfile ?_
    have hroot : ∀ q, (s.schema.hang parent id).parentOf? id = some q → (s.schema.hang parent id).fileOf? q ≠ none := by
      intro q hq
      rw [Schema.parentOf?_hang hid.lt, if_pos rfl] at hq
      cases hq
      simp [Schema.fileOf?_hang, hfile]
    rw [Schema.nest_of_file hfile, ← Schema.assignFile_eq]
    refine Schema.sweepsOnce_of_waits (Schema.linked_hang h.linked hid hp) (fun q => ?_) hroot ?_ ?_ file
    · have honce : ((s.schema.nest parent id).nestedIn q).Nodup := (filed_nest h hid hp).once q
      rwa [Schema.nest_of_file hfile, Schema.nestedIn_assignAll] at honce
    · rw [Schema.size_hang]
      exact hid.lt
    · rw [Schema.fileOf?_hang]
      exact hid.file

theorem givesFiles_of_turn (h : Filed s) (hturn : Turn c M s s') : GivesFiles c s s' := by
  cases hturn with
  | still _ hplaces => exact .nothing hplaces.file
  | declare name b _ _ _ => exact .nothing fun x => Schema.fileOf?_declare ..
  | nest hloose haround => exact givesFiles_nest h hloose (h.lt haround.found)
  | @openFile t id halone =>
    have hnested : (listed c t id s.schema).nestedIn id = [] := halone.nested
    have hlt : id < (listed c t id s.schema).size := halone.lt
    exact .openFile t (Schema.sweepsOnce_of_nestedIn_eq_nil hnested hlt _)

theorem swept_of_does (h : Filed s) (hdoes : Does c .anyhow 0 0 s s') :
    Filed s' ∧ ReflTransGen (Swept c) s s' := by
  induction hdoes with
  | refl => exact ⟨h, .refl⟩
  | tail _ he ih => exact ⟨filed_of_turn ih.1 he.turn, ih.2.tail ⟨he, givesFiles_of_turn ih.1 he.turn⟩⟩

theorem swept_request [DecidableEq ρ] {names : Option Dictionary} (h : Visited c names s) (q : Request ρ) :
    ReflTransGen (Swept c) s (outcome (q.run c names) s).2 :=
  (swept_of_does (closed_of_visited h).toFiled
    (moves_request (roams_anyhow c) q (holds_of_forall (fun _ => trivial) q) (Nat.zero_le _) (Nat.zero_le _)).does).2

end Swept

end ProtoRecovery.Recovery
