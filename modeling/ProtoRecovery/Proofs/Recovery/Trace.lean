import ProtoRecovery.Proofs.Recovery.Bodies
import ProtoRecovery.Proofs.Recovery.Effects
import ProtoRecovery.Proofs.Recovery.Pools
import ProtoRecovery.Proofs.Recovery.Session
import ProtoRecovery.Proofs.Schema.Kept
/-!
# What a recovery does, whether or not it ends well

Every step comes down to a few effects on the state, and a failure only means that no more of them follow. `Effect lo hi`
lists them: declarations are put in places only from `lo` on, and get bodies only from `hi` on. What holds of every
effect then holds of all requests.
-/

namespace ProtoRecovery.Recovery

open Relation (ReflTransGen)
open Schema (DeclId FieldType Kind Body Message Service EnumMember Above Kept Solitary)
open Catalog (Look Search Pool)

variable {ρ α β : Type}

/-! ## Questions -/

/-- What is kept in mind while a catalog is asked: how pools change, which types stand for good in a pool, and which
classes services may be named for. -/
structure Manner (ρ : Type) where
  goes : Pool ρ → Pool ρ → Prop
  stands : Pool ρ → ρ → Prop
  holder : ρ → Prop

/-- Pools only grow; nothing else matters. -/
abbrev Manner.growing : Manner ρ := ⟨Extends, fun _ _ => True, fun _ => True⟩

/-- Nothing matters. -/
abbrev Manner.anyhow : Manner ρ := ⟨fun _ _ => True, fun _ _ => True, fun _ => True⟩

/-- A catalog is asked in that manner. -/
structure Roams (c : Catalog ρ) (M : Manner ρ) : Prop where
  refl : ∀ p, M.goes p p
  trans : ∀ p q r, M.goes p q → M.goes q r → M.goes p r
  resolve : ∀ r p, M.goes p ((c.resolve r).run p).2
  methods : ∀ t p, M.goes p ((c.methods t).run p).2
  properties : ∀ t p, M.goes p ((c.properties t).run p).2
  found : ∀ r p, M.stands ((c.resolve r).run p).2 ((c.resolve r).run p).1
  stays : ∀ p q t, M.goes p q → M.stands p t → M.stands q t

theorem roams_anyhow (c : Catalog ρ) : Roams c .anyhow := by constructor <;> intros <;> trivial

/-- A question changes pools only so, and of the types that stand afterwards its answer satisfies a condition. -/
def Asks (M : Manner ρ) (q : Look ρ α) (P : (ρ → Prop) → α → Prop) : Prop :=
  ∀ p, M.goes p (q.run p).2 ∧ P (M.stands (q.run p).2) (q.run p).1

section Asks
variable {c : Catalog ρ} {M : Manner ρ} (hM : Roams c M)

/-- Types as they stand in a pool. -/
def Roams.viewAt (pool : Pool ρ) : View c where
  sees p := M.goes p pool
  stands := M.stands pool
  owner _ _ := True
  holder := M.holder
  resolve r p h := ⟨hM.trans _ _ _ (hM.resolve r p) h, hM.stays _ _ _ h (hM.found r p)⟩
  methods t p h := hM.trans _ _ _ (hM.methods t p) h
  properties t p h := hM.trans _ _ _ (hM.properties t p) h
  owner_of _ _ _ _ := trivial

include hM

theorem asks_of_finds {q : Look ρ α} {P : (ρ → Prop) → α → Prop} (h : ∀ v : View c, v.Finds q (P v.stands)) :
    Asks M q P :=
  fun p => h (hM.viewAt (q.run p).2) p (hM.refl _)

theorem asks_resolve (r : ρ) : Asks M (c.resolve r) fun stands t => stands t := fun p => ⟨hM.resolve r p, hM.found r p⟩

theorem asks_argumentsOf (t : ρ) : Asks M (c.argumentsOf t) fun stands ts => ∀ t ∈ ts, stands t :=
  asks_of_finds hM fun _ => finds_resolveAll _

theorem asks_readAttributes (a : Catalog.Attributes ρ) : Asks M (c.readAttributes a).run fun _ _ => True :=
  asks_of_finds hM fun _ pool hs => ⟨(seeks_readAttributes a pool hs).1, trivial⟩

theorem asks_owner? (t : ρ) : Asks M (owner? c t) fun stands o => ∀ owner ∈ o, stands owner :=
  asks_of_finds hM fun _ => finds_owner t

theorem asks_tellProperty [DecidableEq ρ] {names : Option Identifier.Dictionary} {options : Options} (t : ρ)
    (numbers : List (Catalog.Field ρ)) (p : Catalog.Property ρ) (rest : List (Catalog.Property ρ)) :
    Asks M (tellProperty ⟨c, names, options⟩ t numbers p rest).run fun stands r =>
      ∀ told, r = .ok told → told.Of ⟨c, names, options⟩ p stands :=
  asks_of_finds hM fun _ => (seeks_tellProperty p t numbers rest).mono fun _ h told htold =>
    (h told htold).mono fun _ => View.Takes.stands

theorem asks_classify (t : ρ) : Asks M (classify c t).run fun stands r =>
    ∀ classes, r = .ok classes → stands t → stands classes.holder :=
  asks_of_finds hM fun _ => seeks_classify t

theorem asks_tellMethod {names : Option Identifier.Dictionary} {options : Options} (classes : Classes ρ)
    (m : Catalog.Method ρ) :
    Asks M (tellMethod ⟨c, names, options⟩ classes m).run fun stands r =>
      ∀ o, r = .ok o → ∀ x ∈ o, stands x.2.request ∧ stands x.2.response :=
  asks_of_finds hM fun _ => seeks_tellMethod classes m

theorem asks_methods (t : ρ) : Asks M (c.methods t) fun _ _ => True := fun p => ⟨hM.methods t p, trivial⟩

theorem asks_properties (t : ρ) : Asks M (c.properties t) fun _ _ => True := fun p => ⟨hM.properties t p, trivial⟩

end Asks

theorem isMessage_owner? {c : Catalog ρ} {t owner : ρ} {p : Pool ρ} (h : ((owner? c t).run p).1 = some owner) :
    c.isMessage owner = true :=
  (Option.filter_eq_some_iff.1 h).2

/-! ## Classes that are noted -/

/-- A class that a declaration of a kind may be for, given which classes services may be named for. -/
def Suits (c : Catalog ρ) (holder : ρ → Prop) : Kind → ρ → Prop
  | .message, t => c.isMessage t = true
  | .enum, t => c.isEnum t = true
  | .service, t => holder t

/-- A class is noted with its declaration. -/
structure Noted (c : Catalog ρ) (M : Manner ρ) (s : State ρ) (k : Kind) (t : ρ) (id : DeclId) : Prop where
  suits : Suits c M.holder k t
  stands : M.stands s.pool t
  found : s.find? (c.fullName t) = some id

/-- A declaration that fields may refer to. -/
def Referable (c : Catalog ρ) (M : Manner ρ) (s : State ρ) (id : DeclId) : Prop :=
  ∃ t, Noted c M s .message t id ∨ Noted c M s .enum t id

/-- All that is referred to in types may be. -/
def Grounded (c : Catalog ρ) (M : Manner ρ) (s : State ρ) (leaves : List FieldType) : Prop :=
  ∀ x, .reference x ∈ leaves → Referable c M s x

/-! ## Effects -/

/-- One thing that a step may do to the state. -/
inductive Effect (c : Catalog ρ) (M : Manner ρ) (lo hi : Nat) : State ρ → State ρ → Prop
  | look {s : State ρ} {pool : Pool ρ} : M.goes s.pool pool → Effect c M lo hi s { s with pool }
  | diagnose {s : State ρ} (type member : String) (x : Anomaly) : Effect c M lo hi s (s.diagnosed type member x)
  | declare {s : State ρ} {t : ρ} {k : Kind} (name : String) (isDeprecated : Bool) :
      Suits c M.holder k t → M.stands s.pool t → s.find? (c.fullName t) = none →
      Effect c M lo hi s (s.declared (c.fullName t) name isDeprecated k.emptyBody)
  | nest {s : State ρ} {owner : ρ} {parent id : DeclId} :
      lo ≤ id → s.schema.Loose id → Noted c M s .message owner parent →
      Effect c M lo hi s (s.changed (·.nest parent id))
  | openFile {s : State ρ} (t : ρ) {id : DeclId} :
      lo ≤ id → Solitary s.schema id → Effect c M lo hi s (s.changed (openFile c t id))
  | linkFiles {s : State ρ} (source target : DeclId) : Effect c M lo hi s (s.changed (linkFiles source target))
  | linkPath {s : State ρ} (source : DeclId) (path : String) : Effect c M lo hi s (s.changed (linkPath source path))
  | finishMessage {s : State ρ} {id : DeclId} {m : Message} :
      hi ≤ id → kindOf? s.schema id = some .message → m.WellFormed → Grounded c M s (Body.message m).leaves →
      Effect c M lo hi s (s.changed (finishMessage · id m))
  | finishEnum {s : State ρ} {id : DeclId} (members : List EnumMember) :
      hi ≤ id → kindOf? s.schema id = some .enum → Effect c M lo hi s (s.changed (finishEnum · id members))
  | finishService {s : State ρ} {id : DeclId} {body : Service} :
      hi ≤ id → kindOf? s.schema id = some .service → Grounded c M s (Body.service body).leaves →
      Effect c M lo hi s (s.changed (finishService · id body))

/-- Effects one after the other. -/
def Does (c : Catalog ρ) (M : Manner ρ) (lo hi : Nat) : State ρ → State ρ → Prop :=
  ReflTransGen (Effect c M lo hi)

section Does
variable {c : Catalog ρ} {M : Manner ρ} {lo hi lo' hi' : Nat} {s s' : State ρ}

theorem Effect.mono (hlo : lo' ≤ lo) (hhi : hi' ≤ hi) (h : Effect c M lo hi s s') : Effect c M lo' hi' s s' := by
  cases h with
  | look h => exact .look h
  | diagnose type member x => exact .diagnose type member x
  | declare name b hsuits hstands hnew => exact .declare name b hsuits hstands hnew
  | nest h hloose howner => exact .nest (hlo.trans h) hloose howner
  | openFile t h hid => exact .openFile t (hlo.trans h) hid
  | linkFiles source target => exact .linkFiles source target
  | linkPath source path => exact .linkPath source path
  | finishMessage h hk hm hg => exact .finishMessage (hhi.trans h) hk hm hg
  | finishEnum members h hk => exact .finishEnum members (hhi.trans h) hk
  | finishService h hk hg => exact .finishService (hhi.trans h) hk hg

theorem Does.mono (hlo : lo' ≤ lo) (hhi : hi' ≤ hi) (h : Does c M lo hi s s') : Does c M lo' hi' s s' :=
  ReflTransGen.mono (fun _ _ => Effect.mono hlo hhi) s s' h

theorem Does.invariant {P : State ρ → Prop} (h : Does c M lo hi s s') (hs : P s)
    (hkeep : ∀ s s', Effect c M lo hi s s' → P s → P s') : P s' := by
  induction h with
  | refl => exact hs
  | tail _ he ih => exact hkeep _ _ he ih

/-! ### Sizes -/

theorem size_finishMessage (S : Schema) (id : DeclId) (m : Message) : (finishMessage S id m).size = S.size :=
  Schema.size_modifyDecl ..

theorem size_finishService (S : Schema) (id : DeclId) (b : Service) : (finishService S id b).size = S.size :=
  Schema.size_modifyDecl ..

/-- Apart from the edition of a file, an enum gets its members and nothing else happens. -/
theorem decls_finishEnum (S : Schema) (id : DeclId) (members : List EnumMember) :
    (finishEnum S id members).decls = (S.modifyDecl id (withMembers members)).decls := by
  rw [finishEnum_eq]
  split <;> rfl

theorem size_finishEnum (S : Schema) (id : DeclId) (members : List EnumMember) :
    (finishEnum S id members).size = S.size := by
  rw [Schema.size, decls_finishEnum]
  exact Schema.size_modifyDecl ..

theorem Effect.size_le (h : Effect c M lo hi s s') : s.schema.size ≤ s'.schema.size := by
  cases h with
  | look => exact le_rfl
  | diagnose => exact le_rfl
  | declare => exact (Nat.le_succ _).trans_eq (Schema.size_declare ..).symm
  | nest => exact Schema.size_nest.ge
  | openFile => exact Schema.size_attach_addFile.ge
  | linkFiles => exact onlyImports_linkFiles.size.ge
  | linkPath => exact onlyImports_linkPath.size.ge
  | finishMessage => exact (size_finishMessage ..).ge
  | finishEnum => exact (size_finishEnum ..).ge
  | finishService => exact (size_finishService ..).ge

theorem Does.size_le (h : Does c M lo hi s s') : s.schema.size ≤ s'.schema.size := by
  induction h with
  | refl => exact le_rfl
  | tail _ h ih => exact ih.trans h.size_le

/-! ### What effects leave alone -/

theorem kept_linkPath {S : Schema} {source : DeclId} {path : String} : Kept lo hi S (linkPath source path S) := by
  unfold linkPath
  split
  · exact Schema.kept_addImport _
  · exact .refl S

theorem kept_linkFiles {S : Schema} {source target : DeclId} : Kept lo hi S (linkFiles source target S) := by
  unfold linkFiles
  split
  · split
    · exact .refl S
    · exact Schema.kept_addImport _
  · exact .refl S

theorem faceOf?_openFile {S : Schema} {t : ρ} {id x : DeclId} : (openFile c t id S).faceOf? x = S.faceOf? x :=
  Schema.faceOf?_attach_addFile

theorem faceOf?_linkPath {S : Schema} {source x : DeclId} {path : String} :
    (linkPath source path S).faceOf? x = S.faceOf? x := by
  rw [Schema.faceOf?, Schema.faceOf?, onlyImports_linkPath.decls]

theorem faceOf?_linkFiles {S : Schema} {source target x : DeclId} :
    (linkFiles source target S).faceOf? x = S.faceOf? x := by
  rw [Schema.faceOf?, Schema.faceOf?, onlyImports_linkFiles.decls]

/-- A body filled in is a change of the face only. -/
theorem kept_fill {S : Schema} {id : DeclId} {f : Schema.Declaration → Schema.Declaration} (hid : hi ≤ id)
    (hf : ∀ d, (f d).file = d.file ∧ (f d).parent = d.parent ∧ (f d).nested = d.nested) :
    Kept lo hi S (S.modifyDecl id f) :=
  Schema.kept_modifyDecl fun d =>
    ⟨fun h => absurd h (not_lt.2 hid), fun _ => (hf d).1, fun _ => (hf d).2.1, by rw [(hf d).2.2]⟩

theorem fill_message (m : Message) (d : Schema.Declaration) :
    let f : Schema.Declaration := match d.body with
      | .message old => { d with body := .message { m with nested := old.nested } }
      | _ => d
    f.file = d.file ∧ f.parent = d.parent ∧ f.nested = d.nested := by
  dsimp only
  split
  · rename_i old hb
    exact ⟨rfl, rfl, by simp [Schema.Declaration.nested, Schema.Declaration.message?, hb]⟩
  · exact ⟨rfl, rfl, rfl⟩

theorem fill_enum (members : List EnumMember) (d : Schema.Declaration) :
    (withMembers members d).file = d.file ∧ (withMembers members d).parent = d.parent ∧
      (withMembers members d).nested = d.nested := by
  unfold withMembers
  split
  · rename_i old hb
    exact ⟨rfl, rfl, by simp [Schema.Declaration.nested, Schema.Declaration.message?, hb]⟩
  · exact ⟨rfl, rfl, rfl⟩

theorem fill_service (body : Service) (d : Schema.Declaration) :
    let f : Schema.Declaration := match d.body with
      | .service _ => { d with body := .service body }
      | _ => d
    f.file = d.file ∧ f.parent = d.parent ∧ f.nested = d.nested := by
  dsimp only
  split
  · rename_i old hb
    exact ⟨rfl, rfl, by simp [Schema.Declaration.nested, Schema.Declaration.message?, hb]⟩
  · exact ⟨rfl, rfl, rfl⟩

theorem kept_finishEnum {S : Schema} {id : DeclId} (members : List EnumMember) (hid : hi ≤ id) :
    Kept lo hi S (finishEnum S id members) := by
  have hfill : Kept lo hi S (S.modifyDecl id (withMembers members)) := kept_fill hid (fill_enum members)
  unfold finishEnum
  dsimp only
  split
  · exact hfill.trans Schema.kept_requireEdition
  · exact hfill

/-- Every effect keeps the places of what is before `lo` and the faces of what is before `hi`. -/
theorem Effect.kept (h : Effect c M lo hi s s') (ha : Above lo s.schema) :
    Above lo s'.schema ∧ Kept lo hi s.schema s'.schema := by
  cases h with
  | look => exact ⟨ha, .refl _⟩
  | diagnose => exact ⟨ha, .refl _⟩
  | @declare _ k name b =>
    exact ⟨ha.of_nestedIn fun p => Schema.nestedIn_declare s.schema p name b k, Schema.kept_declare ..⟩
  | nest hid => exact ⟨Schema.above_nest ha hid, Schema.kept_nest ha hid⟩
  | openFile t hid =>
    exact ⟨ha.of_nestedIn fun _ => Schema.nestedIn_attach_addFile, Schema.kept_attach_addFile ha hid⟩
  | linkFiles => exact ⟨ha.of_nestedIn onlyImports_linkFiles.nestedIn, kept_linkFiles⟩
  | linkPath => exact ⟨ha.of_nestedIn onlyImports_linkPath.nestedIn, kept_linkPath⟩
  | finishMessage hid =>
    refine ⟨ha.of_nestedIn fun p => ?_, kept_fill hid (fill_message _)⟩
    exact Schema.nestedIn_modifyDecl_same _ _ p _ fun d => (fill_message _ d).2.2
  | finishEnum members hid =>
    refine ⟨ha.of_nestedIn fun p => ?_, kept_finishEnum members hid⟩
    rw [State.changed, Schema.nestedIn, decls_finishEnum]
    exact Schema.nestedIn_modifyDecl_same _ _ p _ fun d => (fill_enum members d).2.2
  | finishService hid =>
    refine ⟨ha.of_nestedIn fun p => ?_, kept_fill hid (fill_service _)⟩
    exact Schema.nestedIn_modifyDecl_same _ _ p _ fun d => (fill_service _ d).2.2

theorem Effect.memo (h : Effect c M lo hi s s') : s.memo <+: s'.memo := by
  cases h with
  | declare => exact List.prefix_append ..
  | _ => exact List.prefix_rfl

theorem Effect.diagnostics (h : Effect c M lo hi s s') : s.diagnostics <+: s'.diagnostics := by
  cases h with
  | diagnose => exact List.prefix_append ..
  | _ => exact List.prefix_rfl

theorem Effect.pool (hM : Roams c M) (h : Effect c M lo hi s s') : M.goes s.pool s'.pool := by
  cases h with
  | look h => exact h
  | _ => exact hM.refl _

/-- What is still there after effects from `lo` and `hi` on. -/
structure Onward (M : Manner ρ) (lo hi : Nat) (s s' : State ρ) : Prop where
  above : Above lo s'.schema
  kept : Kept lo hi s.schema s'.schema
  memo : s.memo <+: s'.memo
  diagnostics : s.diagnostics <+: s'.diagnostics
  pool : M.goes s.pool s'.pool

theorem Does.onward (hM : Roams c M) (h : Does c M lo hi s s') (ha : Above lo s.schema) : Onward M lo hi s s' := by
  induction h with
  | refl => exact ⟨ha, .refl _, List.prefix_rfl, List.prefix_rfl, hM.refl _⟩
  | tail _ he ih =>
    obtain ⟨habove, hkept⟩ := he.kept ih.above
    exact ⟨habove, ih.kept.trans hkept, ih.memo.trans he.memo, ih.diagnostics.trans he.diagnostics,
      hM.trans _ _ _ ih.pool (he.pool hM)⟩

theorem lookup_of_prefix {memo memo' : List (String × DeclId)} {n : String} {id : DeclId} (h : memo <+: memo')
    (hn : memo.lookup n = some id) : memo'.lookup n = some id := by
  obtain ⟨more, rfl⟩ := h
  rw [List.lookup_append, hn, Option.some_or]

/-! ### Classes stay noted -/

section Stay
variable (hM : Roams c M)
include hM

theorem Effect.stands (h : Effect c M lo hi s s') {t : ρ} (ht : M.stands s.pool t) : M.stands s'.pool t :=
  hM.stays _ _ _ (h.pool hM) ht

theorem Effect.noted (h : Effect c M lo hi s s') {k : Kind} {t : ρ} {id : DeclId} (hn : Noted c M s k t id) :
    Noted c M s' k t id :=
  ⟨hn.suits, h.stands hM hn.stands, lookup_of_prefix h.memo hn.found⟩

theorem Effect.referable (h : Effect c M lo hi s s') {id : DeclId} (hr : Referable c M s id) : Referable c M s' id := by
  obtain ⟨t, ht⟩ := hr
  exact ⟨t, ht.imp (h.noted hM) (h.noted hM)⟩

theorem Does.stands (h : Does c M lo hi s s') {t : ρ} (ht : M.stands s.pool t) : M.stands s'.pool t :=
  h.invariant ht fun _ _ he => he.stands hM

theorem Does.noted (h : Does c M lo hi s s') {k : Kind} {t : ρ} {id : DeclId} (hn : Noted c M s k t id) :
    Noted c M s' k t id :=
  h.invariant hn fun _ _ he => he.noted hM

theorem Does.grounded (h : Does c M lo hi s s') {leaves : List FieldType} (hg : Grounded c M s leaves) :
    Grounded c M s' leaves :=
  fun x hx => h.invariant (hg x hx) fun _ _ he => he.referable hM

end Stay

end Does

end ProtoRecovery.Recovery
