import ProtoRecovery.Proofs.Recovery.Settle
import ProtoRecovery.Proofs.Recovery.Steps
import ProtoRecovery.Proofs.Recovery.View
import ProtoRecovery.Proofs.Schema.Outline
/-!
# Recoveries as derivations

`Done` says what a recovery does to the schema and to the memo, rule by rule: no depth, no pool, no
diagnostics. Every step that ends well has a derivation, so whatever is shown by induction on derivations
holds of every recovery.
-/

namespace ProtoRecovery.Recovery

open Schema (DeclId FieldType Kind Body Message Service EnumMember)

variable {ρ : Type} {c : Catalog ρ}

/-- What a recovery builds: the schema, and where each class is declared in it. -/
structure Ledger where
  schema : Schema := {}
  memo : List (String × DeclId) := []

namespace Ledger

/-- The ledger with a changed schema. -/
def changed (L : Ledger) (f : Schema → Schema) : Ledger := { L with schema := f L.schema }

/-- The ledger with one more declaration, noted for a class. -/
def declared (L : Ledger) (fullName name : String) (isDeprecated : Bool) (k : Kind) : Ledger where
  schema := L.schema.declare name isDeprecated k.emptyBody
  memo := L.memo ++ [(fullName, L.schema.size)]

end Ledger

/-- The ledger in a state. -/
def State.ledger (s : State ρ) : Ledger := ⟨s.schema, s.memo⟩

/-- What a derivation is about. -/
inductive Goal (ρ : Type) where
  /-- A class has a declaration. -/
  | recover (k : Kind) (t : ρ) (id : DeclId)
  /-- The declaration of a class is where it belongs. -/
  | place (k : Kind) (t : ρ) (id : DeclId)
  /-- Types that a declaration mentions are there, and imported. -/
  | mention (source : DeclId) (leaves : List FieldType)

/-- A class can be recovered as a declaration of a kind. -/
structure View.Fits (v : View c) (k : Kind) (t : ρ) : Prop where
  stands : v.stands t
  shape : match k with
    | .message => c.isMessage t = true
    | .enum => c.isEnum t = true
    | .service => v.holder t

/-- The body of a declaration is filled in, once the types that it mentions are known. -/
inductive Finish (id : DeclId) : Kind → List FieldType → Schema → Schema → Prop
  | message {leaves : List FieldType} {S : Schema} (m : Message)
      (h : ∀ leaf, leaf ∈ (Body.message m).leaves ↔ leaf ∈ leaves) :
      Finish id .message leaves S (finishMessage S id m)
  | enum {S : Schema} (members : List EnumMember) : Finish id .enum [] S (finishEnum S id members)
  | service {leaves : List FieldType} {S : Schema} (body : Service)
      (h : ∀ leaf, leaf ∈ (Body.service body).leaves ↔ leaf ∈ leaves) :
      Finish id .service leaves S (finishService S id body)

/-- How goals are reached, and what that does to the ledger. -/
inductive Done (v : View c) : Goal ρ → Ledger → Ledger → Prop
  | known {k : Kind} {t : ρ} {id : DeclId} {L : Ledger} (fits : v.Fits k t)
      (found : L.memo.lookup (c.fullName t) = some id) : Done v (.recover k t id) L L
  | made {k : Kind} {t : ρ} {name : String} {isDeprecated : Bool} {leaves : List FieldType}
      {L L₁ L₂ : Ledger} {S : Schema} (fits : v.Fits k t) (new : L.memo.lookup (c.fullName t) = none)
      (place : Done v (.place k t L.schema.size) (L.declared (c.fullName t) name isDeprecated k) L₁)
      (mention : Done v (.mention L.schema.size leaves) L₁ L₂)
      (finish : Finish L.schema.size k leaves L₂.schema S) :
      Done v (.recover k t L.schema.size) L ⟨S, L₂.memo⟩
  | nested {k : Kind} {t owner : ρ} {id parent : DeclId} {L L₁ : Ledger} (kind : k ≠ .service)
      (owned : v.owner t (some owner)) (around : Done v (.recover .message owner parent) L L₁) :
      Done v (.place k t id) L (L₁.changed (·.nest parent id))
  | filed {k : Kind} {t : ρ} {id : DeclId} {L : Ledger} (free : k ≠ .service → v.owner t none) :
      Done v (.place k t id) L (L.changed (openFile c t id))
  | nothing {source : DeclId} {L : Ledger} : Done v (.mention source []) L L
  | scalar {source : DeclId} {k : Schema.Scalar} {L : Ledger} : Done v (.mention source [.scalar k]) L L
  | wellKnown {source : DeclId} {w : Schema.WellKnown} {L : Ledger} :
      Done v (.mention source [.wellKnown w]) L (L.changed (linkPath source w.file))
  | reference {source target : DeclId} {k : Kind} {t : ρ} {L L₁ : Ledger}
      (there : Done v (.recover k t target) L L₁) :
      Done v (.mention source [.reference target]) L (L₁.changed (linkFiles source target))
  | append {source : DeclId} {first second : List FieldType} {L L₁ L₂ : Ledger}
      (before : Done v (.mention source first) L L₁) (after : Done v (.mention source second) L₁ L₂) :
      Done v (.mention source (first ++ second)) L L₂

/-! ## Steps have derivations -/

/-- Whatever ends well in a state that the view sees began in one, and has a derivation. -/
structure Faithful (v : View c) (calls : Calls ρ) : Prop where
  message : ∀ {t s id s'}, Gives (calls.message t) s id s' → v.sees s'.pool →
    v.sees s.pool ∧ (v.stands t → Done v (.recover .message t id) s.ledger s'.ledger)
  enum : ∀ {t s id s'}, Gives (calls.enum t) s id s' → v.sees s'.pool →
    v.sees s.pool ∧ (v.stands t → Done v (.recover .enum t id) s.ledger s'.ledger)
  fieldType : ∀ {source t s type s'}, Gives (calls.fieldType source t) s type s' → v.sees s'.pool →
    v.sees s.pool ∧ (v.stands t → Done v (.mention source type.leaves) s.ledger s'.ledger)

section Faithful
variable {v : View c} {names : Option Identifier.Dictionary} {options : Options} {calls : Calls ρ}
  {s s' : State ρ} {t : ρ} {id source : DeclId}

theorem place_faithful (hc : Faithful v calls) {u : Unit} {k : Kind} (hk : k ≠ .service)
    (h : Gives (place ⟨c, names, options⟩ calls t id) s u s') (hs : v.sees s'.pool) :
    v.sees s.pool ∧ (v.stands t → Done v (.place k t id) s.ledger s'.ledger) := by
  rcases gives_place.1 h with ⟨owner, parent, s₁, ho, hm, rfl⟩ | ⟨ho, rfl⟩
  · obtain ⟨hs₁, hd⟩ := hc.message hm hs
    obtain ⟨hs₀, hown⟩ := finds_owner t s.pool hs₁
    refine ⟨hs₀, fun ht => ?_⟩
    have howner := v.owner_of t s.pool ht hs₁
    rw [show ((owner? c t).run s.pool).1 = some owner from ho] at howner hown
    exact .nested hk howner (hd (hown owner rfl))
  · obtain ⟨hs₀, -⟩ := finds_owner t s.pool hs
    refine ⟨hs₀, fun ht => .filed fun _ => ?_⟩
    have howner := v.owner_of t s.pool ht hs
    rwa [show ((owner? c t).run s.pool).1 = none from ho] at howner

theorem singleType_faithful (hc : Faithful v calls) {type : FieldType}
    (h : Gives (singleType ⟨c, names, options⟩ calls source t) s type s') (hs : v.sees s'.pool) :
    v.sees s.pool ∧ (v.stands t → Done v (.mention source type.leaves) s.ledger s'.ledger) := by
  have h := gives_singleType.1 h
  split at h
  · obtain ⟨rfl, rfl⟩ := h
    exact ⟨hs, fun _ => .scalar⟩
  · obtain ⟨rfl, rfl⟩ := h
    exact ⟨hs, fun _ => .wellKnown⟩
  · split at h
    · split at h
      · obtain ⟨rfl, rfl⟩ := h
        exact ⟨hs, fun _ => .scalar⟩
      · obtain ⟨target, s₁, hm, rfl, rfl⟩ := h
        obtain ⟨hs₀, hd⟩ := hc.enum hm hs
        exact ⟨hs₀, fun ht => .reference (hd ht)⟩
    · obtain ⟨target, s₁, hm, rfl, rfl⟩ := h
      obtain ⟨hs₀, hd⟩ := hc.message hm hs
      exact ⟨hs₀, fun ht => .reference (hd ht)⟩

theorem fieldType_faithful (hc : Faithful v calls) {type : FieldType}
    (h : Gives (fieldType ⟨c, names, options⟩ calls source t) s type s') (hs : v.sees s'.pool) :
    v.sees s.pool ∧ (v.stands t → Done v (.mention source type.leaves) s.ledger s'.ledger) := by
  have h := gives_fieldType.1 h
  have ha := finds_resolveAll (v := v) (c.arguments t) s.pool
  split at h
  · obtain ⟨rfl, rfl⟩ := h
    exact ⟨(ha hs).1, fun _ => .wellKnown⟩
  · rename_i element _ he
    obtain ⟨e, hx, rfl⟩ := h
    obtain ⟨hs₁, hd⟩ := hc.fieldType hx hs
    obtain ⟨hs₀, harg⟩ := ha hs₁
    refine ⟨hs₀, fun _ => hd (harg element ?_)⟩
    rw [show ((c.resolveAll (c.arguments t)).run s.pool).1 = [element] from he]
    simp
  · rename_i key value _ he
    obtain ⟨k, s₁, x, hk, hv, rfl⟩ := h
    obtain ⟨hs₁, hdv⟩ := hc.fieldType hv hs
    obtain ⟨hs₂, hdk⟩ := hc.fieldType hk hs₁
    obtain ⟨hs₀, harg⟩ := ha hs₂
    rw [show ((c.resolveAll (c.arguments t)).run s.pool).1 = [key, value] from he] at harg
    exact ⟨hs₀, fun _ => .append (hdk (harg key (by simp))) (hdv (harg value (by simp)))⟩
  · obtain ⟨hs₁, hd⟩ := singleType_faithful hc h hs
    exact ⟨(ha hs₁).1, hd⟩

/-! ## Bodies -/

theorem mem_leaves_message {leaf : FieldType} {m : Message} :
    leaf ∈ (Body.message m).leaves ↔ ∃ f ∈ m.fields, leaf ∈ f.type.leaves := by
  simp [Body.leaves, Body.types]

theorem mem_leaves_insert {leaf : FieldType} {m : Message} {f : Schema.Field}
    (h : ¬(m.field? f.number).isSome = true) :
    leaf ∈ (Body.message (m.insert f)).leaves ↔
      leaf ∈ (Body.message m).leaves ∨ leaf ∈ f.type.leaves := by
  have hperm := Message.insertAscending_perm fun hmem => h (Message.field?_isSome.2 hmem)
  simp only [mem_leaves_message, Message.insert, hperm.mem_iff, List.mem_cons]
  constructor
  · rintro ⟨g, rfl | hg, hl⟩
    · exact .inr hl
    · exact .inl ⟨g, hg, hl⟩
  · rintro (⟨g, hg, hl⟩ | hl)
    · exact ⟨g, .inr hg, hl⟩
    · exact ⟨f, .inl rfl, hl⟩

theorem mem_leaves_settle {leaf : FieldType} {m : Message} :
    leaf ∈ (Body.message (settle m).1).leaves ↔ leaf ∈ (Body.message m).leaves := by
  simp only [mem_leaves_message, settle, List.mem_map, exists_exists_and_eq_and]
  refine exists_congr fun f => and_congr_right fun _ => ?_
  split <;> rfl

/-- On the way from one state to another a declaration mentions some types, and these are what is new among its
leaves. -/
def Mentions (v : View c) (id : DeclId) (s s' : State ρ) (old new : List FieldType) : Prop :=
  v.sees s'.pool → v.sees s.pool ∧ ∃ leaves, Done v (.mention id leaves) s.ledger s'.ledger ∧
    ∀ leaf, leaf ∈ new ↔ leaf ∈ old ∨ leaf ∈ leaves

section Mentions
variable {s₁ : State ρ} {old mid new : List FieldType}

theorem mentions_nothing (hs : v.sees s'.pool → v.sees s.pool) (hledger : s'.ledger = s.ledger) :
    Mentions v id s s' old old :=
  fun h => ⟨hs h, [], hledger ▸ .nothing, by simp⟩

/-- A question changes no ledger, and is seen if what follows it is. -/
theorem mentions_search {α : Type} {q : Catalog.Search ρ α} {P : α → Prop} (hq : v.Seeks q P) :
    Mentions v id s (s.after q.run) old old :=
  mentions_nothing (fun hs => (hq s.pool hs).1) rfl

/-- From the end backwards: the first step is seen because the second one is. -/
theorem Mentions.trans (h : Mentions v id s s₁ old mid) (h' : Mentions v id s₁ s' mid new) :
    Mentions v id s s' old new := by
  intro hs
  obtain ⟨hs₁, leaves', hd', hnew⟩ := h' hs
  obtain ⟨hs₀, leaves, hd, hmid⟩ := h hs₁
  refine ⟨hs₀, leaves ++ leaves', .append hd hd', fun leaf => ?_⟩
  rw [hnew, hmid, List.mem_append, or_assoc]

end Mentions

theorem addTold_faithful (hc : Faithful v calls) {p : Catalog.Property ρ} {told : Told ρ} {w w' : InProgress ρ}
    (htold : v.sees s.pool → told.Of ⟨c, names, options⟩ p v.stands)
    (h : Gives (addTold ⟨c, names, options⟩ calls t id p w told) s w' s') :
    Mentions v id s s' (Body.message w.message).leaves (Body.message w'.message).leaves := by
  have h := gives_addTold.1 h
  cases told with
  | nothing | choice | unnumbered =>
    obtain ⟨rfl, rfl⟩ := h
    exact mentions_nothing (fun hs => hs) rfl
  | field type attributes number isOptional =>
    dsimp only at h
    split at h
    · obtain ⟨rfl, rfl⟩ := h
      exact mentions_nothing (fun hs => hs) rfl
    · rename_i hnew
      obtain ⟨found, hfound, rfl⟩ := h
      intro hs
      obtain ⟨hs₀, hfield⟩ := hc.fieldType hfound hs
      cases htold hs₀ with
      | field htype => exact ⟨hs₀, _, hfield htype, fun leaf => mem_leaves_insert hnew⟩

theorem addProperty_faithful [DecidableEq ρ] (hc : Faithful v calls) {p : Catalog.Property ρ}
    {rest : List (Catalog.Property ρ)} {w w' : InProgress ρ}
    (h : Gives (addProperty ⟨c, names, options⟩ calls t id p rest w) s w' s') :
    Mentions v id s s' (Body.message w.message).leaves (Body.message w'.message).leaves := by
  have h := gives_addProperty.1 h
  split at h
  · obtain ⟨rfl, rfl⟩ := h
    exact mentions_nothing (fun hs => hs) rfl
  · obtain ⟨told, s₁, htold, h⟩ := h
    obtain ⟨hanswer, rfl⟩ := gives_search.1 htold
    have hseeks : v.Seeks (tellProperty ⟨c, names, options⟩ t w.numbers p rest) _ := seeks_tellProperty p t w.numbers rest
    refine (mentions_search hseeks).trans (addTold_faithful hc (fun hs => ?_) h)
    exact ((hseeks s.pool hs).2 told hanswer).mono fun _ => View.Takes.stands

theorem addProperties_faithful [DecidableEq ρ] (hc : Faithful v calls) {properties : List (Catalog.Property ρ)}
    {w w' : InProgress ρ} (h : Gives (addProperties ⟨c, names, options⟩ calls t id properties w) s w' s') :
    Mentions v id s s' (Body.message w.message).leaves (Body.message w'.message).leaves :=
  gives_stepThrough (J := fun _ w s w' s' => Mentions v id s s' (Body.message w.message).leaves
    (Body.message w'.message).leaves) (fun _ _ => mentions_nothing (fun hs => hs) rfl)
    (fun hstep hrest => (addProperty_faithful hc hstep).trans hrest) h

theorem messageBody_faithful [DecidableEq ρ] (hc : Faithful v calls) {m : Message}
    (h : Gives (messageBody ⟨c, names, options⟩ calls t id) s m s') (hs : v.sees s'.pool) :
    v.sees s.pool ∧ ∃ leaves, Done v (.mention id leaves) s.ledger s'.ledger ∧
      ∀ leaf, leaf ∈ (Body.message m).leaves ↔ leaf ∈ leaves := by
  obtain ⟨raw, s₁, hraw, rfl, rfl⟩ := gives_messageBody.1 h
  obtain ⟨hs₁, leaves, hd, hleaves⟩ := addProperties_faithful hc hraw hs
  refine ⟨v.properties t s.pool hs₁, leaves, hd, fun leaf => ?_⟩
  rw [mem_leaves_settle, hleaves]
  simp [mem_leaves_message]

theorem enumMembers_faithful {fields : List (Catalog.Field ρ)} {enumName : String} {members : List EnumMember}
    (h : Gives (enumMembers ⟨c, names, options⟩ t enumName fields) s members s') :
    (v.sees s'.pool → v.sees s.pool) ∧ s'.ledger = s.ledger := by
  induction fields generalizing s members with
  | nil =>
    obtain ⟨-, rfl⟩ := gives_pure.1 h
    exact ⟨fun hs => hs, rfl⟩
  | cons f rest ih =>
    simp only [enumMembers, gives_bind, gives_pure] at h
    obtain ⟨m, s₁, hm, ms, s₂, hms, -, rfl⟩ := h
    obtain ⟨hback, hledger⟩ := ih hms
    rw [enumMember_eq] at hm
    split at hm
    · exact absurd hm gives_throw
    · obtain ⟨attributes, -, hm⟩ := gives_search_bind.1 hm
      obtain ⟨-, rfl⟩ := gives_pure.1 hm
      exact ⟨fun hs => (seeks_readAttributes f.attributes s.pool (hback hs)).1, hledger⟩

theorem enum_faithful (hc : Faithful v calls) (h : Gives (enum ⟨c, names, options⟩ calls t) s id s')
    (hs : v.sees s'.pool) :
    v.sees s.pool ∧ (v.stands t → Done v (.recover .enum t id) s.ledger s'.ledger) := by
  obtain ⟨hk, ⟨hf, rfl⟩ | ⟨hf, rfl, attributes, s₁, members, s₂, -, hp, hm, rfl⟩⟩ := gives_enum.1 h
  · exact ⟨hs, fun ht => .known ⟨ht, hk⟩ hf⟩
  · obtain ⟨hback, hledger⟩ := enumMembers_faithful (v := v) hm
    obtain ⟨hs₀, hplace⟩ := place_faithful hc (k := .enum) (by decide) hp (hback hs)
    have hmention : Done v (.mention s.schema.size []) s₁.ledger s₂.ledger := hledger ▸ .nothing
    refine ⟨(seeks_readAttributes (c.attributes t) s.pool hs₀).1, fun ht => ?_⟩
    exact .made (L := s.ledger) ⟨ht, hk⟩ hf (hplace ht) hmention (.enum members)

theorem message_faithful [DecidableEq ρ] (hc : Faithful v calls)
    (h : Gives (message ⟨c, names, options⟩ calls t) s id s') (hs : v.sees s'.pool) :
    v.sees s.pool ∧ (v.stands t → Done v (.recover .message t id) s.ledger s'.ledger) := by
  obtain ⟨hk, ⟨hf, rfl⟩ | ⟨hf, rfl, attributes, s₁, m, s₂, -, hp, hm, rfl⟩⟩ := gives_message.1 h
  · exact ⟨hs, fun ht => .known ⟨ht, hk⟩ hf⟩
  · obtain ⟨hs₁, leaves, hd, hleaves⟩ := messageBody_faithful hc hm hs
    obtain ⟨hs₀, hplace⟩ := place_faithful hc (k := .message) (by decide) hp hs₁
    refine ⟨(seeks_readAttributes (c.attributes t) s.pool hs₀).1, fun ht => ?_⟩
    exact .made (L := s.ledger) ⟨ht, hk⟩ hf (hplace ht) hd (.message m hleaves)

/-- The induction on the depth of calls: at depth zero nothing ends well. -/
theorem callsWithin_faithful [DecidableEq ρ] (v : View c) (names : Option Identifier.Dictionary)
    (options : Options) (depth : Nat) : Faithful v (callsWithin ⟨c, names, options⟩ depth) := by
  induction depth with
  | zero => exact ⟨fun h => absurd h gives_throw, fun h => absurd h gives_throw, fun h => absurd h gives_throw⟩
  | succ depth ih => exact ⟨message_faithful ih, enum_faithful ih, fieldType_faithful ih⟩

/-! ## Services -/

theorem mem_leaves_append {leaf : FieldType} {body : Service} {m : Schema.Method} :
    leaf ∈ (Body.service ⟨body.methods ++ [m]⟩).leaves ↔
      leaf ∈ (Body.service body).leaves ∨ leaf ∈ m.request.leaves ++ m.response.leaves := by
  simp [Body.leaves, Body.types]

theorem addShaped_faithful (hc : Faithful v calls) {m : Catalog.Method ρ} {body body' : Service}
    {o : Option (List (Catalog.Attribute ρ) × Shape ρ)} (hshape : v.sees s.pool → ∀ x ∈ o, v.Standing x.2)
    (h : Gives (addShaped ⟨c, names, options⟩ calls id m body o) s body' s') :
    Mentions v id s s' (Body.service body).leaves (Body.service body').leaves := by
  have h := gives_addShaped.1 h
  cases o with
  | none =>
    obtain ⟨rfl, rfl⟩ := h
    exact mentions_nothing (fun hs => hs) rfl
  | some x =>
    dsimp only at h
    split at h
    · obtain ⟨rfl, rfl⟩ := h
      exact mentions_nothing (fun hs => hs) rfl
    · obtain ⟨request, s₁, response, hr, hq, rfl⟩ := h
      intro hs
      obtain ⟨hs₁, hresponse⟩ := hc.fieldType hq hs
      obtain ⟨hs₀, hrequest⟩ := hc.fieldType hr hs₁
      obtain ⟨hreq, hres⟩ := hshape hs₀ x rfl
      exact ⟨hs₀, _, .append (hrequest hreq) (hresponse hres), fun leaf => mem_leaves_append⟩

theorem addMethod_faithful (hc : Faithful v calls) {classes : Classes ρ} {m : Catalog.Method ρ} {body body' : Service}
    (h : Gives (addMethod ⟨c, names, options⟩ calls classes id m body) s body' s') :
    Mentions v id s s' (Body.service body).leaves (Body.service body').leaves := by
  obtain ⟨o, s₁, ho, h⟩ := gives_addMethod.1 h
  obtain ⟨hanswer, rfl⟩ := gives_search.1 ho
  have hseeks : v.Seeks (tellMethod ⟨c, names, options⟩ classes m) _ := seeks_tellMethod classes m
  refine (mentions_search hseeks).trans (addShaped_faithful hc (fun hs x hx => ?_) h)
  exact (hseeks s.pool hs).2 o hanswer x hx

theorem addMethods_faithful (hc : Faithful v calls) {classes : Classes ρ} {methods : List (Catalog.Method ρ)}
    {body body' : Service} (h : Gives (addMethods ⟨c, names, options⟩ calls classes id methods body) s body' s') :
    Mentions v id s s' (Body.service body).leaves (Body.service body').leaves :=
  gives_stepThrough (J := fun _ body s body' s' => Mentions v id s s' (Body.service body).leaves
    (Body.service body').leaves) (fun _ _ => mentions_nothing (fun hs => hs) rfl)
    (fun hstep hrest => (addMethod_faithful hc hstep).trans hrest) h

theorem service_faithful (hc : Faithful v calls) (h : Gives (service ⟨c, names, options⟩ calls t) s id s')
    (hs : v.sees s'.pool) :
    v.sees s.pool ∧ ∃ classes, s.answer (classify c t).run = .ok classes ∧
      (v.stands t → v.holder classes.holder →
        Done v (.recover .service classes.holder id) s.ledger s'.ledger) := by
  obtain ⟨classes, hclasses, h⟩ := gives_service.1 h
  have hclassify := seeks_classify (v := v) t s.pool
  rcases h with ⟨hf, rfl⟩ | ⟨hf, rfl, attributes, s₁, body, s₂, -, rfl, hm, rfl⟩
  · obtain ⟨hs₀, hholder⟩ := hclassify hs
    exact ⟨hs₀, classes, hclasses, fun ht hp => .known ⟨hholder _ hclasses ht, hp⟩ hf⟩
  · obtain ⟨hs₁, leaves, hd, hleaves⟩ := addMethods_faithful hc hm hs
    have hs₁ := (seeks_readAttributes _ _ (v.methods _ _ hs₁)).1
    obtain ⟨hs₀, hholder⟩ := hclassify hs₁
    refine ⟨hs₀, classes, hclasses, fun ht hp => ?_⟩
    refine .made (L := s.ledger) ⟨hholder _ hclasses ht, hp⟩ hf (.filed fun hk => absurd rfl hk) hd
      (.service body fun leaf => ?_)
    rw [hleaves leaf]
    simp [Body.leaves, Body.types]

end Faithful

end ProtoRecovery.Recovery
