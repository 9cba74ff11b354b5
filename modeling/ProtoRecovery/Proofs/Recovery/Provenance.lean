import ProtoRecovery.Proofs.Recovery.Trace
/-!
# Where names and types come from

Every declaration is named for a class, and every field for a property, with the type that was found for its type. A step
only declares classes and fills in bodies, so this holds of whatever a session leaves.
-/

namespace ProtoRecovery

namespace Schema

/-- A condition holds of the faces of all declarations. -/
def Shows (P : Face → Prop) (s : Schema) : Prop := ∀ x F, s.faceOf? x = some F → P F

section Shows
variable {s s' : Schema} {P : Face → Prop}

theorem Shows.congr (h : s.Shows P) (hface : ∀ x, s'.faceOf? x = s.faceOf? x) : s'.Shows P :=
  fun x F hF => h x F (hface x ▸ hF)

theorem Shows.modifyDecl (h : s.Shows P) {id : DeclId} {f : Declaration → Declaration}
    (hf : ∀ d, P d.face → P (f d).face) : (s.modifyDecl id f).Shows P := by
  intro x F hF
  rw [faceOf?_modifyDecl] at hF
  split at hF
  · obtain ⟨d, hd, rfl⟩ := Option.map_eq_some_iff.1 hF
    exact hf d (h x d.face (by rw [faceOf?, hd]; rfl))
  · exact h x F hF

end Shows

end Schema

namespace Recovery

open Schema (DeclId FieldType Face Kind Message Service EnumMember Shows)
open Identifier (Dictionary)

variable {ρ : Type} {c : Catalog ρ}

/-- A property that a class has of itself. -/
def IsOwn (c : Catalog ρ) (p : Catalog.Property ρ) : Prop :=
  p.isInherited = false ∧ ∃ t pool, p ∈ ((c.properties t).run pool).1

/-- A field type is found for a type, while the view lasts. -/
def FoundFor [DecidableEq ρ] (v : View c) (names : Option Dictionary) (t : ρ) (type : FieldType) : Prop :=
  ∃ options depth source s s',
    Gives ((callsWithin ⟨c, names, options⟩ depth).fieldType source t) s type s' ∧ v.sees s'.pool

/-- A field is named for a property, and its type was found for that of the property. -/
def Derived [DecidableEq ρ] (v : View c) (names : Option Dictionary) (f : Schema.Field) : Prop :=
  ∃ p t, IsOwn c p ∧ f.name = Identifier.fieldName names p.name ∧ v.Takes p.type t ∧ FoundFor v names t f.type

/-- The name of a declaration is that of a class, and its fields are those of properties. -/
structure Sourced [DecidableEq ρ] (v : View c) (names : Option Dictionary) (F : Face) : Prop where
  name : ∃ t, F.name = Identifier.typeName names (c.name t)
  fields : ∀ m, F.body = .message m → ∀ f ∈ m.fields, Derived v names f

variable [DecidableEq ρ] {v : View c} {names : Option Dictionary} {options : Options} {S : Schema}

/-! ## Changes of the schema -/

theorem shows_declare (h : S.Shows (Sourced v names)) (t : ρ) (isDeprecated : Bool) (k : Kind) :
    (S.declare (Identifier.typeName names (c.name t)) isDeprecated k.emptyBody).Shows (Sourced v names) := by
  intro x F hF
  rw [Schema.faceOf?_declare] at hF
  split at hF
  · cases hF
    refine ⟨⟨t, rfl⟩, fun m hm => ?_⟩
    cases k <;> cases hm
    simp
  · exact h x F hF

theorem shows_finishMessage (h : S.Shows (Sourced v names)) (id : DeclId) {m : Message}
    (hm : ∀ f ∈ m.fields, Derived v names f) : (finishMessage S id m).Shows (Sourced v names) := by
  refine h.modifyDecl fun d hd => ?_
  split
  · refine ⟨hd.name, ?_⟩
    rintro _ ⟨⟩
    exact hm
  · exact hd

theorem shows_finishEnum (h : S.Shows (Sourced v names)) (id : DeclId) (members : List EnumMember) :
    (finishEnum S id members).Shows (Sourced v names) := by
  have hfilled : (S.modifyDecl id (withMembers members)).Shows (Sourced v names) := by
    refine h.modifyDecl fun d hd => ?_
    unfold withMembers
    split
    · exact ⟨hd.name, by rintro _ ⟨⟩⟩
    · exact hd
  exact hfilled.congr fun x => by rw [Schema.faceOf?, Schema.faceOf?, decls_finishEnum]

theorem shows_finishService (h : S.Shows (Sourced v names)) (id : DeclId) (body : Service) :
    (finishService S id body).Shows (Sourced v names) := by
  refine h.modifyDecl fun d hd => ?_
  split
  · exact ⟨hd.name, by rintro _ ⟨⟩⟩
  · exact hd

/-! ## Steps -/

/-- Calls that end well while the view lasts leave only what is named and typed so. -/
structure Sources (v : View c) (names : Option Dictionary) (calls : Calls ρ) : Prop where
  message : ∀ {t s id s'}, Gives (calls.message t) s id s' → v.sees s'.pool →
    s.schema.Shows (Sourced v names) → s'.schema.Shows (Sourced v names)
  enum : ∀ {t s id s'}, Gives (calls.enum t) s id s' → v.sees s'.pool →
    s.schema.Shows (Sourced v names) → s'.schema.Shows (Sourced v names)
  fieldType : ∀ {source t s type s'}, Gives (calls.fieldType source t) s type s' → v.sees s'.pool →
    s.schema.Shows (Sourced v names) → s'.schema.Shows (Sourced v names)

section Steps
variable {calls : Calls ρ} (hf : Faithful v calls) (hc : Sources v names calls) {s s' : State ρ} {t : ρ} {id source : DeclId}

include hc in
theorem place_sources {u : Unit} (h : Gives (place ⟨c, names, options⟩ calls t id) s u s') (hs : v.sees s'.pool)
    (hS : s.schema.Shows (Sourced v names)) : s'.schema.Shows (Sourced v names) := by
  rcases gives_place.1 h with ⟨owner, parent, s₁, -, hm, rfl⟩ | ⟨-, rfl⟩
  · exact (hc.message hm hs hS).congr fun _ => Schema.faceOf?_nest
  · exact hS.congr fun _ => faceOf?_openFile

include hc in
theorem singleType_sources {type : FieldType} (h : Gives (singleType ⟨c, names, options⟩ calls source t) s type s')
    (hs : v.sees s'.pool) (hS : s.schema.Shows (Sourced v names)) : s'.schema.Shows (Sourced v names) := by
  have h := gives_singleType.1 h
  split at h
  · obtain ⟨-, rfl⟩ := h
    exact hS
  · obtain ⟨-, rfl⟩ := h
    exact hS.congr fun _ => faceOf?_linkPath
  · split at h
    · split at h
      · obtain ⟨-, rfl⟩ := h
        exact hS
      · obtain ⟨target, s₁, hm, -, rfl⟩ := h
        exact (hc.enum hm hs hS).congr fun _ => faceOf?_linkFiles
    · obtain ⟨target, s₁, hm, -, rfl⟩ := h
      exact (hc.message hm hs hS).congr fun _ => faceOf?_linkFiles

include hf hc

theorem fieldType_sources {type : FieldType} (h : Gives (fieldType ⟨c, names, options⟩ calls source t) s type s')
    (hs : v.sees s'.pool) (hS : s.schema.Shows (Sourced v names)) : s'.schema.Shows (Sourced v names) := by
  have h := gives_fieldType.1 h
  split at h
  · obtain ⟨-, rfl⟩ := h
    exact hS.congr fun _ => faceOf?_linkPath
  · obtain ⟨e, hx, -⟩ := h
    exact hc.fieldType hx hs hS
  · obtain ⟨k, s₁, x, hk, hv, -⟩ := h
    exact hc.fieldType hv hs (hc.fieldType hk (hf.fieldType hv hs).1 hS)
  · exact singleType_sources hc h hs hS

theorem addTold_sources {depth : Nat} (hcalls : calls = callsWithin ⟨c, names, options⟩ depth) {p : Catalog.Property ρ}
    {told : Told ρ} {w w' : InProgress ρ} (h : Gives (addTold ⟨c, names, options⟩ calls t id p w told) s w' s')
    (hs : v.sees s'.pool) (htold : v.sees s.pool → told.Of ⟨c, names, options⟩ p (v.Takes p.type))
    (hp : IsOwn c p) (hw : ∀ f ∈ w.message.fields, Derived v names f) (hS : s.schema.Shows (Sourced v names)) :
    s'.schema.Shows (Sourced v names) ∧ ∀ f ∈ w'.message.fields, Derived v names f := by
  have h := gives_addTold.1 h
  cases told with
  | nothing | choice | unnumbered =>
    obtain ⟨rfl, rfl⟩ := h
    exact ⟨hS, hw⟩
  | field type attributes number isOptional =>
    dsimp only at h
    split at h
    · obtain ⟨rfl, rfl⟩ := h
      exact ⟨hS, hw⟩
    · obtain ⟨found, hfound, rfl⟩ := h
      obtain ⟨⟩ | ⟨⟩ | ⟨⟩ | htype := htold (hf.fieldType hfound hs).1
      have hfoundFor : FoundFor v names type found := ⟨options, depth, id, s, s', hcalls ▸ hfound, hs⟩
      refine ⟨hc.fieldType hfound hs hS, fun f hmem => ?_⟩
      rcases Message.mem_insertAscending hmem with rfl | hmem
      · exact ⟨p, type, hp, rfl, htype, hfoundFor⟩
      · exact hw f hmem

/-- Whatever properties are read, the fields they add are theirs. -/
theorem addProperties_sources {depth : Nat} (hcalls : calls = callsWithin ⟨c, names, options⟩ depth)
    {properties : List (Catalog.Property ρ)} {w w' : InProgress ρ}
    (h : Gives (addProperties ⟨c, names, options⟩ calls t id properties w) s w' s') (hs : v.sees s'.pool)
    (hown : ∀ p ∈ properties, IsOwn c p) (hw : ∀ f ∈ w.message.fields, Derived v names f)
    (hS : s.schema.Shows (Sourced v names)) :
    s'.schema.Shows (Sourced v names) ∧ ∀ f ∈ w'.message.fields, Derived v names f := by
  -- Whether the view lasts is known from the end, and what holds of the schema from the start.
  have hall := gives_stepThrough (J := fun properties w s w' s' => v.sees s'.pool → v.sees s.pool ∧
    ((∀ p ∈ properties, IsOwn c p) → (∀ f ∈ w.message.fields, Derived v names f) → s.schema.Shows (Sourced v names) →
      s'.schema.Shows (Sourced v names) ∧ ∀ f ∈ w'.message.fields, Derived v names f))
    (fun w s hs => ⟨hs, fun _ hw hS => ⟨hS, hw⟩⟩) ?_ h
  · exact (hall hs).2 hown hw hS
  · intro p rest w s w₁ s₁ w' s' hstep hrest hs
    obtain ⟨hs₁, hnext⟩ := hrest hs
    refine ⟨(addProperty_faithful hf hstep hs₁).1, fun hown hw hS => ?_⟩
    have hothers : ∀ p ∈ rest, IsOwn c p := fun q hq => hown q (List.mem_cons_of_mem _ hq)
    have hstep := gives_addProperty.1 hstep
    split at hstep
    · obtain ⟨rfl, rfl⟩ := hstep
      exact hnext hothers hw hS
    · obtain ⟨told, s₂, htold, hstep⟩ := hstep
      obtain ⟨hanswer, rfl⟩ := gives_search.1 htold
      obtain ⟨hS₁, hw₁⟩ := addTold_sources hf hc hcalls hstep hs₁ (fun hs₂ =>
        (seeks_tellProperty p t w.numbers rest s.pool hs₂).2 told hanswer) (hown p List.mem_cons_self) hw hS
      exact hnext hothers hw₁ hS₁

theorem messageBody_sources {depth : Nat} (hcalls : calls = callsWithin ⟨c, names, options⟩ depth) {m : Message}
    (h : Gives (messageBody ⟨c, names, options⟩ calls t id) s m s') (hs : v.sees s'.pool)
    (hS : s.schema.Shows (Sourced v names)) :
    s'.schema.Shows (Sourced v names) ∧ ∀ f ∈ m.fields, Derived v names f := by
  obtain ⟨raw, s₁, hraw, rfl, rfl⟩ := gives_messageBody.1 h
  have hown : ∀ p ∈ (s.answer (c.properties t)).filter fun p => !p.isInherited, IsOwn c p := fun p hp =>
    ⟨by simpa using (List.mem_filter.1 hp).2, t, s.pool, (List.mem_filter.1 hp).1⟩
  obtain ⟨hS₁, hfields⟩ := addProperties_sources hf hc hcalls hraw hs hown (by simp) hS
  refine ⟨hS₁, fun f hmem => ?_⟩
  -- Sorting out the choices leaves names and types alone.
  obtain ⟨g, hg, rfl⟩ := List.mem_map.1 hmem
  split
  · exact hfields g hg
  · exact hfields g hg

theorem message_sources {depth : Nat} (hcalls : calls = callsWithin ⟨c, names, options⟩ depth)
    (h : Gives (message ⟨c, names, options⟩ calls t) s id s') (hs : v.sees s'.pool)
    (hS : s.schema.Shows (Sourced v names)) : s'.schema.Shows (Sourced v names) := by
  obtain ⟨-, ⟨-, rfl⟩ | ⟨-, rfl, attributes, s₁, m, s₂, -, hp, hm, rfl⟩⟩ := gives_message.1 h
  · exact hS
  · have hs₁ := (messageBody_faithful hf hm hs).1
    have hS₁ := place_sources hc hp hs₁ (shows_declare hS t _ .message)
    obtain ⟨hS₂, hfields⟩ := messageBody_sources hf hc hcalls hm hs hS₁
    exact shows_finishMessage hS₂ _ hfields

omit hf in
theorem enum_sources (h : Gives (enum ⟨c, names, options⟩ calls t) s id s') (hs : v.sees s'.pool)
    (hS : s.schema.Shows (Sourced v names)) : s'.schema.Shows (Sourced v names) := by
  obtain ⟨-, ⟨-, rfl⟩ | ⟨-, rfl, attributes, s₁, members, s₂, -, hp, hm, rfl⟩⟩ := gives_enum.1 h
  · exact hS
  · obtain ⟨hback, hledger⟩ := enumMembers_faithful (v := v) hm
    have hS₁ := place_sources hc hp (hback hs) (shows_declare hS t _ .enum)
    refine shows_finishEnum ?_ _ members
    rwa [show s₂.schema = s₁.schema from congrArg Ledger.schema hledger]

theorem addMethods_sources {classes : Classes ρ} {methods : List (Catalog.Method ρ)} {body body' : Service}
    (h : Gives (addMethods ⟨c, names, options⟩ calls classes id methods body) s body' s') (hs : v.sees s'.pool)
    (hS : s.schema.Shows (Sourced v names)) : s'.schema.Shows (Sourced v names) := by
  have hall := stepThrough_trans (R := fun s s' => v.sees s'.pool → v.sees s.pool ∧
    (s.schema.Shows (Sourced v names) → s'.schema.Shows (Sourced v names))) (fun s hs => ⟨hs, fun hS => hS⟩) ?_ ?_ h
  · exact (hall hs).2 hS
  · intro s s₁ s' h h' hs
    obtain ⟨hs₁, hshows'⟩ := h' hs
    obtain ⟨hs₀, hshows⟩ := h hs₁
    exact ⟨hs₀, fun hS => hshows' (hshows hS)⟩
  · intro m rest body s body₁ s₁ hstep hs₁
    refine ⟨(addMethod_faithful hf hstep hs₁).1, fun hS => ?_⟩
    obtain ⟨o, s₂, ho, hstep⟩ := gives_addMethod.1 hstep
    obtain ⟨-, rfl⟩ := gives_search.1 ho
    have hstep := gives_addShaped.1 hstep
    cases o with
    | none =>
      obtain ⟨-, rfl⟩ := hstep
      exact hS
    | some x =>
      dsimp only at hstep
      split at hstep
      · obtain ⟨-, rfl⟩ := hstep
        exact hS
      · obtain ⟨request, s₃, response, hr, hq, -⟩ := hstep
        exact hc.fieldType hq hs₁ (hc.fieldType hr (hf.fieldType hq hs₁).1 hS)

theorem service_sources (h : Gives (service ⟨c, names, options⟩ calls t) s id s') (hs : v.sees s'.pool)
    (hS : s.schema.Shows (Sourced v names)) : s'.schema.Shows (Sourced v names) := by
  obtain ⟨classes, -, ⟨-, rfl⟩ | ⟨-, rfl, attributes, s₁, body, s₂, -, rfl, hm, rfl⟩⟩ := gives_service.1 h
  · exact hS
  · refine shows_finishService (addMethods_sources hf hc hm hs ?_) _ body
    exact (shows_declare hS classes.holder _ .service).congr fun _ => faceOf?_openFile

end Steps

/-! ## Sessions -/

theorem sources_callsWithin (v : View c) (names : Option Dictionary) (options : Options) (depth : Nat) :
    Sources v names (callsWithin ⟨c, names, options⟩ depth) := by
  induction depth with
  | zero => exact ⟨fun h => absurd h gives_throw, fun h => absurd h gives_throw, fun h => absurd h gives_throw⟩
  | succ depth ih =>
    have hf := callsWithin_faithful v names options depth
    exact ⟨message_sources hf ih rfl, enum_sources ih, fieldType_sources hf ih⟩

/-- Whatever a session leaves is named for classes, with fields that are those of properties. -/
theorem sourced_of_reached {s : State ρ} (h : Reached c names v.holder s) (hs : v.sees s.pool) :
    s.schema.Shows (Sourced v names) := by
  induction h with
  | start =>
    intro x F hF
    simp [start, Schema.faceOf?] at hF
  | @step s s' q o _ hq hg ih =>
    have hS := ih (request_faithful hg hq hs).1
    cases q with
    | type r =>
      simp only [Request.run, gives_look_bind, gives_pure] at hg
      obtain ⟨-, rfl⟩ := hg
      exact hS
    | message r options =>
      obtain ⟨id, hg, -⟩ := gives_lookUp.1 hg
      exact (sources_callsWithin v names options _).message (gives_recoverMessage.1 hg) hs hS
    | enum r options =>
      obtain ⟨id, hg, -⟩ := gives_lookUp.1 hg
      exact (sources_callsWithin v names options _).enum (gives_recoverEnum.1 hg) hs hS
    | service r options =>
      obtain ⟨id, hg, -⟩ := gives_lookUp.1 hg
      exact service_sources (callsWithin_faithful v names options _) (sources_callsWithin v names options _)
        (gives_recoverService.1 hg) hs hS

end Recovery

end ProtoRecovery
