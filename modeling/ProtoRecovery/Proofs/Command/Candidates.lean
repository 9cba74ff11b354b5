import ProtoRecovery.Command.Run
import ProtoRecovery.Proofs.Il2cpp.AttributeErrors
import ProtoRecovery.Proofs.Managed.Handle
import ProtoRecovery.Proofs.Recovery.Failure
/-!
# Candidates for messages

A catalog lists the types that may be messages: those that have the marker, are sealed and are not nested. It does not
ask what else they are. The recovery of a message does, and refuses what is no class or is abstract. So a candidate is
refused just when its definition says that it is one of these, and the pass over the candidates ends at the first of
them that it comes to.
-/

namespace ProtoRecovery.Command

open Recovery (State Setting Recover Results Within Complaint Complains Attributed Roams outcome recoverMessage
  recoverService results_pure results_throw results_bind results_lift results_search results_forM run_bind outcome_search
  complains_readAttributes complains_recoverMessage complains_recoverService start)
open Catalog (Search)
open Schema (DeclId)

variable {ρ α : Type} {c : Catalog ρ}

/-! ## Lists of candidates -/

/-- What a command can find wrong with a catalog: what a recovery can, and markers that are not there. -/
def Objection (c : Catalog ρ) (e : Error) : Prop := Complaint c e ∨ ∃ name assembly, c.find name assembly = .error e

theorem results_select {E : Error → Prop} {test : ρ → Search ρ Bool} (Kept : ρ → Prop)
    (htest : ∀ t, Results E (fun keep => keep = true → Kept t) (test t)) (types : List ρ) :
    Results E (fun kept => kept.Sublist types ∧ ∀ t ∈ kept, Kept t) (Catalog.select test types) := by
  induction types with
  | nil => exact results_pure ⟨.slnil, by simp⟩
  | cons t rest ih =>
    refine results_bind (htest t) fun keep hkeep => results_bind ih fun kept hkept => ?_
    apply results_pure
    cases keep with
    | false => exact ⟨hkept.1.cons t, hkept.2⟩
    | true => exact ⟨hkept.1.cons_cons t, List.forall_mem_cons.2 ⟨hkeep rfl, hkept.2⟩⟩

theorem results_markerType (m : Catalog.Marker) : Results (Objection c) (fun _ => True) (c.markerType m) := by
  unfold Catalog.markerType
  split
  · exact results_pure trivial
  · split
    · exact results_lift fun _ => trivial
    · rename_i e he
      exact results_throw (.inr ⟨_, _, he⟩)

/-- What a type was asked before it was listed for a message. -/
structure Screened (c : Catalog ρ) (t : ρ) : Prop where
  isSealed : c.isSealed t = true
  isNested : c.isNested t = false
  isRuntime : (c.namespaceName? t).any Catalog.isRuntime = false

theorem results_messages :
    Results (Objection c) (fun listed => listed.Sublist c.loaded ∧ ∀ t ∈ listed, Screened c t) c.messages := by
  refine results_bind (results_markerType _) fun marker _ => results_select (Screened c) (fun t => ?_) c.loaded
  unfold Catalog.isMessageCandidate
  split
  · exact results_pure nofun
  · rename_i h
    have hscreened : Screened c t := by
      simp only [Bool.or_eq_true, Bool.not_eq_true', not_or, Bool.not_eq_true, Bool.not_eq_false] at h
      exact ⟨h.1.2, h.1.1, h.2⟩
    exact results_lift fun _ _ => hscreened

theorem results_listing {test : ρ → ρ → Search ρ Bool} (m : Catalog.Marker)
    (htest : ∀ marker t, Results (Objection c) (fun _ => True) (test marker t)) :
    Results (Objection c) (fun _ => True) (c.markerType m >>= fun marker => Catalog.select (test marker) c.loaded) := by
  refine results_bind (results_markerType m) fun marker _ => ?_
  have hkept := results_select (fun _ => True) (fun t => (htest marker t).imp (fun _ => id) fun _ _ _ => trivial) c.loaded
  exact hkept.imp (fun _ => id) fun _ _ => trivial

theorem results_clients : Results (Objection c) (fun _ => True) c.clients := by
  refine results_listing _ fun marker t => ?_
  unfold Catalog.isClientCandidate
  split
  · exact results_pure trivial
  · exact results_lift fun _ => trivial

theorem results_servers [DecidableEq ρ] : Results (Objection c) (fun _ => True) c.servers := by
  refine results_listing _ fun marker t => ?_
  have hattributes : Results (Objection c) (fun _ => True) (c.readAttributes (c.attributes t)) :=
    (complains_readAttributes (.type t)).imp (fun _ => .inl) fun _ => id
  unfold Catalog.isServerCandidate
  split
  · exact results_pure trivial
  · refine results_bind (P := fun _ => True) (results_lift fun _ => trivial) fun holder _ => ?_
    cases holder with
    | none => exact results_pure trivial
    | some holder =>
      dsimp only
      split
      · exact results_pure trivial
      · exact results_bind hattributes fun _ _ => results_pure trivial

/-! ## The pass over candidates -/

/-- How part of a recovery ends, and in which state. -/
def partOutcome (p : Part ρ α) (s : State ρ) : Except Failure α × State ρ := p.run.run s

theorem partOutcome_stage (label : Stage) (step : Recover ρ α) (s : State ρ) :
    partOutcome (stage label step) s = ((outcome step s).1.mapError (.during label), (outcome step s).2) := by
  have hlift : (ExceptT.lift step.run : Part ρ (Except Error α)).run.run s =
      (.ok (outcome step s).1, (outcome step s).2) := rfl
  unfold partOutcome stage
  rw [run_bind, hlift]
  dsimp only
  cases (outcome step s).1 <;> rfl

/-- A failure during the recovery, for one of these reasons. -/
def During (E : Error → Prop) (f : Failure) : Prop := ∃ label e, f = .during label e ∧ E e

theorem results_stage {E : Error → Prop} {P : α → Prop} (label : Stage) {step : Recover ρ α} (h : Results E P step) :
    Results (During E) P (stage label step) := by
  intro s
  have hs := h s
  show Within _ _ (partOutcome (stage label step) s).1
  rw [partOutcome_stage]
  revert hs
  show Within E P (outcome step s).1 → _
  cases (outcome step s).1 with
  | error e => exact fun he => ⟨label, e, rfl, he⟩
  | ok a => exact id

section Passes
variable {label : String → Stage} {recover : ρ → Recover ρ DeclId} {s s₁ s₂ : State ρ}

theorem results_recoverEach (h : ∀ t, Complains c (recover t)) (types : List ρ) :
    Results (During (Objection c)) (fun _ => True) (recoverEach c label recover types) := by
  refine results_forM fun t _ => ?_
  refine results_bind (results_stage _ ((h t).imp (fun _ => .inl) fun _ => id)) fun _ _ => ?_
  exact results_pure trivial

/-- Whatever a whole recovery fails with, it is an objection to the catalog. -/
theorem results_recoverAll [DecidableEq ρ] (request : Request) (env : Setting ρ) :
    Results (During (Objection env.catalog)) (fun _ => True) (recoverAll request env) := by
  have hmessages : Results (Objection env.catalog) (fun _ => True) env.catalog.messages :=
    results_messages.imp (fun _ => id) fun _ _ => trivial
  have hservices : ∀ services, Results (During (Objection env.catalog)) (fun _ => True)
      (recoverEach env.catalog .service (recoverService env) services) :=
    results_recoverEach (complains_recoverService env)
  have hclients : Results (During (Objection env.catalog)) (fun _ => True) (if request.clients = true then do
      let clients ← stage .listingClients (Recovery.search env.catalog.clients)
      recoverEach env.catalog .service (recoverService env) clients
    else pure ()) := by
    split
    · exact results_bind (results_stage _ (results_search results_clients)) fun clients _ =>
        hservices clients
    · exact results_pure trivial
  unfold recoverAll
  refine results_bind (results_stage _ (results_search hmessages)) fun messages _ => ?_
  refine results_bind (results_recoverEach (complains_recoverMessage env) messages) fun _ _ => ?_
  dsimp only
  split
  · refine results_bind (results_stage _ (results_search results_servers)) fun servers _ => ?_
    exact results_bind (hservices servers) fun _ _ => hclients
  · exact hclients

/-- One step of a pass. -/
theorem recoverEach_cons (t : ρ) (rest : List ρ) (s : State ρ) :
    partOutcome (recoverEach c label recover (t :: rest)) s =
      match outcome (recover t) s with
      | (.ok _, s₁) => partOutcome (recoverEach c label recover rest) s₁
      | (.error e, s₁) => (.error (.during (label (c.fullName t)) e), s₁) := by
  have hstage := partOutcome_stage (label (c.fullName t)) (recover t) s
  show ((stage (label (c.fullName t)) (recover t) >>= fun _ => pure ()) >>= fun _ =>
    recoverEach c label recover rest).run.run s = _
  rw [bind_assoc, run_bind, show (stage (label (c.fullName t)) (recover t)).run.run s = _ from hstage]
  rcases outcome (recover t) s with ⟨e | id, s₁⟩ <;> rfl

/-- A pass ends at a type that cannot be recovered, whatever comes after it. -/
theorem recoverEach_stops {before after : List ρ} {t : ρ} {e : Error}
    (hbefore : partOutcome (recoverEach c label recover before) s = (.ok (), s₁))
    (ht : outcome (recover t) s₁ = (.error e, s₂)) :
    partOutcome (recoverEach c label recover (before ++ t :: after)) s =
      (.error (.during (label (c.fullName t)) e), s₂) := by
  induction before generalizing s with
  | nil =>
    cases hbefore
    rw [List.nil_append, recoverEach_cons, ht]
  | cons a rest ih =>
    rw [recoverEach_cons] at hbefore
    rw [List.cons_append, recoverEach_cons]
    revert hbefore
    rcases outcome (recover a) s with ⟨e' | id, s'⟩
    · rintro ⟨⟩
    · exact ih

/-- A recovery ends where its pass over messages does. -/
theorem recoverAll_stops [DecidableEq ρ] (request : Request) (env : Setting ρ) {listed : List ρ} {f : Failure}
    (hlisted : s.answer env.catalog.messages.run = .ok listed)
    (hpass : partOutcome (recoverEach env.catalog .message (recoverMessage env) listed)
      (s.after env.catalog.messages.run) = (.error f, s₁)) :
    partOutcome (recoverAll request env) s = (.error f, s₁) := by
  have hlist := partOutcome_stage .listingMessages (Recovery.search env.catalog.messages) s
  rw [outcome_search, hlisted] at hlist
  unfold partOutcome at hlist hpass ⊢
  unfold recoverAll
  rw [run_bind, hlist]
  dsimp only [Except.mapError]
  rw [run_bind, hpass]

end Passes

/-! ## Candidates that are refused -/

/-- What holds of the types that a catalog lists for messages in a state, given which types have the wrong shape. -/
structure Vetted [DecidableEq ρ] (c : Catalog ρ) (Unfit : ρ → Prop) (s : State ρ) (listed : List ρ) : Prop where
  loaded : listed.Sublist c.loaded
  screened : ∀ t ∈ listed, Screened c t
  /-- The shape that a recovery asks for is that of all other types. -/
  isMessage_iff : ∀ t ∈ listed, c.isMessage t = true ↔ ¬Unfit t
  /-- Just the types of the wrong shape are refused for it, and nothing changes then. -/
  refused_iff : ∀ t ∈ listed, ∀ names options (s₁ : State ρ),
    outcome (recoverMessage ⟨c, names, options⟩ t) s₁ = (.error (.misfit (c.fullName t) .notMessage), s₁) ↔ Unfit t
  /-- A command that comes to such a type ends there. -/
  stops : ∀ request names options before t after (s₁ : State ρ), listed = before ++ t :: after →
    partOutcome (recoverEach c .message (recoverMessage ⟨c, names, options⟩) before) (s.after c.messages.run) =
      (.ok (), s₁) → Unfit t →
    partOutcome (recoverAll request ⟨c, names, options⟩) s =
      (.error (.during (.message (c.fullName t)) (.misfit (c.fullName t) .notMessage)), s₁)
  /-- A command ends for this reason only because of a type of the wrong shape. -/
  blamed : ∀ request names options label name (s₁ : State ρ),
    partOutcome (recoverAll request ⟨c, names, options⟩) s = (.error (.during label (.misfit name .notMessage)), s₁) →
    ∃ t, c.fullName t = name ∧ c.isMessage t = false ∧ (t ∈ listed → Unfit t)

section Vetted
variable [DecidableEq ρ]

theorem outcome_recoverMessage_refused (env : Setting ρ) {t : ρ} (ht : env.catalog.isMessage t = false) (s : State ρ) :
    outcome (recoverMessage env t) s = (.error (.misfit (env.catalog.fullName t) .notMessage), s) := by
  obtain ⟨depth, h⟩ := Recovery.outcome_recoverMessage env t s
  rw [h, Recovery.outcome_message_refused ht]

/-- A message that is refused for its shape, and leaves no trace, has the wrong shape. -/
theorem isMessage_of_refused (env : Setting ρ) (hM : Roams env.catalog .growing) {t : ρ} {s : State ρ}
    {name : String} (hreadable : ∀ x, Attributed env.catalog x → ∀ reason, x ≠ .error (.misfit name reason))
    (h : outcome (recoverMessage env t) s = (.error (.misfit name .notMessage), s)) :
    env.catalog.isMessage t = false := by
  obtain ⟨depth, hdepth⟩ := Recovery.outcome_recoverMessage env t s
  rw [hdepth] at h
  obtain ⟨-, ⟨hrefused, -⟩ | ⟨habandoned, -⟩⟩ := Recovery.fares_message env hM depth s s _ h
  · rcases hrefused with ⟨ht, -⟩ | ⟨-, hattributes⟩
    · exact ht
    · exact absurd hattributes (hreadable _ (.type t) _)
  · have hnoted := habandoned.noted
    rw [habandoned.new] at hnoted
    cases hnoted

section Catalogs
variable (hreadable : ∀ x, Attributed c x → ∀ name reason, x ≠ .error (.misfit name reason))
  (hfind : ∀ fullName assembly name reason, c.find fullName assembly ≠ .error (.misfit name reason))
  {s : State ρ}
include hreadable hfind

/-- Only a type of the wrong shape ends a command for its shape. -/
theorem exists_misfit_of_recoverAll {request : Request} {names : Option Identifier.Dictionary}
    {options : Recovery.Options} {label : Stage} {name : String} {s₁ : State ρ}
    (h : partOutcome (recoverAll request ⟨c, names, options⟩) s = (.error (.during label (.misfit name .notMessage)), s₁)) :
    ∃ t, c.fullName t = name ∧ c.isMessage t = false := by
  obtain ⟨label', e, he, hobjection⟩ := (results_recoverAll request ⟨c, names, options⟩).error (congrArg Prod.fst h)
  cases he
  rcases hobjection with hcomplaint | ⟨fullName, assembly, hmissing⟩
  · generalize herror : Error.misfit name .notMessage = e at hcomplaint
    cases hcomplaint with
    | @notMessage t ht =>
      cases herror
      exact ⟨t, rfl, ht⟩
    | attributes hx => exact absurd rfl (hreadable _ (herror ▸ hx) name .notMessage)
    | _ => cases herror
  · exact absurd hmissing (hfind _ _ _ _)

/-- For any catalog whose own errors are never about the shape of a class. -/
theorem vetted_of_messages {Unfit : ρ → Prop} (hM : Roams c .growing)
    (hunfit : ∀ t ∈ c.loaded, c.isSealed t = true → (c.isMessage t = true ↔ ¬Unfit t)) {listed : List ρ}
    (hlisted : s.answer c.messages.run = .ok listed) : Vetted c Unfit s listed := by
  obtain ⟨hloaded, hscreened⟩ := results_messages.ok hlisted
  have hshape : ∀ t ∈ listed, c.isMessage t = true ↔ ¬Unfit t := fun t ht =>
    hunfit t (hloaded.subset ht) (hscreened t ht).isSealed
  have hmisfit : ∀ t ∈ listed, c.isMessage t = false ↔ Unfit t := fun t ht => by
    rw [← Bool.not_eq_true, hshape t ht, not_not]
  have hrefused : ∀ t ∈ listed, ∀ names options (s₁ : State ρ), Unfit t →
      outcome (recoverMessage ⟨c, names, options⟩ t) s₁ = (.error (.misfit (c.fullName t) .notMessage), s₁) :=
    fun t ht names options s₁ hbad =>
      outcome_recoverMessage_refused ⟨c, names, options⟩ ((hmisfit t ht).2 hbad) s₁
  refine ⟨hloaded, hscreened, hshape, fun t ht names options s₁ => ⟨fun h => ?_, hrefused t ht names options s₁⟩, ?_, ?_⟩
  · exact (hmisfit t ht).1 (isMessage_of_refused ⟨c, names, options⟩ hM (fun x hx => hreadable x hx _) h)
  · intro request names options before t after s₁ hsplit hbefore hbad
    have ht := hrefused t (by simp [hsplit]) names options s₁ hbad
    exact recoverAll_stops request ⟨c, names, options⟩ hlisted (hsplit ▸ recoverEach_stops hbefore ht)
  · intro request names options label name s₁ h
    obtain ⟨t, hname, ht⟩ := exists_misfit_of_recoverAll hreadable hfind h
    exact ⟨t, hname, ht, fun hmem => (hmisfit t hmem).1 ht⟩

end Catalogs

end Vetted

theorem isMessage_library {targets supports : List Managed.Assembly} {lib : Managed.Library}
    (hload : Managed.Library.load targets supports = .ok lib) {t : Managed.TypeRef} (ht : lib.catalog.isSealed t = true) :
    lib.catalog.isMessage t = true ↔
      ¬∃ d, ((targets ++ supports).flatMap (·.types)).find? (·.fullName == t.name) = some d ∧
        (d.isAbstract = true ∨ d.isInterface = true ∨ d.isValueType = true ∨ d.isEnum = true) := by
  rw [← Managed.definitionOf?_of_load hload]
  replace ht : (lib.definitionOf? t).any (·.isSealed) = true := ht
  show ((lib.definitionOf? t).all _ && (lib.definitionOf? t).any _ && !(lib.definitionOf? t).any _) = true ↔ _
  cases hd : lib.definitionOf? t with
  | none => simp [hd] at ht
  | some d =>
    rw [hd, Option.any_some] at ht
    simp [ht, and_comm, and_left_comm]

theorem isMessage_store {tables : Il2cpp.Tables} {st : Il2cpp.Store} (hload : Il2cpp.Store.load tables = .ok st)
    {h : Il2cpp.Handle} (hmem : h ∈ st.catalog.loaded) (hsealed : st.catalog.isSealed h = true) :
    st.catalog.isMessage h = true ↔
      ¬∃ row d, h = .definition row ∧ tables.definitions[row]? = some d ∧
        (d.isAbstract = true ∨ d.isInterface = true ∨ d.isValueType = true) := by
  have htables := Il2cpp.Store.tables_of_load hload
  obtain ⟨row, -, rfl⟩ := List.mem_map.1 hmem
  have hshape : st.catalog.isMessage (.definition row) =
      (st.definitionHas (fun d => !d.isInterface && !d.isValueType) (.definition row) &&
        st.catalog.isSealed (.definition row) && !st.definitionHas (·.isAbstract) (.definition row)) := rfl
  have hflag := fun p => Il2cpp.Store.definitionHas_definition st p row
  rw [htables] at hflag
  cases hd : tables.definitions[row]? with
  | none =>
    -- A row that is not there is not sealed.
    rw [show st.catalog.isSealed (.definition row) = _ from hflag _, hd] at hsealed
    cases hsealed
  | some d => simp [hshape, hsealed, hflag, hd, and_comm, and_left_comm]

/-- Whatever is loaded and in whatever state the messages are listed: a type that is listed is refused just when its
definition says that it is abstract, an interface, a value type or an enum. -/
theorem candidates_refused_iff_flagged :
    (∀ (targets supports : List Managed.Assembly) (lib : Managed.Library),
      Managed.Library.load targets supports = .ok lib →
      ∀ s listed, s.answer lib.catalog.messages.run = .ok listed →
        Vetted lib.catalog (fun t => ∃ d, ((targets ++ supports).flatMap (·.types)).find? (·.fullName == t.name) = some d ∧
          (d.isAbstract = true ∨ d.isInterface = true ∨ d.isValueType = true ∨ d.isEnum = true)) s listed) ∧
    ∀ (tables : Il2cpp.Tables) (st : Il2cpp.Store), Il2cpp.Store.load tables = .ok st →
      ∀ s listed, s.answer st.catalog.messages.run = .ok listed →
        Vetted st.catalog (fun h => ∃ row d, h = .definition row ∧ tables.definitions[row]? = some d ∧
          (d.isAbstract = true ∨ d.isInterface = true ∨ d.isValueType = true)) s listed := by
  constructor
  · intro targets supports lib hload s listed hlisted
    refine vetted_of_messages (fun x hx name reason he => ?_) (fun fullName assembly name reason he => ?_)
      (Managed.roams_library lib) (fun t _ ht => isMessage_library hload ht) hlisted
    · obtain ⟨attributes, rfl⟩ := Recovery.attributes_of_library hx
      cases he
    · replace he : lib.find fullName assembly = .error (.misfit name reason) := he
      unfold Managed.Library.find at he
      split at he
      · split at he <;> cases he
      · cases he
  · intro tables st hload s listed hlisted
    refine vetted_of_messages (fun x hx name reason he => ?_) (fun fullName assembly name reason he => ?_)
      (Recovery.roams_store st) (fun t ht hs => isMessage_store hload ht hs) hlisted
    · cases Il2cpp.Store.attributable_of_attributed hx _ he
    · dsimp only [Il2cpp.Store.catalog] at he
      split at he <;> cases he

/-! ## A point among messages -/

/-- A message, and a value type that has the marker too. -/
def pointAssembly : Managed.Assembly where
  name := "App"
  types := [
    { name := "IMessage", namespaceName := some "Google.Protobuf", isInterface := true, isAbstract := true },
    { name := "Order", namespaceName := some "App", interfaces := [.named "Google.Protobuf.IMessage"], isSealed := true },
    { name := "Point", namespaceName := some "App", interfaces := [.named "Google.Protobuf.IMessage"], isSealed := true,
      isValueType := true }]

/-- The assembly loaded. -/
def pointLibrary : Managed.Library := .ofAssemblies [pointAssembly] []

/-- The same types in tables. -/
def pointTables : Il2cpp.Tables where
  version := .ofInt 29
  images := [⟨"App.dll", ⟨0, 3⟩, {}⟩]
  definitions := [
    { name := "IMessage", namespaceName := "Google.Protobuf", flags := 0xA0 },
    { name := "Order", namespaceName := "App", flags := 0x100, interfaces := ⟨0, 1⟩ },
    { name := "Point", namespaceName := "App", flags := 0x100, interfaces := ⟨0, 1⟩, isValueType := true }]
  interfaces := [0]
  entries := [⟨0x12, 0, .definition 0⟩]

/-- The tables loaded. -/
def pointStore : Il2cpp.Store := .ofTables pointTables

/-- All messages and nothing else. -/
def pointRequest : Request := ⟨.managed "App.json", "out", {}, false, false, none, none⟩

/-- Both types are listed, and only the point is refused. -/
theorem candidates_refused_iff_flagged_point :
    Managed.Library.load [pointAssembly] [] = .ok pointLibrary ∧
      (start pointLibrary.catalog).answer pointLibrary.catalog.messages.run =
        .ok [.named "App.Order", .named "App.Point"] ∧
      Il2cpp.Store.load pointTables = .ok pointStore ∧
      (start pointStore.catalog).answer pointStore.catalog.messages.run = .ok [.definition 1, .definition 2] ∧
      pointLibrary.catalog.isMessage (.named "App.Order") = true ∧
      outcome (recoverMessage ⟨pointStore.catalog, none, {}⟩ (.definition 2)) (start pointStore.catalog) =
        (.error (.misfit "App.Point" .notMessage), start pointStore.catalog) := by
  have hlibrary : (start pointLibrary.catalog).answer pointLibrary.catalog.messages.run =
      .ok [.named "App.Order", .named "App.Point"] := by decide +kernel
  have hstore : (start pointStore.catalog).answer pointStore.catalog.messages.run =
      .ok [.definition 1, .definition 2] := by decide +kernel
  have hload : Managed.Library.load [pointAssembly] [] = .ok pointLibrary := rfl
  have hload' : Il2cpp.Store.load pointTables = .ok pointStore := rfl
  refine ⟨hload, hlibrary, hload', hstore, ?_, ?_⟩
  · refine ((candidates_refused_iff_flagged.1 _ _ _ hload _ _ hlibrary).isMessage_iff _ (by simp)).2 ?_
    rintro ⟨d, hd, hflags⟩
    obtain rfl := Option.some.inj hd
    revert hflags
    decide
  · refine ((candidates_refused_iff_flagged.2 _ _ hload' _ _ hstore).refused_iff _ (by simp) none {} _).2 ?_
    exact ⟨2, _, rfl, rfl, by decide⟩

/-- The point is listed, but it has not the shape of a message, and the command ends there. -/
theorem point_offered_and_refused :
    Managed.Library.load [pointAssembly] [] = .ok pointLibrary ∧
      (start pointLibrary.catalog).answer pointLibrary.catalog.messages.run =
        .ok [.named "App.Order", .named "App.Point"] ∧
      pointLibrary.catalog.isMessage (.named "App.Point") = false ∧
      (partOutcome (recoverAll pointRequest ⟨pointLibrary.catalog, none, {}⟩) (start pointLibrary.catalog)).1 =
        .error (.during (.message "App.Point") (.misfit "App.Point" .notMessage)) ∧
      Il2cpp.Store.load pointTables = .ok pointStore ∧
      (start pointStore.catalog).answer pointStore.catalog.messages.run = .ok [.definition 1, .definition 2] ∧
      pointStore.catalog.isMessage (.definition 2) = false ∧
      (partOutcome (recoverAll pointRequest ⟨pointStore.catalog, none, {}⟩) (start pointStore.catalog)).1 =
        .error (.during (.message "App.Point") (.misfit "App.Point" .notMessage)) := by
  refine ⟨rfl, ?_, ?_, ?_, rfl, ?_, ?_, ?_⟩ <;> decide +kernel

end ProtoRecovery.Command
