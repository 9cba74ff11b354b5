import ProtoRecovery.Proofs.Managed.Generated
import ProtoRecovery.Proofs.Managed.Pool
import ProtoRecovery.Proofs.Recovery.Placement
/-!
# What is recovered from a library is a forest

The full name of a nested type is longer than that of the type around it, so chains of enclosing types end,
and with them the chains of parents in a schema.
-/

namespace ProtoRecovery.Managed

open Catalog (Pool)
open Recovery (View owner? enclosing? Ordered Orderly Reached)
open Schema (DeclId Kind)

variable {lib : Library}

/-! ## Names and chains of enclosing types -/

/-- Definitions are known by the names that they give themselves. -/
def Library.WellNamed (lib : Library) : Prop := ∀ e ∈ lib.entries, e.fullName = e.definition.fullName

theorem eq_of_load {targets supports : List Assembly} (h : Library.load targets supports = .ok lib) :
    lib = .ofAssemblies targets supports := by
  unfold Library.load at h
  cases hc : (targets ++ supports).forM Library.checkAssembly with
  | error e => simp [hc, bind, Except.bind] at h
  | ok u =>
    simp only [hc, bind, Except.bind, pure, Except.pure, Except.ok.injEq] at h
    exact h.symm

theorem entries_of_load {targets supports : List Assembly} (h : Library.load targets supports = .ok lib) :
    lib.entries = ((targets ++ supports).mapIdx Library.locate).flatten := by
  rw [eq_of_load h]
  rfl

theorem wellNamed_of_load {targets supports : List Assembly}
    (h : Library.load targets supports = .ok lib) : lib.WellNamed := by
  intro e he
  rw [entries_of_load h] at he
  obtain ⟨l, hl, he⟩ := List.mem_flatten.1 he
  obtain ⟨i, hi, rfl⟩ := List.mem_mapIdx.1 hl
  obtain ⟨d, -, rfl⟩ := List.mem_map.1 he
  rfl

theorem length_name_le_key (r : TypeRef) : r.name.length ≤ r.key.length := by
  obtain ⟨name, args⟩ := r
  cases args with
  | nil => simp [TypeRef.key]
  | cons a rest =>
    simp only [TypeRef.key, String.length_append]
    omega

theorem length_declaringType (hl : lib.WellNamed) {t r : TypeRef} (h : lib.catalog.declaring? t = some r) :
    r.key.length < t.key.length := by
  obtain ⟨d, outer, hd, hdecl, rfl⟩ : ∃ d outer, lib.definitionOf? t = some d ∧ d.declaringType = some outer ∧
      TypeRef.named outer = r := by
    have h : ((lib.definitionOf? t).bind (·.declaringType)).map TypeRef.named = some r := h
    simpa [Option.bind_eq_some_iff, and_assoc] using h
  obtain ⟨e, he, rfl⟩ := Option.map_eq_some_iff.1 hd
  have hname : e.fullName = t.name := by simpa using List.find?_some he
  have hfull := hl e (List.mem_of_find?_eq_some he)
  rw [hname, Definition.fullName, hdecl] at hfull
  refine lt_of_lt_of_le ?_ (length_name_le_key t)
  rw [hfull]
  simp only [TypeRef.named, TypeRef.key, String.length_append]
  have : ("+" : String).length = 1 := by decide
  omega

section Chains
variable {pool : Pool TypeRef} (hl : lib.WellNamed) (hpool : Keyed pool) {t o : TypeRef}
include hl hpool

theorem length_declaringOf? (h : ((lib.catalog.declaringOf? t).run pool).1 = some o) :
    o.key.length < t.key.length := by
  unfold Catalog.declaringOf? at h
  cases hd : lib.catalog.declaring? t with
  | none =>
    rw [hd] at h
    cases h
  | some r =>
    rw [hd] at h
    have ho : ((lib.catalog.resolve r).run pool).1 = o := Option.some.inj h
    have hkey : o.key = r.key := by
      cases hp : pool.lookup r.key with
      | some first =>
        rw [resolve_of_found hp] at ho
        exact ho ▸ hpool _ _ hp
      | none =>
        rw [resolve_of_new hp] at ho
        exact ho ▸ rfl
    rw [hkey]
    exact length_declaringType hl hd

omit hl in
theorem keyed_declaringOf? : Keyed ((lib.catalog.declaringOf? t).run pool).2 := by
  unfold Catalog.declaringOf?
  cases lib.catalog.declaring? t with
  | none => exact hpool
  | some r => exact @keyed_resolve lib pool hpool r

/-- Owners have shorter names, also past a holder. -/
theorem length_owner? (h : ((owner? lib.catalog t).run pool).1 = some o) : o.key.length < t.key.length := by
  have henc : ((enclosing? lib.catalog t).run pool).1 = some o := (Option.filter_eq_some_iff.1 h).1
  have hkeyed : Keyed ((lib.catalog.declaringOf? t).run pool).2 := keyed_declaringOf? hpool
  unfold enclosing? at henc
  rw [StateT.run_bind] at henc
  cases hd : (lib.catalog.declaringOf? t).run pool with
  | mk outer p =>
    rw [hd] at henc hkeyed
    cases outer with
    | none => cases henc
    | some outer =>
      -- One step out makes the name shorter, and past a holder there are two.
      have hout : outer.key.length < t.key.length := length_declaringOf? hl hpool (by rw [hd])
      change ((if lib.catalog.isHolder outer then lib.catalog.declaringOf? outer
        else pure (some outer)).run p).1 = some o at henc
      split at henc
      · exact (length_declaringOf? hl hkeyed henc).trans hout
      · cases henc
        exact hout

end Chains

/-! ## The view is orderly -/

theorem not_enum_of_message {t : TypeRef} (h : lib.catalog.isMessage t = true) : lib.catalog.isEnum t = false := by
  have hclass : lib.catalog.isClass t = true := by
    unfold Catalog.isMessage at h
    simp only [Bool.and_eq_true] at h
    exact h.1.1
  show (lib.definitionOf? t).any (·.isEnum) = false
  have hclass : ((lib.definitionOf? t).all fun d => !d.isInterface && !d.isValueType && !d.isEnum) = true := hclass
  cases hd : lib.definitionOf? t with
  | none => rfl
  | some d =>
    simp only [hd, Option.all_some, Bool.and_eq_true, Bool.not_eq_true'] at hclass
    exact hclass.2

/-- The holder of a service that could be taken for neither a message nor an enum. -/
def PlainHolder (lib : Library) (t : TypeRef) : Prop :=
  lib.catalog.isMessage t = false ∧ lib.catalog.isEnum t = false

section View
variable (hl : lib.WellNamed) {pool : Pool TypeRef} (hpool : Keyed pool)
include hl

theorem ordered_viewFrom (holder : TypeRef → Prop) :
    Ordered (lib.viewFrom pool hpool holder) fun t => t.key.length where
  rank_lt h := length_owner? hl hpool h
  name_inj {t t'} ht ht' h := by
    have ht : pool.lookup t.key = some t := ht
    have ht' : pool.lookup t'.key = some t' := ht'
    rw [show t.key = t'.key from h, ht'] at ht
    exact (Option.some.inj ht).symm
  not_both {t} h h' := by
    have h' : lib.catalog.isEnum t = true := h'.shape
    rw [not_enum_of_message h.shape] at h'
    cases h'

theorem orderly_viewFrom : Orderly (lib.viewFrom pool hpool (PlainHolder lib)) fun t => t.key.length where
  toOrdered := ordered_viewFrom hl hpool _
  owner_unique h h' := h.symm.trans h'
  kind_unique {k k' t} h h' := by
    have hme : lib.catalog.isMessage t = true → lib.catalog.isEnum t = false := not_enum_of_message
    have h := h.shape
    have h' := h'.shape
    cases k <;> cases k' <;> simp_all [PlainHolder, Library.viewFrom]

end View

/-! ## Sessions -/

section Session
variable {names : Option Identifier.Dictionary} {holder : TypeRef → Prop} {s : Recovery.State TypeRef}

/-- A reference with a noted class stands for it. -/
theorem lookup_of_find? (hs : Reached lib.catalog names holder s) {types : List TypeRef} {r : TypeRef} {id : DeclId}
    (ha : Recovery.Arranged (lib.viewFrom s.pool (keyed_of_reached hs) holder) types [] s.ledger)
    (hid : s.find? (lib.catalog.fullName (s.answer (lib.catalog.resolve r))) = some id) :
    s.pool.lookup (s.answer (lib.catalog.resolve r)).key = some (s.answer (lib.catalog.resolve r)) := by
  cases hp : s.pool.lookup r.key with
  | some first =>
    have ht : s.answer (lib.catalog.resolve r) = first := by rw [Recovery.State.answer, resolve_of_found hp]
    rw [ht, keyed_of_reached hs _ _ hp, hp]
  | none =>
    have ht : s.answer (lib.catalog.resolve r) = r := by rw [Recovery.State.answer, resolve_of_new hp]
    rw [ht] at hid
    -- A class that is noted stands in the pool, so its reference cannot be a new one.
    obtain ⟨t, htid, hname⟩ := (ha.memo _ id).1 hid
    obtain ⟨k, -, hfits⟩ := ha.fits id t htid
    have hstands : s.pool.lookup t.key = some t := hfits.stands
    rw [show t.key = r.key from hname, hp] at hstands
    cases hstands

end Session

/-- After any requests that all end well, with services named for plain holders, the schema is a forest, and
the parent of a message or an enum is the declaration of the class that its class belongs to. -/
theorem placement_forest {targets supports : List Assembly} {names : Option Identifier.Dictionary}
    {s : Recovery.State TypeRef} (hload : Library.load targets supports = .ok lib)
    (hs : Reached lib.catalog names (PlainHolder lib) s) :
    s.schema.Forest ∧ ∀ r t id, s.answer (lib.catalog.resolve r) = t →
      (lib.catalog.isMessage t = true ∨ lib.catalog.isEnum t = true) →
      s.find? (lib.catalog.fullName t) = some id →
        (s.answer (owner? lib.catalog t) = none → s.schema.parentOf? id = none) ∧
        ∀ o, s.answer (owner? lib.catalog t) = some o →
          ∃ p, s.find? (lib.catalog.fullName o) = some p ∧ s.schema.parentOf? id = some p := by
  have hv := orderly_viewFrom (wellNamed_of_load hload) (keyed_of_reached hs)
  obtain ⟨types, ha⟩ := Recovery.arranged_of_built hv.toOrdered (built_in_view hs)
  refine ⟨Recovery.forest_of_arranged ha hv, ?_⟩
  rintro r _ id rfl hk hid
  have ht := lookup_of_find? hs ha hid
  constructor
  · exact fun ho => Recovery.parentOf?_of_memo hv ha ht hk hid ho
  · exact fun o ho => Recovery.parentOf?_of_memo hv ha ht hk hid ho

/-- A message in a holder in a message that mentions it, and a service. -/
def sheltered : Assembly where
  name := "App"
  types :=
    Generated.Message.definitions
      { name := "Outer", namespaceName := some "App",
        items := [.field { name := "Inner", number := 1, type := .named "App.Outer+Types+Inner" },
          .choice { name := "Which", cases := [("Inner", 1)] }] } ++
    [{ name := "Types", declaringType := some "App.Outer", isAbstract := true, isSealed := true }] ++
    Generated.Message.definitions { name := "Inner", declaringType := some "App.Outer+Types" } ++
    [{ name := "Greeter", namespaceName := some "App", isAbstract := true, isSealed := true },
     { name := "GreeterBase", declaringType := some "App.Greeter", isAbstract := true }]

/-- The assembly loaded. -/
def shelteredLibrary : Library := .ofAssemblies [sheltered] []

/-- The inner message is asked for first. -/
def shelteredMessage : Except Error (Option DeclId) × Recovery.State TypeRef :=
  Recovery.outcome (Recovery.Request.run shelteredLibrary.catalog none (.message (.named "App.Outer+Types+Inner") {}))
    (Recovery.start shelteredLibrary.catalog)

/-- The service is asked for next. -/
def shelteredService : Except Error (Option DeclId) × Recovery.State TypeRef :=
  Recovery.outcome (Recovery.Request.run shelteredLibrary.catalog none (.service (.named "App.Greeter") {}))
    shelteredMessage.2

/-- A session that meets the inner message first builds a forest of three declarations. -/
theorem placement_forest_sheltered :
    Library.load [sheltered] [] = .ok shelteredLibrary ∧
      Reached shelteredLibrary.catalog none (PlainHolder shelteredLibrary) shelteredService.2 ∧
      shelteredService.2.schema.size = 3 ∧ shelteredService.2.schema.parentOf? 0 = some 1 ∧
      shelteredService.2.schema.Forest := by
  have hload : Library.load [sheltered] [] = .ok shelteredLibrary := Generated.load_of_accessors (by decide +kernel)
  have hholder : Recovery.Request.Holds shelteredLibrary.catalog (PlainHolder shelteredLibrary) shelteredMessage.2
      (.service (.named "App.Greeter") {}) :=
    Recovery.Request.holds_service (t := .named "App.Greeter") (by decide +kernel) ⟨by decide +kernel, by decide +kernel⟩
  have hs : Reached shelteredLibrary.catalog none (PlainHolder shelteredLibrary) shelteredService.2 := by
    refine .step (q := .service (.named "App.Greeter") {}) ?_ hholder (Recovery.gives_of_outcome (a := some 2) ?_)
    · refine .step (q := .message (.named "App.Outer+Types+Inner") {}) .start trivial
        (Recovery.gives_of_outcome (a := some 0) ?_)
      decide +kernel
    · decide +kernel
  exact ⟨hload, hs, by decide +kernel, by decide +kernel, (placement_forest hload hs).1⟩

end ProtoRecovery.Managed
