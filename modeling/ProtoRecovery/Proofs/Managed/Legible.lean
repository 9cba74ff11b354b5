import ProtoRecovery.Proofs.Managed.Placement
import ProtoRecovery.Proofs.Managed.Records
/-!
# Libraries without brackets in names

Where no type has a bracket in its name every reference stands for itself, whatever was looked up before. A question
about types then has one answer, and the pool does not matter.
-/

namespace ProtoRecovery.Managed

open Catalog (Attribute Attributes Look Pool Property)
open Recovery (State Recover Readable Gives outcome outcome_bind look search owner? enclosing? isCaseEnum hasPresence)

/-- No bracket in the name of any type. -/
structure Library.Legible (lib : Library) : Prop where
  fullName : ∀ e ∈ lib.entries, Unbracketed e.fullName
  reference : ∀ r ∈ lib.references, r.Spelled
  attributes : ∀ e ∈ lib.entries, ∀ name ∈ e.definition.attributeTypes, Unbracketed name

theorem spelled_named {name : String} (h : Unbracketed name) : (TypeRef.named name).Spelled := .mk h (by simp)

theorem apart_spelled : Apart TypeRef.Spelled := fun _ _ hr ht h => hr.eq_of_key ht h

/-- A pool in which every reference without a bracket stands for itself. -/
abbrev Clear (pool : Pool TypeRef) : Prop := Own TypeRef.Spelled pool

variable {lib : Library}

/-! ## References in a library -/

theorem clear_of_fullNames (h : ∀ e ∈ lib.entries, Unbracketed e.fullName) : Clear lib.catalog.pool := by
  refine own_of_keys apart_spelled fun r hr => ?_
  obtain ⟨name, hname, rfl⟩ := List.mem_map.1 hr
  obtain ⟨e, he, rfl⟩ := List.mem_map.1 (List.mem_eraseDups.1 hname)
  exact spelled_named (h e (List.mem_filter.1 he).1)

section Legible
variable (hl : lib.Legible)
include hl

theorem clear_start : Clear lib.catalog.pool := clear_of_fullNames hl.fullName

/-- No type in the records has a bracket in its name. -/
theorem Library.Legible.admits (hw : lib.WellNamed) : lib.Admits TypeRef.Spelled where
  entry e he := spelled_named (hl.fullName e he)
  around e he outer houter := by
    -- The name of the class around is the first part of a full name.
    have hfull : e.fullName = outer ++ "+" ++ e.definition.name := by
      rw [hw e he, Definition.fullName, Option.mem_def.1 houter]
    apply spelled_named
    intro c hc
    apply hl.fullName e he
    rw [hfull]
    simp [String.toList_append, hc]
  reference := hl.reference
  mark e he name hname := spelled_named (hl.attributes e he name hname)

/-! ## Questions and their answers -/

/-- The class around another, past one holder. -/
def Library.around? (lib : Library) (t : TypeRef) : Option TypeRef :=
  match lib.catalog.declaring? t with
  | none => none
  | some outer => if lib.catalog.isHolder outer then lib.catalog.declaring? outer else some outer

/-- The message class that a class belongs to. -/
def Library.ownerOf? (lib : Library) (t : TypeRef) : Option TypeRef := (lib.around? t).filter lib.catalog.isMessage

theorem answers_declaringOf? (hw : lib.WellNamed) (t : TypeRef) :
    Answers Clear (lib.catalog.declaringOf? t) (· = lib.catalog.declaring? t) := by
  unfold Catalog.declaringOf?
  cases hd : lib.catalog.declaring? t with
  | none => exact answers_pure rfl
  | some r =>
    refine answers_bind (answers_resolve apart_spelled ((hl.admits hw).declaring hd)) fun x hx => answers_pure ?_
    rw [hx]

theorem answers_owner? (hw : lib.WellNamed) (t : TypeRef) :
    Answers Clear (owner? lib.catalog t) (· = lib.ownerOf? t) := by
  unfold owner? enclosing? Library.ownerOf? Library.around?
  refine answers_bind (P := (· = lib.around? t)) (answers_bind (answers_declaringOf? hl hw t) ?_) ?_
  · rintro _ rfl
    unfold Library.around?
    cases lib.catalog.declaring? t with
    | none => exact answers_pure rfl
    | some outer =>
      dsimp only
      split
      · exact answers_declaringOf? hl hw outer
      · exact answers_pure rfl
  · rintro _ rfl
    exact answers_pure rfl

/-- Whether a type is an enum declared in a class. -/
def Library.isCase (lib : Library) (t type : TypeRef) : Bool :=
  lib.catalog.isEnum type && decide (lib.catalog.declaring? type = some t)

theorem answers_isCaseEnum (hw : lib.WellNamed) (t type : TypeRef) :
    Answers Clear (isCaseEnum lib.catalog t type) (· = lib.isCase t type) := by
  unfold isCaseEnum Library.isCase
  cases lib.catalog.isEnum type with
  | false => exact answers_pure rfl
  | true =>
    refine answers_bind (answers_declaringOf? hl hw type) ?_
    rintro _ rfl
    exact answers_pure (by simp)

omit hl

/-- Whether the next property tells whether the field before it is set. -/
def Library.tellsPresence (lib : Library) : List (Property TypeRef) → Bool
  | [] => false
  | next :: _ => !next.setter.isSome && lib.catalog.fullName next.type == Recovery.presenceType

theorem answers_hasPresence {rest : List (Property TypeRef)} (h : ∀ p ∈ rest, p.type.Spelled) :
    Answers Clear (hasPresence lib.catalog rest) (· = lib.tellsPresence rest) := by
  cases rest with
  | nil => exact answers_pure rfl
  | cons next rest =>
    unfold hasPresence Library.tellsPresence
    dsimp only
    cases next.setter.isSome with
    | true => exact answers_pure rfl
    | false =>
      have htype : Answers Clear (lib.catalog.typeOf next) (· = next.type) :=
        answers_resolve apart_spelled (h next (by simp))
      refine answers_bind htype fun x hx => answers_pure ?_
      rw [hx]
      rfl

/-- The attributes that can be read. -/
def readIn (x : Attributes TypeRef) : List (Attribute TypeRef) := x.toOption.getD []

theorem answers_attributes {x : Attributes TypeRef} (h : Readable TypeRef.Spelled x) :
    Answers Clear (lib.catalog.readAttributes x).run (· = .ok (readIn x)) := by
  obtain ⟨as, rfl, has⟩ := h
  exact answers_readAttributes apart_spelled has

theorem answers_ownProperties (hl : lib.Legible) (hw : lib.WellNamed) {t : TypeRef} (ht : lib.catalog.isMessage t = true) :
    Answers Clear (lib.catalog.properties t) fun ps => ps.filter (fun p => !p.isInherited) = lib.ownProperties t := by
  have hsealed : (lib.definitionOf? t).any (·.isSealed) = true := by
    simp only [Catalog.isMessage, Bool.and_eq_true] at ht
    exact ht.1.2
  cases hd : lib.definitionOf? t with
  | none => simp [hd] at hsealed
  | some d =>
    rw [Library.ownProperties, hd]
    exact answers_properties apart_spelled (fun _ he _ hb => (hl.admits hw).base he hb) hd

end Legible

/-! ## Steps that only look things up -/

/-- Only the pool is another, and it is clear. -/
structure Browsed (s s' : State TypeRef) : Prop where
  schema : s'.schema = s.schema
  memo : s'.memo = s.memo
  diagnostics : s'.diagnostics = s.diagnostics
  pool : Clear s'.pool

theorem Browsed.refl {s : State TypeRef} (h : Clear s.pool) : Browsed s s := ⟨rfl, rfl, rfl, h⟩

theorem Browsed.trans {s s₁ s₂ : State TypeRef} (h₁ : Browsed s s₁) (h₂ : Browsed s₁ s₂) : Browsed s s₂ where
  schema := h₂.schema.trans h₁.schema
  memo := h₂.memo.trans h₁.memo
  diagnostics := h₂.diagnostics.trans h₁.diagnostics
  pool := h₂.pool

/-- A step that only looks things up and has one answer, or none. -/
def Yields {α : Type} (m : Recover TypeRef α) (o : Option α) : Prop :=
  ∀ s, Clear s.pool → ∃ r s', outcome m s = (r, s') ∧ r.toOption = o ∧ Browsed s s'

section Yields
variable {α β : Type} {m : Recover TypeRef α} {o : Option α} {a : α} {s s' : State TypeRef}

theorem Yields.of_gives (h : Yields m o) (hs : Clear s.pool) (hg : Gives m s a s') : o = some a ∧ Browsed s s' := by
  obtain ⟨r, s₁, hr, rfl, hb⟩ := h s hs
  unfold Gives at hg
  rw [hg] at hr
  cases hr
  exact ⟨rfl, hb⟩

theorem Yields.gives (h : Yields m (some a)) (hs : Clear s.pool) : ∃ s', Gives m s a s' ∧ Browsed s s' := by
  obtain ⟨r, s', hr, ho, hb⟩ := h s hs
  cases r with
  | error e => cases ho
  | ok x =>
    cases ho
    exact ⟨s', hr, hb⟩

theorem yields_pure : Yields (pure a) (some a) := fun s hs => ⟨.ok a, s, rfl, rfl, .refl hs⟩

theorem yields_throw {e : Error} : Yields (throw e : Recover TypeRef α) none :=
  fun s hs => ⟨.error e, s, rfl, rfl, .refl hs⟩

theorem yields_bind {f : α → Recover TypeRef β} {g : α → Option β} (hm : Yields m o)
    (hf : ∀ a, Yields (f a) (g a)) : Yields (m >>= f) (o.bind g) := by
  intro s hs
  obtain ⟨r, s₁, hr, rfl, hb₁⟩ := hm s hs
  rw [outcome_bind, hr]
  cases r with
  | error e => exact ⟨.error e, s₁, rfl, rfl, hb₁⟩
  | ok a =>
    obtain ⟨r, s₂, hr, hg, hb₂⟩ := hf a s₁ hb₁.pool
    exact ⟨r, s₂, hr, hg, hb₁.trans hb₂⟩

/-- What follows a step that only looks things up goes on from the same state. -/
theorem Yields.outcome_bind (h : Yields m (some a)) (hs : Clear s.pool) (f : α → Recover TypeRef β) :
    ∃ s₁, Browsed s s₁ ∧ outcome (m >>= f) s = outcome (f a) s₁ := by
  obtain ⟨s₁, hg, hb⟩ := h.gives hs
  refine ⟨s₁, hb, ?_⟩
  rw [Recovery.outcome_bind, show outcome m s = (.ok a, s₁) from hg]

theorem yields_look {q : Look TypeRef α} (h : Answers Clear q (· = a)) : Yields (look q) (some a) := by
  intro s hs
  obtain ⟨hp, ha⟩ := h s.pool hs
  refine ⟨.ok a, s.after q, ?_, rfl, rfl, rfl, rfl, hp⟩
  exact Recovery.gives_look.2 ⟨ha, rfl⟩

theorem yields_search {q : Catalog.Search TypeRef α} (h : Answers Clear q.run (· = .ok a)) :
    Yields (search q) (some a) := by
  intro s hs
  obtain ⟨hp, ha⟩ := h s.pool hs
  refine ⟨.ok a, s.after q.run, ?_, rfl, rfl, rfl, rfl, hp⟩
  exact Recovery.gives_search.2 ⟨ha, rfl⟩

end Yields

end ProtoRecovery.Managed
