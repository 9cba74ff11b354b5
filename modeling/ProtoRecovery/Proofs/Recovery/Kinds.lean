import ProtoRecovery.Proofs.Managed.Placement
import ProtoRecovery.Proofs.Recovery.Registry
/-!
# Declarations of the kind that was asked for

What is noted is given whatever kind is asked for. So kinds agree as long as no name belongs to classes of two kinds:
classes that are messages, enums, or stand around the client or the server of a service. A library tells messages from
enums, but a service is named for whatever class is around the one it is read from.
-/

namespace ProtoRecovery.Recovery

open Schema (DeclId Kind)
open Catalog (Pool)
open Identifier (Dictionary)

variable {ρ : Type}

/-- What a request asks for, if it asks for a declaration. -/
def Request.kind? : Request ρ → Option Kind
  | .type _ => none
  | .message .. => some .message
  | .enum .. => some .enum
  | .service .. => some .service

theorem Request.IsFor.kind? {c : Catalog ρ} {s : State ρ} {q : Request ρ} {t : ρ} {k : Kind} (h : q.IsFor c s t k) :
    q.kind? = some k := by
  cases h <;> rfl

/-- While a catalog is asked in that manner, a name belongs to classes of one kind. The condition on pools may be what
makes it so. -/
structure Discerning (c : Catalog ρ) (M : Manner ρ) (K : Pool ρ → Prop) : Prop extends Roams c M where
  start : K c.pool
  goes : ∀ p q, M.goes p q → K p → K q
  kind_unique : ∀ {p t t' k k'}, K p → M.stands p t → M.stands p t' → Suits c M.holder k t → Suits c M.holder k' t' →
    c.fullName t = c.fullName t' → k = k'

/-- What is noted is of the kind of its class, and so is what is referred to; parents are messages and list what
is nested in them. -/
structure Kinded (c : Catalog ρ) (M : Manner ρ) (K : Pool ρ → Prop) (s : State ρ) : Prop extends Filed s where
  pool : K s.pool
  noted : ∀ n id, s.find? n = some id → ∃ t k, c.fullName t = n ∧ Noted c M s k t id ∧ kindOf? s.schema id = some k
  reference : ∀ x y, .reference y ∈ s.schema.leavesOf x → Referable c M s y
  parent : ∀ x p, s.schema.parentOf? x = some p → kindOf? s.schema p = some .message ∧ x ∈ s.schema.nestedIn p

section Effects
variable {c : Catalog ρ} {M : Manner ρ} {K : Pool ρ → Prop} {lo hi : Nat} {s s' : State ρ} {n : String} {id x : DeclId}

theorem Kinded.kindOf? (h : Kinded c M K s) (hM : Discerning c M K) {k : Kind} {t : ρ} (hid : Noted c M s k t id) :
    kindOf? s.schema id = some k := by
  obtain ⟨t', k', hname, hid', hk'⟩ := h.noted _ id hid.found
  rwa [hM.kind_unique h.pool hid.stands hid'.stands hid.suits hid'.suits hname.symm]

/-- Declarations stay of their kinds. -/
theorem Turn.kindOf? (h : Turn c M s s') (hx : x < s.schema.size) :
    Recovery.kindOf? s'.schema x = Recovery.kindOf? s.schema x := by
  cases h with
  | still _ hplaces => exact hplaces.kind x
  | declare =>
    rw [State.declared, Recovery.kindOf?, Schema.outlineOf?_declare, if_neg hx.ne]
    rfl
  | nest => exact kindOf?_congr Schema.content_nest
  | openFile t halone => exact kindOf?_congr (content_openFile halone.nested halone.lt)

/-- What is noted was noted before, or has just been declared. -/
theorem Turn.found (h : Turn c M s s') (hs : Filed s) (hn : s'.find? n = some id) :
    s.find? n = some id ∨ ∃ t k, c.fullName t = n ∧ Noted c M s' k t id ∧ Recovery.kindOf? s'.schema id = some k := by
  cases h with
  | still hmemo => exact .inl (by rwa [State.find?, ← hmemo])
  | nest => exact .inl hn
  | openFile => exact .inl hn
  | @declare t k name b hsuits hstands =>
    rcases List.mem_append.1 (mem_of_find? hn) with hold | hnew
    · exact .inl (hs.find?_of_mem hold)
    · obtain ⟨rfl, rfl⟩ := Prod.mk.inj (List.mem_singleton.1 hnew)
      refine .inr ⟨t, k, rfl, ⟨hsuits, hstands, hn⟩, ?_⟩
      rw [State.declared, Recovery.kindOf?, Schema.outlineOf?_declare, if_pos rfl]
      simp

theorem Turn.parent (h : Turn c M s s') (hM : Discerning c M K) (hs : Kinded c M K s) {p : DeclId}
    (hp : s'.schema.parentOf? x = some p) : Recovery.kindOf? s'.schema p = some .message ∧ x ∈ s'.schema.nestedIn p := by
  have hturn := h
  -- What had a parent is still listed by it.
  have hold : ∀ p, s.schema.parentOf? x = some p → (∀ y ∈ s.schema.nestedIn p, y ∈ s'.schema.nestedIn p) →
      Recovery.kindOf? s'.schema p = some .message ∧ x ∈ s'.schema.nestedIn p := by
    intro p hp hlisted
    obtain ⟨hk, hx⟩ := hs.parent x p hp
    exact ⟨(hturn.kindOf? (hs.linked.parent_lt x p hp)).trans hk, hlisted x hx⟩
  cases h with
  | still _ hplaces => exact hold p (hplaces.parent x ▸ hp) fun _ hy => hplaces.nested p ▸ hy
  | declare =>
    exact hold p ((Schema.parentOf?_declare ..).symm.trans hp) fun _ hy => (Schema.nestedIn_declare ..).symm ▸ hy
  | openFile t halone =>
    exact hold p ((parentOf?_openFile halone.nested halone.lt).symm.trans hp) fun _ hy =>
      (nestedIn_openFile halone.nested halone.lt).symm ▸ hy
  | @nest owner parent id hloose haround =>
    have hk := hs.kindOf? hM haround
    have hnested : ∀ q, (s.schema.nest parent id).nestedIn q =
        if q = parent then s.schema.nestedIn q ++ [id] else s.schema.nestedIn q := fun _ => Schema.nestedIn_nest hk
    have hp : (s.schema.nest parent id).parentOf? x = some p := hp
    rw [Schema.parentOf?_nest hloose.lt] at hp
    split at hp
    · rename_i hx
      obtain rfl : parent = p := Option.some.inj hp
      refine ⟨(hturn.kindOf? (hs.lt haround.found)).trans hk, ?_⟩
      rw [State.changed, hnested, if_pos rfl, hx]
      simp
    · refine hold p hp fun y hy => ?_
      rw [State.changed, hnested]
      split
      · exact List.mem_append_left _ hy
      · exact hy

theorem kinded_of_effect (hM : Discerning c M K) (hs : Kinded c M K s) (he : Effect c M lo hi s s') :
    Kinded c M K s' where
  toFiled := filed_of_turn hs.toFiled he.turn
  pool := hM.goes _ _ (he.pool hM.toRoams) hs.pool
  noted n id hn := by
    rcases he.turn.found hs.toFiled hn with hold | hnew
    · obtain ⟨t, k, hname, hid, hk⟩ := hs.noted n id hold
      exact ⟨t, k, hname, he.noted hM.toRoams hid, (he.turn.kindOf? (hs.lt hold)).trans hk⟩
    · exact hnew
  reference x y hy := by
    rcases he.reference hy with hold | hnew
    · exact he.referable hM.toRoams (hs.reference x y hold)
    · exact he.referable hM.toRoams hnew
  parent _ _ := he.turn.parent hM hs

theorem kinded_start (hM : Discerning c M K) : Kinded c M K (start c) where
  toFiled := filed_start c
  pool := hM.start
  noted n id hn := by cases hn
  reference x y hy := by simp [start, Schema.leavesOf, Schema.outlineOf?] at hy
  parent x p hp := by simp [start, Schema.parentOf?] at hp

end Effects

/-! ## Sessions -/

/-- Kinds agree: whatever is asked for next is given as what it is asked for, fields and methods refer to messages and
enums only, and parents are messages that list what is nested in them. -/
structure KindsAgree [DecidableEq ρ] (c : Catalog ρ) (names : Option Dictionary) (holder : ρ → Prop) (s : State ρ) :
    Prop where
  given : ∀ (q : Request ρ) (id : DeclId) (s' : State ρ), q.Holds c holder s →
    outcome (q.run c names) s = (.ok (some id), s') → kindOf? s'.schema id = q.kind?
  reference : ∀ x y, .reference y ∈ s.schema.leavesOf x →
    kindOf? s.schema y = some .message ∨ kindOf? s.schema y = some .enum
  parent : ∀ x p, s.schema.parentOf? x = some p → kindOf? s.schema p = some .message ∧ x ∈ s.schema.nestedIn p

section Sessions
variable [DecidableEq ρ] {c : Catalog ρ} {M : Manner ρ} {K : Pool ρ → Prop} {names : Option Dictionary} {s : State ρ}

theorem kinded_of_attempted (hM : Discerning c M K) (h : Attempted c names M.holder s) : Kinded c M K s :=
  attempted_invariant h hM.toRoams (kinded_start hM) fun _ _ he hs => kinded_of_effect hM hs he

theorem kindsAgree_of_attempted (hM : Discerning c M K) (h : Attempted c names M.holder s) :
    KindsAgree c names M.holder s where
  given q id s' hq hrun := by
    have hmoves : Moves c M 0 0 (q.run c names) s _ :=
      moves_request hM.toRoams q hq (Nat.zero_le _) (Nat.zero_le _)
    obtain ⟨t, k, hfor, hnoted⟩ := hmoves.result (some id) (congrArg Prod.fst hrun) id rfl
    rw [hfor.kind?, ← (kinded_of_attempted hM (.step q h hq)).kindOf? hM hnoted, hrun]
  reference x y hy := by
    have hs := kinded_of_attempted hM h
    obtain ⟨t, hmessage | henum⟩ := hs.reference x y hy
    · exact .inl (hs.kindOf? hM hmessage)
    · exact .inr (hs.kindOf? hM henum)
  parent := (kinded_of_attempted hM h).parent

/-- Whatever a name is noted with is given to whoever asks for a message or an enum of that name. -/
theorem given_by_name (hM : Roams c .growing) {t : ρ} {k : Kind} {id : DeclId}
    (hself : (c.resolve t).run s.pool = (t, s.pool)) (hsuits : Suits c (fun _ => False) k t)
    (hfound : s.find? (c.fullName t) = some id) :
    ∃ q : Request ρ, q.kind? = some k ∧ outcome (q.run c names) s = (.ok (some id), s) := by
  have hanswer : s.answer (c.resolve t) = t := congrArg Prod.fst hself
  have hafter : Extends (s.after (c.resolve t)).pool s.pool := by
    rw [State.after, hself]
    exact .refl _
  cases k with
  | message =>
    have hfor : (Request.message t {}).IsFor c s (s.answer (c.resolve t)) .message := .message t {}
    rw [hanswer] at hfor
    exact ⟨.message t {}, rfl, outcome_again hM hfor hsuits hafter hfound {}⟩
  | enum =>
    have hfor : (Request.enum t {}).IsFor c s (s.answer (c.resolve t)) .enum := .enum t {}
    rw [hanswer] at hfor
    exact ⟨.enum t {}, rfl, outcome_again hM hfor hsuits hafter hfound {}⟩
  | service => exact hsuits.elim

end Sessions

/-! ## Libraries and stores -/

section Backends

open Managed (Keyed Library PlainHolder TypeRef mannerKeyed)
open Il2cpp (Handle Store)

/-- In a library a name belongs to one class, and messages are told from enums. -/
theorem discerning_library (lib : Library) : Discerning lib.catalog (mannerKeyed (PlainHolder lib)) Keyed where
  toRoams := Managed.roams_keyed lib _
  start := Managed.keyed_start lib
  goes _ _ h := h.2
  kind_unique {p t t' k k'} hp ht ht' hk hk' hname := by
    have ht := ht hp
    rw [show t.key = t'.key from hname, ht' hp] at ht
    obtain rfl := Option.some.inj ht
    have hme : lib.catalog.isMessage t' = true → lib.catalog.isEnum t' = false := Managed.not_enum_of_message
    cases k <;> cases k' <;> simp_all [Suits, PlainHolder]

/-- No name belongs to classes of two kinds. -/
def NamesTellKinds (c : Catalog ρ) (holder : ρ → Prop) : Prop :=
  ∀ t t' k k', Suits c holder k t → Suits c holder k' t' → c.fullName t = c.fullName t' → k = k'

theorem discerning_store {st : Store} {holder : Handle → Prop} (h : NamesTellKinds st.catalog holder) :
    Discerning st.catalog ⟨Extends, fun _ _ => True, holder⟩ fun _ => True where
  refl := .refl
  trans _ _ _ := .trans
  resolve := extends_resolve st.catalog
  methods _ := .refl
  properties _ := .refl
  found _ _ := trivial
  stays _ _ _ _ _ := trivial
  start := trivial
  goes _ _ _ _ := trivial
  kind_unique _ _ _ hk hk' hname := h _ _ _ _ hk hk' hname

/-- A service of a library that is named for a message or an enum can be had as such, too. -/
theorem given_as_other_kind {lib : Library} {names : Option Dictionary} {s s' : State TypeRef} {r : TypeRef}
    {options : Options} {id : DeclId} {classes : Classes TypeRef} (hs : Visited lib.catalog names s)
    (hrun : outcome ((Request.service r options).run lib.catalog names) s = (.ok (some id), s'))
    (hclasses : (s.after (lib.catalog.resolve r)).answer
      (classify lib.catalog (s.answer (lib.catalog.resolve r))).run = .ok classes)
    (hholder : ¬PlainHolder lib classes.holder) :
    ∃ (q : Request TypeRef) (k : Kind), q.kind? = some k ∧ k ≠ .service ∧
      outcome (q.run lib.catalog names) s' = (.ok (some id), s') := by
  have hM := Managed.roams_keyed lib fun _ => True
  have hmoves : Moves lib.catalog _ 0 0 ((Request.service r options).run lib.catalog names) s _ :=
    moves_request hM _ (holds_of_forall (fun _ => trivial) _) (Nat.zero_le _) (Nat.zero_le _)
  obtain ⟨_, _, hfor, hnoted⟩ := hmoves.result (some id) (congrArg Prod.fst hrun) id rfl
  have hvisited := Visited.step (Request.service r options) hs
  rw [hrun] at hnoted hvisited
  cases hfor with
  | service _ _ hclasses' =>
    cases hclasses.symm.trans hclasses'
    -- The class that the service is named for stands for itself, so it can be asked for.
    have hself : (lib.catalog.resolve classes.holder).run s'.pool = (classes.holder, s'.pool) :=
      Managed.resolve_of_found (hnoted.stands (Managed.keyed_of_visited hvisited))
    cases hmessage : lib.catalog.isMessage classes.holder with
    | true =>
      obtain ⟨q, hq, hrun'⟩ := given_by_name (k := .message) (Managed.roams_library lib) hself hmessage hnoted.found
      exact ⟨q, .message, hq, by decide, hrun'⟩
    | false =>
      have henum : lib.catalog.isEnum classes.holder = true := by
        by_contra henum
        exact hholder ⟨hmessage, Bool.eq_false_iff.2 henum⟩
      obtain ⟨q, hq, hrun'⟩ := given_by_name (k := .enum) (Managed.roams_library lib) hself henum hnoted.found
      exact ⟨q, .enum, hq, by decide, hrun'⟩

/-- In a library kinds agree as long as services are named for classes that are neither messages nor enums, and a
service that is not can be had as another kind. In a store they agree as long as names tell kinds. -/
theorem kinds_agree_of_plain_holders {names : Option Dictionary} :
    (∀ (lib : Library) (s : State TypeRef), Attempted lib.catalog names (PlainHolder lib) s →
      KindsAgree lib.catalog names (PlainHolder lib) s) ∧
    (∀ (lib : Library) (s s' : State TypeRef) (r : TypeRef) (options : Options) (id : DeclId) (classes : Classes TypeRef),
      Visited lib.catalog names s →
      outcome ((Request.service r options).run lib.catalog names) s = (.ok (some id), s') →
      (s.after (lib.catalog.resolve r)).answer
        (classify lib.catalog (s.answer (lib.catalog.resolve r))).run = .ok classes →
      ¬PlainHolder lib classes.holder →
      ∃ (q : Request TypeRef) (k : Kind), q.kind? = some k ∧ k ≠ .service ∧
        outcome (q.run lib.catalog names) s' = (.ok (some id), s')) ∧
    ∀ (st : Store) (holder : Handle → Prop) (s : State Handle), NamesTellKinds st.catalog holder →
      Attempted st.catalog names holder s → KindsAgree st.catalog names holder s :=
  ⟨fun lib _ => kindsAgree_of_attempted (discerning_library lib), fun _ _ _ _ _ _ _ => given_as_other_kind,
    fun _ _ _ h => kindsAgree_of_attempted (discerning_store h)⟩

/-- A message with a class in it, and a service with a server. -/
def lodging : Managed.Assembly where
  name := "App"
  types := Managed.Generated.Message.definitions { name := "Outer", namespaceName := some "App" } ++
    [{ name := "Inner", declaringType := some "App.Outer" },
     { name := "Greeter", namespaceName := some "App", isAbstract := true, isSealed := true },
     { name := "GreeterBase", declaringType := some "App.Greeter", isAbstract := true }]

/-- The assembly loaded. -/
def lodgingLibrary : Library := .ofAssemblies [lodging] []

/-- A service is asked for first. -/
def lodgingService (name : String) : Except Error (Option DeclId) × State TypeRef :=
  outcome (Request.run lodgingLibrary.catalog none (.service (.named name) {})) (start lodgingLibrary.catalog)

/-- The message is asked for next. -/
def lodgingMessage (name : String) : Except Error (Option DeclId) × State TypeRef :=
  outcome (Request.run lodgingLibrary.catalog none (.message (.named "App.Outer") {})) (lodgingService name).2

/-- A store with a sealed class and an enum. -/
def toneStore : Store :=
  .ofTables { definitions := [{ name := "Note", flags := 0x100 }, { name := "Tone", isEnum := true, isValueType := true }] }

theorem toneStore_has {p : Il2cpp.TypeRow → Bool} {t : Handle} (h : toneStore.definitionHas p t = true) :
    t = .definition 0 ∨ t = .definition 1 := by
  match t with
  | .definition 0 => exact .inl rfl
  | .definition 1 => exact .inr rfl
  | .definition (row + 2) => cases (show false = true from h)
  | .constructed entry => cases (show false = true from h)
  | .placeholder name => cases (show false = true from h)

theorem toneStore_suits {t : Handle} {k : Kind} (h : Suits toneStore.catalog (fun _ => False) k t) :
    (t = .definition 0 ∧ k = .message) ∨ (t = .definition 1 ∧ k = .enum) := by
  cases k with
  | message =>
    have hclass : toneStore.definitionHas (fun d => !d.isInterface && !d.isValueType) t = true :=
      (Bool.and_eq_true_iff.1 (Bool.and_eq_true_iff.1 h).1).1
    obtain rfl | rfl := toneStore_has hclass
    · exact .inl ⟨rfl, rfl⟩
    · cases (show false = true from hclass)
  | enum =>
    have henum : toneStore.definitionHas (·.isEnum) t = true := h
    obtain rfl | rfl := toneStore_has henum
    · cases (show false = true from henum)
    · exact .inr ⟨rfl, rfl⟩
  | service => exact h.elim

/-- A service that is named for its holder leaves messages what they are; and in the store, names tell kinds. -/
theorem kinds_agree_lodging :
    Attempted lodgingLibrary.catalog none (PlainHolder lodgingLibrary) (lodgingMessage "App.Greeter+GreeterBase").2 ∧
      KindsAgree lodgingLibrary.catalog none (PlainHolder lodgingLibrary) (lodgingMessage "App.Greeter+GreeterBase").2 ∧
      NamesTellKinds toneStore.catalog (fun _ => False) ∧
      KindsAgree toneStore.catalog none (fun _ => False) (start toneStore.catalog) := by
  have hholder : Request.Holds lodgingLibrary.catalog (PlainHolder lodgingLibrary) (start lodgingLibrary.catalog)
      (.service (.named "App.Greeter+GreeterBase") {}) :=
    Request.holds_service (t := .named "App.Greeter") (by decide +kernel) ⟨by decide +kernel, by decide +kernel⟩
  have hlodging : Attempted lodgingLibrary.catalog none (PlainHolder lodgingLibrary)
      (lodgingMessage "App.Greeter+GreeterBase").2 := .step _ (.step _ .start hholder) trivial
  have htone : NamesTellKinds toneStore.catalog (fun _ => False) := by
    intro t t' k k' hk hk' hname
    rcases toneStore_suits hk with ⟨rfl, rfl⟩ | ⟨rfl, rfl⟩ <;> rcases toneStore_suits hk' with ⟨rfl, rfl⟩ | ⟨rfl, rfl⟩ <;>
      first | rfl | (revert hname; decide)
  exact ⟨hlodging, kinds_agree_of_plain_holders.1 _ _ hlodging, htone, kinds_agree_of_plain_holders.2.2 _ _ _ htone .start⟩

/-- The class in the message is taken for the client of a service, and then the message is a service. -/
theorem service_given_as_message :
    Visited lodgingLibrary.catalog none (lodgingService "App.Outer+Inner").2 ∧
      (lodgingMessage "App.Outer+Inner").1 = .ok (some 0) ∧
      kindOf? (lodgingMessage "App.Outer+Inner").2.schema 0 = some .service ∧
      ¬KindsAgree lodgingLibrary.catalog none (fun _ => True) (lodgingService "App.Outer+Inner").2 := by
  have hgiven : (lodgingMessage "App.Outer+Inner").1 = .ok (some 0) := by decide +kernel
  have hkind : kindOf? (lodgingMessage "App.Outer+Inner").2.schema 0 = some .service := by decide +kernel
  refine ⟨.step _ .start, hgiven, hkind, fun h => ?_⟩
  have hmessage := h.given (.message (.named "App.Outer") {}) 0 (lodgingMessage "App.Outer+Inner").2 trivial
    (Prod.ext hgiven rfl)
  rw [hkind] at hmessage
  cases hmessage

end Backends

end ProtoRecovery.Recovery
