import ProtoRecovery.Proofs.Il2cpp.Access
import ProtoRecovery.Proofs.Recovery.Registry
/-!
# Definitions that share a full name

Definitions are types of their own even if they share a full name, but what is recovered is noted under the full name.
So two message definitions have one declaration just when they have one full name, and of the messages that are listed
no other is left out.
-/

namespace ProtoRecovery.Recovery

open Schema (DeclId)
open Identifier (Dictionary)

variable {ρ : Type} [DecidableEq ρ]

/-- Messages are asked for one after the other, each with options of its own, and all of them are given: the classes
with their declarations, and the state at the end. -/
inductive Given (c : Catalog ρ) (names : Option Dictionary) : List (ρ × DeclId) → State ρ → Prop
  | nothing : Given c names [] (start c)
  | next {calls : List (ρ × DeclId)} {s s' : State ρ} {t : ρ} {options : Options} {id : DeclId} :
      Given c names calls s → Gives (recoverMessage ⟨c, names, options⟩ t) s id s' →
      Given c names (calls ++ [(t, id)]) s'

section Given
variable {c : Catalog ρ} {names : Option Dictionary} {calls : List (ρ × DeclId)} {s s' : State ρ} {t t' : ρ}
  {id id' : DeclId}

theorem does_recoverMessage {options : Options} (h : Gives (recoverMessage ⟨c, names, options⟩ t) s id s') :
    Does c .anyhow 0 0 s s' ∧ Noted c .anyhow s' .message t id := by
  have hcalls := tracked_callsWithin ⟨c, names, options⟩ (roams_anyhow c) (depthFor c s t)
  exact (hcalls.message t trivial (Nat.zero_le _) (Nat.zero_le _)).of_gives (gives_recoverMessage.1 h)

theorem Given.noted (h : Given c names calls s) :
    Filed s ∧ ∀ call ∈ calls, Noted c .anyhow s .message call.1 call.2 := by
  induction h with
  | nothing => exact ⟨filed_start c, by simp⟩
  | @next calls s s' t _ id _ hgives ih =>
    obtain ⟨hfiled, hnoted⟩ := ih
    obtain ⟨hdoes, hnew⟩ := does_recoverMessage hgives
    refine ⟨hdoes.invariant hfiled fun _ _ he hs => filed_of_turn hs he.turn, fun call hcall => ?_⟩
    rcases List.mem_append.1 hcall with hold | hlast
    · exact hdoes.noted (roams_anyhow c) (hnoted call hold)
    · obtain rfl := List.mem_singleton.1 hlast
      exact hnew

/-- Two classes have one declaration just when they have one full name. -/
theorem Given.same_iff (h : Given c names calls s) (ht : (t, id) ∈ calls) (ht' : (t', id') ∈ calls) :
    id = id' ↔ c.fullName t = c.fullName t' := by
  obtain ⟨hfiled, hnoted⟩ := h.noted
  have hfound : s.find? (c.fullName t) = some id := (hnoted _ ht).found
  have hfound' : s.find? (c.fullName t') = some id' := (hnoted _ ht').found
  constructor
  · rintro rfl
    exact (hfiled.named (hfiled.lt hfound)).unique hfound hfound'
  · intro hname
    rw [hname] at hfound
    exact Option.some.inj (hfound.symm.trans hfound')

theorem Given.nodup_iff (h : Given c names calls s) :
    (calls.map Prod.snd).Nodup ↔ ((calls.map Prod.fst).map c.fullName).Nodup := by
  rw [List.map_map, List.Nodup, List.Nodup, List.pairwise_map, List.pairwise_map]
  refine List.Pairwise.iff_of_mem fun {call call'} hcall hcall' => ?_
  exact not_congr (h.same_iff hcall hcall')

end Given

end ProtoRecovery.Recovery

namespace ProtoRecovery.Il2cpp.Store

open Recovery (Given start)
open Schema (DeclId)
open Identifier (Dictionary)

/-- Only a row that is there has a class. -/
theorem exists_row_of_message {st : Store} {row : Nat} (h : st.catalog.isMessage (.definition row) = true) :
    ∃ d, st.tables.definitions[row]? = some d := by
  have hclass : st.definitionHas (fun d => !d.isInterface && !d.isValueType) (.definition row) = true :=
    (Bool.and_eq_true_iff.1 (Bool.and_eq_true_iff.1 h).1).1
  cases hd : st.tables.definitions[row]? with
  | none =>
    rw [definitionHas_definition, hd] at hclass
    cases hclass
  | some d => exact ⟨d, rfl⟩

theorem fullName_definition {t : Tables} {st : Store} (h : load t = .ok st) {row : Nat} {d : TypeRow}
    (hd : t.definitions[row]? = some d) : st.fullName (.definition row) = t.fullNameOf d := by
  obtain ⟨-, rfl⟩ := load_eq_ok.1 h
  simp [fullName, fullName?, ofTables, hd]

/-- Message definitions have one declaration just when they have one full name; and if all messages that are listed are
recovered, each has a declaration of its own just when no two of them share a full name. -/
theorem same_declaration_iff_same_name {t : Tables} {st : Store} (hload : load t = .ok st)
    {names : Option Dictionary} {calls : List (Handle × DeclId)} {s : Recovery.State Handle}
    (h : Given st.catalog names calls s) :
    (∀ i j a b, (.definition i, a) ∈ calls → (.definition j, b) ∈ calls →
      (a = b ↔ (t.definitions[i]?).map t.fullNameOf = (t.definitions[j]?).map t.fullNameOf)) ∧
    ∀ listed, (start st.catalog).answer st.catalog.messages.run = .ok listed → calls.map Prod.fst = listed →
      ((calls.map Prod.snd).Nodup ↔ (listed.map st.catalog.fullName).Nodup) := by
  constructor
  · intro i j a b ha hb
    have htables := tables_of_load hload
    obtain ⟨d, hd⟩ := exists_row_of_message (h.noted.2 _ ha).suits
    obtain ⟨d', hd'⟩ := exists_row_of_message (h.noted.2 _ hb).suits
    rw [htables] at hd hd'
    have hname : st.catalog.fullName (.definition i) = t.fullNameOf d := fullName_definition hload hd
    have hname' : st.catalog.fullName (.definition j) = t.fullNameOf d' := fullName_definition hload hd'
    rw [h.same_iff ha hb, hname, hname', hd, hd', Option.map_some, Option.map_some, Option.some.injEq]
  · rintro listed - rfl
    exact h.nodup_iff

/-! ## Two orders and an item -/

/-- Three messages of two images; two of them are called `App.Order`. -/
def orderTables : Tables where
  version := .ofInt 29
  images := [⟨"Google.Protobuf.dll", ⟨0, 1⟩, {}⟩, ⟨"App.dll", ⟨1, 1⟩, {}⟩, ⟨"Shop.dll", ⟨2, 2⟩, {}⟩]
  definitions := [
    { name := "IMessage", namespaceName := "Google.Protobuf", flags := 0xA0 },
    { name := "Order", namespaceName := "App", flags := 0x100, interfaces := ⟨0, 1⟩ },
    { name := "Order", namespaceName := "App", flags := 0x100, interfaces := ⟨0, 1⟩ },
    { name := "Item", namespaceName := "App", flags := 0x100, interfaces := ⟨0, 1⟩ }]
  interfaces := [0]
  entries := [⟨0x12, 0, .definition 0⟩]

/-- The tables loaded. -/
def orderStore : Store := .ofTables orderTables

/-- A definition is asked for in a state. -/
def orderCall (s : Recovery.State Handle) (row : Nat) : Except Error DeclId × Recovery.State Handle :=
  Recovery.outcome (Recovery.recoverMessage ⟨orderStore.catalog, none, {}⟩ (.definition row)) s

/-- The state after the three messages have been asked for. -/
def orderEnd : Recovery.State Handle := (orderCall (orderCall (orderCall (start orderStore.catalog) 1).2 2).2 3).2

theorem given_orders :
    Given orderStore.catalog none [(.definition 1, 0), (.definition 2, 0), (.definition 3, 1)] orderEnd := by
  have hfirst : (orderCall (start orderStore.catalog) 1).1.toOption = some 0 := by decide +kernel
  have hsecond : (orderCall (orderCall (start orderStore.catalog) 1).2 2).1.toOption = some 0 := by decide +kernel
  have hthird : (orderCall (orderCall (orderCall (start orderStore.catalog) 1).2 2).2 3).1.toOption = some 1 := by
    decide +kernel
  exact ((Given.nothing.next (Recovery.gives_of_outcome hfirst)).next (Recovery.gives_of_outcome hsecond)).next
    (Recovery.gives_of_outcome hthird)

/-- The first order and the item have declarations of their own, as their names differ. -/
theorem same_declaration_iff_same_name_orders :
    load orderTables = .ok orderStore ∧
      Given orderStore.catalog none [(.definition 1, 0), (.definition 2, 0), (.definition 3, 1)] orderEnd ∧
      ((0 : DeclId) = 1 ↔ (orderTables.definitions[1]?).map orderTables.fullNameOf =
        (orderTables.definitions[3]?).map orderTables.fullNameOf) :=
  ⟨rfl, given_orders, (same_declaration_iff_same_name rfl given_orders).1 1 3 0 1 (by decide) (by decide)⟩

/-- Both orders are listed, and asked for one after the other they get one declaration. -/
theorem second_order_dropped :
    load orderTables = .ok orderStore ∧ Handle.definition 1 ≠ .definition 2 ∧
      ((start orderStore.catalog).answer orderStore.catalog.messages.run).toOption =
        some [.definition 1, .definition 2, .definition 3] ∧
      ∃ s, Given orderStore.catalog none [(.definition 1, 0), (.definition 2, 0), (.definition 3, 1)] s :=
  ⟨rfl, by decide, by decide +kernel, orderEnd, given_orders⟩

end ProtoRecovery.Il2cpp.Store
