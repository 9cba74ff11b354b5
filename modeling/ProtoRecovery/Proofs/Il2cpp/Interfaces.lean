import ProtoRecovery.Proofs.Command.Candidates
/-!
# Interfaces of interfaces

Whether values of one definition are values of another is searched for from base to base, and each of these is asked for
the interfaces that it lists. The interfaces themselves are asked for nothing. So what an interface extends is found only
where the class lists that as well: only then a class that has an interface has all that the interface has.
-/

namespace ProtoRecovery.Il2cpp.Store

open Relation (ReflTransGen)
open Catalog (messageMarker)
open Command (Screened)
open Recovery (State start)

variable {s : Store} {a b c i j x row target : Nat} {d : TypeRow}

/-! ## Bases and interfaces of definitions -/

/-- The definition of the base. -/
def baseRow? (s : Store) (row : Nat) : Option Nat := do
  let d ← s.tables.definitions[row]?
  (← s.rowOfEntry? (← position? d.parent))

/-- The definitions of the interfaces that a definition lists. -/
def interfaceRows (s : Store) (row : Nat) : List Nat :=
  match s.tables.definitions[row]? with
  | none => []
  | some d => ((d.interfaces.rows? s.tables.interfaces).getD []).filterMap fun entry => (s.rowOfEntry? entry).join

/-- The definition that so many steps from base to base lead to. -/
def ancestor? (s : Store) : (steps : Nat) → (row : Nat) → Option Nat
  | 0, row => some row
  | steps + 1, row => (s.baseRow? row).bind (s.ancestor? steps)

/-- No chain of bases goes on for as many steps as are followed. -/
def Shallow (s : Store) : Prop := ∀ row < s.tables.definitions.length, s.ancestor? chainLimit row = none

/-- A definition is the base of another or one of the interfaces that it lists. -/
def Above (s : Store) (row above : Nat) : Prop := s.baseRow? row = some above ∨ above ∈ s.interfaceRows row

/-- A definition, or one of its bases, is another one or lists it. -/
def Attains (s : Store) (row target : Nat) : Prop :=
  ∃ steps x, s.ancestor? steps row = some x ∧ (x = target ∨ target ∈ s.interfaceRows x)

/-- The catalog says that values of one definition are values of another. -/
def Assignable (s : Store) (a b : Nat) : Prop :=
  ((s.catalog.isAssignable (.definition a) (.definition b)).run s.catalog.pool).1 = true

/-- A definition that lists an interface attains what that interface extends. -/
def Complete (s : Store) : Prop := ∀ a i j, i ∈ s.interfaceRows a → s.Above i j → s.Attains a j

instance : Decidable s.Shallow := Nat.decidableBallLT _ _

instance : Decidable (s.Assignable a b) := inferInstanceAs (Decidable (_ = true))

theorem mem_iff_of_mapM_eq_some {α β : Type} {f : α → Option β} {l : List α} {bs : List β} (h : l.mapM f = some bs)
    (b : β) : b ∈ bs ↔ ∃ a ∈ l, f a = some b := by
  induction l generalizing bs with
  | nil =>
    obtain rfl := Option.some.inj h
    simp
  | cons a rest ih =>
    rw [List.mapM_cons] at h
    obtain ⟨x, hx, h⟩ := Option.bind_eq_some_iff.1 h
    obtain ⟨xs, hxs, h⟩ := Option.bind_eq_some_iff.1 h
    obtain rfl := Option.some.inj h
    simp [ih hxs, hx, eq_comm]

/-- The entries that a definition lists are there, and those that stand for definitions do so for ones that are there. -/
theorem found_interfaces (hs : s.Checked) (hd : s.tables.definitions[row]? = some d) :
    Found (d.interfaces.rows? s.tables.interfaces) fun entries => ∀ e ∈ entries,
      Found (s.rowOfEntry? e) fun above? => ∀ x, above? = some x → x < s.tables.definitions.length := by
  have hsound := hs.tables.definitions d (List.mem_of_getElem? hd)
  refine (Run.found_rows hsound.interfaces).mono fun entries hentries e he => ?_
  exact found_row_of_entry hs (hs.tables.interfaces e (hentries.1 e he))

theorem found_implements_iff (hs : s.Checked) (hd : s.tables.definitions[row]? = some d) (target : Nat) :
    Found (s.implements? d target) (· = true ↔ target ∈ s.interfaceRows row) := by
  obtain ⟨entries, hentries, hfound⟩ := found_interfaces hs hd
  obtain ⟨rows, hrows, -⟩ := found_mapM hfound
  unfold implements?
  rw [hentries]
  refine Found.bind (found_some rfl) ?_
  rintro _ rfl
  refine Found.bind (P := (· = rows)) ⟨rows, hrows, rfl⟩ ?_
  rintro _ rfl
  refine found_some ?_
  rw [List.contains_iff_mem, mem_iff_of_mapM_eq_some hrows]
  simp [interfaceRows, hd, hentries, List.mem_filterMap, Option.join_eq_some_iff]

/-! ## The search from base to base -/

theorem exists_ancestor_lt_succ {limit : Nat} {P : Nat → Prop} :
    (∃ steps < limit + 1, ∃ x, s.ancestor? steps row = some x ∧ P x) ↔
      P row ∨ ∃ above, s.baseRow? row = some above ∧ ∃ steps < limit, ∃ x, s.ancestor? steps above = some x ∧ P x := by
  constructor
  · rintro ⟨steps, hsteps, x, hx, hP⟩
    cases steps with
    | zero =>
      obtain rfl := Option.some.inj hx
      exact .inl hP
    | succ steps =>
      obtain ⟨above, habove, hx⟩ := Option.bind_eq_some_iff.1 hx
      exact .inr ⟨above, habove, steps, Nat.lt_of_succ_lt_succ hsteps, x, hx, hP⟩
  · rintro (hP | ⟨above, habove, steps, hsteps, x, hx, hP⟩)
    · exact ⟨0, Nat.succ_pos _, row, rfl, hP⟩
    · exact ⟨steps + 1, Nat.succ_lt_succ hsteps, x, by rw [ancestor?, habove]; exact hx, hP⟩

theorem found_reaches_iff (hs : s.Checked) (target limit : Nat) (h : row < s.tables.definitions.length) :
    Found (s.reaches? target limit row) (· = true ↔
      ∃ steps < limit, ∃ x, s.ancestor? steps row = some x ∧ (x = target ∨ target ∈ s.interfaceRows x)) := by
  induction limit generalizing row with
  | zero => exact found_some (by simp)
  | succ limit ih =>
    obtain ⟨d, hd, hmem⟩ := found_getElem h
    have hsound := hs.tables.definitions d hmem
    rw [exists_ancestor_lt_succ]
    unfold reaches?
    split
    · rename_i heq
      exact found_some (by simp [heq])
    · rename_i hne
      rw [hd]
      refine Found.bind (found_some rfl) ?_
      rintro _ rfl
      refine (found_implements_iff hs hd target).bind fun implemented himplemented => ?_
      cases implemented with
      | true => exact found_some (by simp [himplemented.1 rfl])
      | false =>
        have hlists : target ∉ s.interfaceRows row := fun hmem => Bool.false_ne_true (himplemented.2 hmem)
        simp only [hne, hlists, or_self, false_or]
        rw [if_neg Bool.false_ne_true]
        cases hparent : position? d.parent with
        | none => exact found_some (by simp [baseRow?, hd, hparent])
        | some parent =>
          obtain ⟨above?, hrow, hlt⟩ := found_row_of_entry hs (lt_of_isWithin hsound.parent hparent)
          have hbase : s.baseRow? row = above? := by simp [baseRow?, hd, hparent, hrow]
          rw [hbase]
          dsimp only
          rw [hrow]
          refine Found.bind (found_some rfl) ?_
          rintro _ rfl
          cases above? with
          | none => exact found_some (by simp)
          | some above => exact (ih (hlt above rfl)).mono fun _ hfound => hfound.trans (by simp)

theorem ancestor?_add (m n row : Nat) : s.ancestor? (m + n) row = (s.ancestor? m row).bind (s.ancestor? n) := by
  induction m generalizing row with
  | zero => rw [Nat.zero_add, ancestor?, Option.bind_some]
  | succ m ih =>
    rw [Nat.succ_add, ancestor?, ancestor?]
    cases s.baseRow? row with
    | none => rfl
    | some above => exact ih above

theorem Shallow.lt (h : s.Shallow) (hrow : row < s.tables.definitions.length) {steps : Nat}
    (hx : s.ancestor? steps row = some x) : steps < chainLimit := by
  by_contra hle
  obtain ⟨more, rfl⟩ := Nat.exists_eq_add_of_le (Nat.le_of_not_lt hle)
  rw [ancestor?_add, h row hrow] at hx
  cases hx

/-- Where chains of bases end in time, the search finds what a definition attains. -/
theorem assignable_iff_attains (hs : s.Checked) (h : s.Shallow) (ha : a < s.tables.definitions.length) :
    s.Assignable a b ↔ s.Attains a b := by
  show (s.isAssignable? (.definition a) (.definition b)).getD false = true ↔ _
  unfold isAssignable?
  split
  · rename_i heq
    obtain rfl := Handle.definition.inj heq
    exact ⟨fun _ => ⟨0, a, rfl, .inl rfl⟩, fun _ => rfl⟩
  · obtain ⟨answer, hanswer, hiff⟩ := found_reaches_iff hs b chainLimit ha
    show (s.reaches? b chainLimit a).getD false = true ↔ _
    rw [hanswer, Option.getD_some, hiff]
    constructor
    · rintro ⟨steps, -, x, hx, hmeets⟩
      exact ⟨steps, x, hx, hmeets⟩
    · rintro ⟨steps, x, hx, hmeets⟩
      exact ⟨steps, h.lt ha hx, x, hx, hmeets⟩

/-! ## From definition to definition -/

theorem attains_of_above (h : s.Above a b) : s.Attains a b := by
  rcases h with hbase | hlists
  · exact ⟨1, b, by rw [ancestor?, hbase]; rfl, .inl rfl⟩
  · exact ⟨0, a, rfl, .inr hlists⟩

/-- A definition attains what its bases attain. -/
theorem attains_of_ancestor {steps : Nat} (hb : s.ancestor? steps a = some b) (h : s.Attains b c) : s.Attains a c := by
  obtain ⟨more, x, hx, hmeets⟩ := h
  exact ⟨steps + more, x, by rw [ancestor?_add, hb]; exact hx, hmeets⟩

theorem Attains.path (h : s.Attains a b) : ReflTransGen s.Above a b := by
  obtain ⟨steps, x, hx, hmeets⟩ := h
  induction steps generalizing a with
  | zero =>
    obtain rfl := Option.some.inj hx
    rcases hmeets with rfl | hlists
    · exact .refl
    · exact .single (.inr hlists)
  | succ steps ih =>
    obtain ⟨above, habove, hx⟩ := Option.bind_eq_some_iff.1 hx
    exact .head (.inl habove) (ih hx)

/-- One more step: from a base of the definition, or from an interface that one of its bases lists. -/
theorem Complete.step (h : s.Complete) (hb : s.Attains a b) (hc : s.Above b c) : s.Attains a c := by
  obtain ⟨steps, x, hx, rfl | hlists⟩ := hb
  · exact attains_of_ancestor hx (attains_of_above hc)
  · exact attains_of_ancestor hx (h x b c hlists hc)

/-- Where interfaces are listed with what they extend, a definition attains all that any steps upwards lead to. -/
theorem Complete.attains_iff (h : s.Complete) : s.Attains a b ↔ ReflTransGen s.Above a b := by
  refine ⟨Attains.path, fun hpath => ?_⟩
  induction hpath with
  | refl => exact ⟨0, a, rfl, .inl rfl⟩
  | tail _ hstep ih => exact h.step ih hstep

theorem lt_of_above (hs : s.Checked) (h : s.Above a b) :
    a < s.tables.definitions.length ∧ b < s.tables.definitions.length := by
  rcases h with hbase | hlists
  · obtain ⟨d, hd, hbase⟩ := Option.bind_eq_some_iff.1 hbase
    obtain ⟨parent, hparent, hbase⟩ := Option.bind_eq_some_iff.1 hbase
    obtain ⟨above?, hrow, rfl⟩ := Option.bind_eq_some_iff.1 hbase
    have hsound := hs.tables.definitions d (List.mem_of_getElem? hd)
    obtain ⟨_, hfound, hlt⟩ := found_row_of_entry hs (lt_of_isWithin hsound.parent hparent)
    obtain rfl := Option.some.inj (hrow.symm.trans hfound)
    exact ⟨(List.getElem?_eq_some_iff.1 hd).1, hlt b rfl⟩
  · unfold interfaceRows at hlists
    split at hlists
    · cases hlists
    · rename_i d hd
      obtain ⟨entries, hentries, hfound⟩ := found_interfaces hs hd
      rw [hentries, Option.getD_some, List.mem_filterMap] at hlists
      obtain ⟨entry, hentry, hrow⟩ := hlists
      obtain ⟨above?, habove, hlt⟩ := hfound entry hentry
      rw [habove] at hrow
      exact ⟨(List.getElem?_eq_some_iff.1 hd).1, hlt b hrow⟩

theorem lt_of_ancestor (hs : s.Checked) (ha : a < s.tables.definitions.length) {steps : Nat}
    (hb : s.ancestor? steps a = some b) : b < s.tables.definitions.length := by
  induction steps generalizing a with
  | zero => exact Option.some.inj hb ▸ ha
  | succ steps ih =>
    obtain ⟨above, habove, hb⟩ := Option.bind_eq_some_iff.1 hb
    exact ih (lt_of_above hs (.inl habove)).2 hb

/-! ## Candidates for messages -/

theorem select_pure {ρ : Type} {test : ρ → Catalog.Search ρ Bool} {keep : ρ → Bool} (h : ∀ t, test t = pure (keep t))
    (types : List ρ) : Catalog.select test types = pure (types.filter keep) := by
  induction types with
  | nil => rfl
  | cons t rest ih =>
    rw [Catalog.select, h, pure_bind, ih, pure_bind]
    cases hkeep : keep t <;> simp [hkeep]

theorem fullName_eq_getElem (h : row < s.fullNames.length) :
    s.catalog.fullName (.definition row) = s.fullNames[row] := by
  show (s.fullNames[row]?).getD "" = _
  rw [List.getElem?_eq_getElem h, Option.getD_some]

theorem find_loaded (hs : s.Checked) {name : String} (h : s.rowOf? name = some row) :
    s.catalog.loaded.find? (s.catalog.fullName · == name) = some (.definition row) := by
  obtain ⟨hlt, hname, hbefore⟩ := List.findIdx?_eq_some_iff_getElem.1 h
  have hfirst : (List.range s.tables.definitions.length).find? ((s.catalog.fullName · == name) ∘ .definition) =
      some row := by
    refine List.find?_range_eq_some.2 ⟨?_, List.mem_range.2 (hs.fullNames ▸ hlt), fun j hj => ?_⟩
    · rw [Function.comp_apply, fullName_eq_getElem hlt]
      exact hname
    · rw [Function.comp_apply, fullName_eq_getElem (hj.trans hlt)]
      simpa using hbefore j hj
  show List.find? _ (List.map _ _) = _
  rw [List.find?_map, hfirst]
  rfl

theorem messages_eq (hs : s.Checked) (h : s.rowOf? messageMarker.fullName = some row) :
    s.catalog.messages = pure (s.catalog.loaded.filter fun x =>
      !(s.catalog.isNested x || !s.catalog.isSealed x || (s.catalog.namespaceName? x).any Catalog.isRuntime) &&
        (s.isAssignable? x (.definition row)).getD false) := by
  have hmarker : s.catalog.markerType messageMarker = pure (.definition row) := by
    unfold Catalog.markerType
    rw [find_loaded hs h]
  unfold Catalog.messages
  rw [hmarker, pure_bind]
  refine select_pure (fun x => ?_) _
  unfold Catalog.isMessageCandidate
  split
  · rename_i hout
    simp [hout]
  · rename_i hin
    simp only [Bool.not_eq_true] at hin
    rw [hin]
    rfl

/-- The classes listed for messages are those that the screen lets pass and that are assignable to the marker. -/
theorem answer_messages (hs : s.Checked) (h : s.rowOf? messageMarker.fullName = some row) (st : State Handle) :
    ∃ listed, st.answer s.catalog.messages.run = .ok listed ∧
      ∀ a, .definition a ∈ listed ↔
        a < s.tables.definitions.length ∧ Screened s.catalog (.definition a) ∧ s.Assignable a row := by
  rw [messages_eq hs h]
  refine ⟨_, rfl, fun a => ?_⟩
  have hloaded : (.definition a) ∈ s.catalog.loaded ↔ a < s.tables.definitions.length := by
    simp [catalog]
  rw [List.mem_filter, hloaded]
  simp only [Bool.and_eq_true, Bool.not_eq_true', Bool.or_eq_false_iff, Bool.not_eq_false']
  constructor
  · rintro ⟨ha, ⟨⟨hnested, hsealed⟩, hruntime⟩, hassignable⟩
    exact ⟨ha, ⟨hsealed, hnested, hruntime⟩, hassignable⟩
  · rintro ⟨ha, ⟨hsealed, hnested, hruntime⟩, hassignable⟩
    exact ⟨ha, ⟨⟨hnested, hsealed⟩, hruntime⟩, hassignable⟩

/-! ## Steps in a row -/

/-- Where chains of bases end in time, being assignable is transitive just when interfaces are listed with what they
extend, and then it is what any steps upwards lead to. After steps from base to base it always is. And a class that is
otherwise fit for a message is listed just when it attains the marker. -/
theorem assignable_trans_iff_complete {t : Tables} (hload : load t = .ok s) (hshallow : s.Shallow) :
    ((∀ a < t.definitions.length, ∀ b < t.definitions.length, ∀ c < t.definitions.length,
        s.Assignable a b → s.Assignable b c → s.Assignable a c) ↔ s.Complete) ∧
      (s.Complete → ∀ a < t.definitions.length, ∀ b, s.Assignable a b ↔ ReflTransGen s.Above a b) ∧
      (∀ a < t.definitions.length, ∀ b steps, s.ancestor? steps a = some b →
        ∀ c, s.Assignable b c → s.Assignable a c) ∧
      ∀ marker, s.rowOf? messageMarker.fullName = some marker → ∀ st : State Handle,
        ∃ listed, st.answer s.catalog.messages.run = .ok listed ∧
          ∀ a, .definition a ∈ listed ↔
            a < t.definitions.length ∧ Screened s.catalog (.definition a) ∧ s.Attains a marker := by
  have hs := checked_of_load hload
  obtain rfl := tables_of_load hload
  have hiff : ∀ a < s.tables.definitions.length, ∀ b, s.Assignable a b ↔ s.Attains a b :=
    fun a ha b => assignable_iff_attains hs hshallow ha
  refine ⟨⟨fun htrans a i j hi hj => ?_, fun hcomplete a ha b hb c _ hab hbc => ?_⟩, fun hcomplete a ha b => ?_,
    fun a ha b steps hb c hbc => ?_, fun marker hmarker st => ?_⟩
  · obtain ⟨ha, hi'⟩ := lt_of_above hs (.inr hi)
    have hai := (hiff a ha i).2 (attains_of_above (.inr hi))
    have hij := (hiff i hi' j).2 (attains_of_above hj)
    exact (hiff a ha j).1 (htrans a ha i hi' j (lt_of_above hs hj).2 hai hij)
  · rw [hiff a ha, hcomplete.attains_iff] at hab ⊢
    rw [hiff b hb, hcomplete.attains_iff] at hbc
    exact hab.trans hbc
  · exact (hiff a ha b).trans hcomplete.attains_iff
  · exact (hiff a ha c).2 (attains_of_ancestor hb ((hiff b (lt_of_ancestor hs ha hb) c).1 hbc))
  · obtain ⟨listed, hlisted, hmem⟩ := answer_messages hs hmarker st
    refine ⟨listed, hlisted, fun a => (hmem a).trans ?_⟩
    exact and_congr_right fun ha => and_congr_right fun _ => hiff a ha marker

/-- The marker, an interface that extends it, an abstract class that lists the interface, and the marker as well if two
are listed, and a class on top of it. -/
def documentTables (listed : Nat) : Tables where
  version := .ofInt 29
  images := [⟨"App.dll", ⟨0, 4⟩, {}⟩]
  definitions := [
    { name := "IMessage", namespaceName := "Google.Protobuf", flags := 0xA0 },
    { name := "IDocument", namespaceName := "App", flags := 0xA0, interfaces := ⟨0, 1⟩ },
    { name := "Document", namespaceName := "App", flags := 0x80, interfaces := ⟨1, listed⟩ },
    { name := "Order", namespaceName := "App", flags := 0x100, parent := 2 }]
  interfaces := [0, 1, 0]
  entries := [⟨0x12, 0, .definition 0⟩, ⟨0x12, 0, .definition 1⟩, ⟨0x12, 0, .definition 2⟩]

/-- The tables loaded. -/
def documentStore (listed : Nat) : Store := .ofTables (documentTables listed)

theorem complete_documentStore : (documentStore 2).Complete := by
  -- nothing is above the marker, and only the marker is above the interface that extends it
  have hmarker : ∀ j, ¬(documentStore 2).Above 0 j := by
    rintro j (hbase | hlists)
    · exact Option.some_ne_none j hbase.symm
    · exact List.not_mem_nil (hlists : j ∈ [])
  have hdocument : ∀ j, (documentStore 2).Above 1 j → j = 0 := by
    rintro j (hbase | hlists)
    · exact absurd hbase.symm (Option.some_ne_none j)
    · exact List.mem_singleton.1 (hlists : j ∈ [0])
  rintro (_ | _ | _ | _ | a) i j hi hj
  · exact absurd (hi : i ∈ []) List.not_mem_nil
  · obtain rfl := List.mem_singleton.1 (hi : i ∈ [0])
    exact absurd hj (hmarker j)
  · rcases List.mem_pair.1 (hi : i ∈ [1, 0]) with rfl | rfl
    · obtain rfl := hdocument j hj
      exact ⟨0, 2, rfl, .inr (by decide +kernel)⟩
    · exact absurd hj (hmarker j)
  · exact absurd (hi : i ∈ []) List.not_mem_nil
  · exact absurd (hi : i ∈ []) List.not_mem_nil

/-- With the marker listed as well, the class has it and may be a message. -/
theorem documents_assignable_trans :
    load (documentTables 2) = .ok (documentStore 2) ∧ (documentStore 2).Shallow ∧ (documentStore 2).Complete ∧
      (documentStore 2).Assignable 3 1 ∧ (documentStore 2).Assignable 1 0 ∧ (documentStore 2).Assignable 3 0 ∧
      ∃ listed, (start (documentStore 2).catalog).answer (documentStore 2).catalog.messages.run = .ok listed ∧
        .definition 3 ∈ listed := by
  have hload : load (documentTables 2) = .ok (documentStore 2) := rfl
  have hshallow : (documentStore 2).Shallow := by decide +kernel
  have hlower : (documentStore 2).Assignable 3 1 := by decide +kernel
  have hupper : (documentStore 2).Assignable 1 0 := by decide +kernel
  obtain ⟨htrans, -, -, hmessages⟩ := assignable_trans_iff_complete hload hshallow
  obtain ⟨listed, hlisted, hmem⟩ := hmessages 0 (by decide +kernel) (start (documentStore 2).catalog)
  refine ⟨hload, hshallow, complete_documentStore, hlower, hupper, ?_, listed, hlisted, (hmem 3).2 ⟨?_, ?_, ?_⟩⟩
  · exact htrans.2 complete_documentStore 3 (by decide) 1 (by decide) 0 (by decide) hlower hupper
  · decide
  · constructor <;> decide +kernel
  · exact ⟨1, 2, rfl, .inr (by decide +kernel)⟩

/-- The same types in an assembly. -/
def documentAssembly : Managed.Assembly where
  name := "App"
  types := [
    { name := "IMessage", namespaceName := some "Google.Protobuf", isInterface := true, isAbstract := true },
    { name := "IDocument", namespaceName := some "App", interfaces := [.named "Google.Protobuf.IMessage"],
      isInterface := true, isAbstract := true },
    { name := "Document", namespaceName := some "App", interfaces := [.named "App.IDocument"], isAbstract := true },
    { name := "Order", namespaceName := some "App", baseType := some (.named "App.Document"), isSealed := true }]

/-- The assembly loaded. -/
def documentLibrary : Managed.Library := .ofAssemblies [documentAssembly] []

/-- Without it, the class has the interface and the interface has the marker, but the class has not, and only a library
lists it for a message. -/
theorem document_marker_missed :
    load (documentTables 1) = .ok (documentStore 1) ∧ (documentStore 1).Shallow ∧
      (documentStore 1).Assignable 3 1 ∧ (documentStore 1).Assignable 1 0 ∧ ¬(documentStore 1).Assignable 3 0 ∧
      (start (documentStore 1).catalog).answer (documentStore 1).catalog.messages.run = .ok [] ∧
      Managed.Library.load [documentAssembly] [] = .ok documentLibrary ∧
      (start documentLibrary.catalog).answer documentLibrary.catalog.messages.run = .ok [.named "App.Order"] := by
  refine ⟨rfl, ?_, ?_, ?_, ?_, ?_, rfl, ?_⟩ <;> decide +kernel

end ProtoRecovery.Il2cpp.Store
