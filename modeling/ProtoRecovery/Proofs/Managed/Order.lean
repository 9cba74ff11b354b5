import ProtoRecovery.Proofs.Managed.Closure
/-!
# The order of requests does not matter

Two sessions that ask for the same classes in another order meet them at other times and declare them at other
positions. Both end well or neither does, and then they hold the same declarations in the same places.
-/

namespace ProtoRecovery.Managed

open Recovery (Options State start)
open Schema (Alike DeclId)

/-- Where the classes of one session are declared in the state of another. -/
def moved (new : List TypeRef) (s : State TypeRef) (i : DeclId) : DeclId := ((new[i]?).map (refIn s)).getD 0

variable {R : Reader} {roots roots' new new' : List TypeRef} {s s' : State TypeRef}

section Sessions
variable (h : Declares R roots new s) (h' : Declares R roots' new' s') (hroots : ∀ r, r ∈ roots ↔ r ∈ roots')
  {i : DeclId} {t u : TypeRef}
include h h' hroots

theorem mem_new_iff : u ∈ new ↔ u ∈ new' := by
  rw [h.mem_iff, h'.mem_iff]
  simp only [hroots]

theorem perm_new : new.Perm new' :=
  (List.perm_ext_iff_of_nodup h.nodup h'.nodup).2 fun _ => mem_new_iff h h' hroots

/-- A class is at another position, and is the same. -/
theorem getElem?_moved (hi : new[i]? = some t) : new'[moved new s' i]? = some t := by
  rw [moved, hi, Option.map_some]
  exact h'.getElem?_refIn ((mem_new_iff h h' hroots).1 (List.mem_of_getElem? hi))

theorem find?_moved {n : String} (hn : s.find? n = some i) : s'.find? n = some (moved new s' i) := by
  obtain ⟨t, ht, rfl⟩ := h.of_find? hn
  exact h'.find? (getElem?_moved h h' hroots ht)

theorem refIn_moved (hu : u ∈ new) : refIn s' u = moved new s' (refIn s u) := by
  obtain ⟨j, hj⟩ := List.mem_iff_getElem?.1 hu
  rw [h.refIn hj, h'.refIn (getElem?_moved h h' hroots hj)]

theorem bijOn_moved : Set.BijOn (moved new s') {i | i < s.schema.size} {i | i < s'.schema.size} := by
  refine ⟨fun i hi => ?_, fun i hi j hj hij => ?_, fun j hj => ?_⟩
  · obtain ⟨t, ht⟩ := h.exists_class hi
    exact (List.getElem?_eq_some_iff.1 (getElem?_moved h h' hroots ht)).1.trans_eq h'.size.symm
  · obtain ⟨t, ht⟩ := h.exists_class hi
    obtain ⟨u, hu⟩ := h.exists_class hj
    have htu := getElem?_moved h h' hroots ht
    rw [hij, getElem?_moved h h' hroots hu] at htu
    obtain rfl := Option.some.inj htu
    exact (h.refIn ht).symm.trans (h.refIn hu)
  · obtain ⟨t, ht⟩ := h'.exists_class hj
    obtain ⟨i, hi⟩ := List.mem_iff_getElem?.1 ((mem_new_iff h h' hroots).2 (List.mem_of_getElem? ht))
    refine ⟨i, (List.getElem?_eq_some_iff.1 hi).1.trans_eq h.size.symm, ?_⟩
    rw [moved, hi, Option.map_some, h'.refIn ht]
    rfl

/-- The same profile tells both faces, and the classes in it have moved. -/
theorem faceOf?_moved (hi : new[i]? = some t) :
    s'.schema.faceOf? (moved new s' i) = (s.schema.faceOf? i).map (·.rename (moved new s')) := by
  obtain ⟨-, P, hP, hmet, hface⟩ := h.told hi
  obtain ⟨-, P', hP', -, hface'⟩ := h'.told (getElem?_moved h h' hroots hi)
  obtain rfl : P = P' := Option.some.inj (hP.symm.trans hP')
  rw [hface, hface', Option.map_some, ← face_rename]
  congr 1
  refine face_congr fun u hu => refIn_moved h h' hroots ?_
  exact h.mem_of_met ((knows_of_mem_classes hP hu).spelled h.legible) (hmet u hu)

theorem parentOf?_moved (hi : new[i]? = some t) :
    s'.schema.parentOf? (moved new s' i) = (s.schema.parentOf? i).map (moved new s') := by
  rw [h.parentOf? hi, h'.parentOf? (getElem?_moved h h' hroots hi), Option.map_map]
  cases ho : R.lib.ownerOf? t with
  | none => rfl
  | some o =>
    obtain ⟨-, P, hP, hmet, -⟩ := h.told hi
    have hclass : o ∈ P.classes R := by
      obtain ⟨content, -, rfl⟩ := Option.map_eq_some_iff.1 hP
      exact List.mem_append_left _ (by simp [ho])
    have hmem := h.mem_of_met ((knows_ownerOf? ho).spelled h.legible) (hmet o hclass)
    exact congrArg some (refIn_moved h h' hroots hmem)

theorem alike_moved : Alike (moved new s') s.schema s'.schema := by
  refine Schema.alike_of_forests h.forest h'.forest (bijOn_moved h h' hroots) (fun i hi => ?_) (fun i hi => ?_) h.oneTop
    h'.oneTop h.dated h'.dated fun i hi hroot => ?_
  · obtain ⟨t, ht⟩ := h.exists_class hi
    exact faceOf?_moved h h' hroots ht
  · obtain ⟨t, ht⟩ := h.exists_class hi
    exact parentOf?_moved h h' hroots ht
  · obtain ⟨t, ht⟩ := h.exists_class hi
    have hroot' := parentOf?_moved h h' hroots ht
    rw [hroot] at hroot'
    rw [h.placeOf? ht hroot, h'.placeOf? (getElem?_moved h h' hroots ht) hroot']

/-- The same names are noted. -/
theorem isSome_find?_moved (n : String) : (s'.find? n).isSome = (s.find? n).isSome := by
  rw [Bool.eq_iff_iff, Option.isSome_iff_exists, Option.isSome_iff_exists]
  constructor
  · rintro ⟨i, hi⟩
    exact ⟨_, find?_moved h' h (fun r => (hroots r).symm) hi⟩
  · rintro ⟨i, hi⟩
    exact ⟨_, find?_moved h h' hroots hi⟩

theorem diagnostics_perm : s'.diagnostics.Perm s.diagnostics := by
  have hnotes : ∀ {roots new : List TypeRef} {s : State TypeRef}, Declares R roots new s →
      s.diagnostics.Perm (new.flatMap R.diagnosticsOf) := fun h => by simpa [start] using h.adds.diagnostics
  exact (hnotes h').trans (((perm_new h h' hroots).symm.flatMap_right _).trans (hnotes h).symm)

end Sessions

/-- Messages and enums of a library without brackets in its names may be asked for in any order. If all requests end
well in one order, they do in every other, and what is recovered is the same: under the same names there are the same
declarations with the same content, at other positions, in the same places of the same files, and the same is noted. -/
theorem order_irrelevant {lib : Library} {targets supports : List Assembly} {names : Option Identifier.Dictionary}
    {options : Options} {qs qs' : List Root} (hload : Library.load targets supports = .ok lib) (hl : lib.Legible)
    (hspelled : ∀ q ∈ qs, q.type.Spelled) (hperm : qs.Perm qs')
    (h : Completes lib names (qs.map (·.request options)) (start lib.catalog) s) :
    ∃ s', Completes lib names (qs'.map (·.request options)) (start lib.catalog) s' ∧
      (∀ n, (s'.find? n).isSome = (s.find? n).isSome) ∧
      (∃ σ, (∀ n i, s.find? n = some i → s'.find? n = some (σ i)) ∧ Alike σ s.schema s'.schema) ∧
      s'.diagnostics.Perm s.diagnostics := by
  let R : Reader := ⟨lib, names, options⟩
  have hw : R.lib.WellNamed := wellNamed_of_load hload
  have hstart : Clear (start lib.catalog).pool := clear_start hl
  have hspelled' : ∀ q ∈ qs', q.type.Spelled := fun q hq => hspelled q (hperm.mem_iff.2 hq)
  have hdeclares : ∀ {qs : List Root} {new : List TypeRef} {s : State TypeRef}, (∀ q ∈ qs, q.type.Spelled) →
      Completes lib names (qs.map (·.request options)) (start lib.catalog) s →
      Adds R (qs.map (·.type)) new [] (start lib.catalog) s → Declares R (qs.map (·.type)) new s :=
    fun hspelled h hadds => ⟨hl, hw, reached_of_completes (R := R) h .start, hadds, by simpa using hspelled⟩
  obtain ⟨hfits, new, hadds⟩ := adds_of_completes (R := R) hl hw hspelled h hstart
  have hs := hdeclares hspelled h hadds
  -- All that the first session came upon can be read, so the second one ends well too.
  have hready : ∀ q ∈ qs', R.Ready q.type := fun q hq =>
    hs.ready (hs.mem_iff.2 ⟨q.type, List.mem_map_of_mem (hperm.mem_iff.2 hq), .refl⟩)
  obtain ⟨s', h'⟩ := exists_completes (R := R) hl hw hspelled' hready (fun q hq => hfits q (hperm.mem_iff.2 hq)) .start hstart
  obtain ⟨-, new', hadds'⟩ := adds_of_completes (R := R) hl hw hspelled' h' hstart
  have hs' := hdeclares hspelled' h' hadds'
  have hroots : ∀ r, r ∈ qs.map (·.type) ↔ r ∈ qs'.map (·.type) := fun r => (hperm.map _).mem_iff
  exact ⟨s', h', isSome_find?_moved hs hs' hroots, ⟨moved new s', fun _ _ => find?_moved hs hs' hroots,
    alike_moved hs hs' hroots⟩, diagnostics_perm hs hs' hroots⟩

/-- Two messages that mention each other, with an enum in one of them that has no member zero. -/
def trade : Assembly where
  name := "App"
  types :=
    Generated.Message.definitions
      { name := "Order", namespaceName := some "App",
        items := [.field ⟨"Parts", 1, ⟨"Google.Protobuf.Collections.RepeatedField\x601", [.named "App.Part"]⟩, false⟩] } ++
    Generated.Message.definitions
      { name := "Part", namespaceName := some "App",
        items := [.field ⟨"Order", 1, .named "App.Order", false⟩,
          .field ⟨"State", 2, .named "App.Part+Types+State", false⟩,
          .field ⟨"Again", 2, .named "System.Int32", false⟩] } ++
    [{ name := "Types", declaringType := some "App.Part", isAbstract := true, isSealed := true },
     { name := "State", declaringType := some "App.Part+Types", isEnum := true, isValueType := true, isSealed := true,
       fields := [Generated.literal "Open" 1, Generated.literal "Done" 2] }]

/-- The assembly loaded. -/
def tradeLibrary : Library := .ofAssemblies [trade] []

/-- The message at the start and the enum at the end of the chain. -/
def tradeRoots : List Root := [.message (.named "App.Order"), .enum (.named "App.Part+Types+State")]

/-- The message is asked for. -/
def tradeOrder : Except Error (Option DeclId) × State TypeRef :=
  Recovery.outcome (Recovery.Request.run tradeLibrary.catalog none (.message (.named "App.Order") {}))
    (start tradeLibrary.catalog)

/-- The enum is asked for after it. -/
def tradeBoth : Except Error (Option DeclId) × State TypeRef :=
  Recovery.outcome (Recovery.Request.run tradeLibrary.catalog none (.enum (.named "App.Part+Types+State") {})) tradeOrder.2

/-- The enum may be asked for first. It is then the first of three declarations, and not the last. -/
theorem order_irrelevant_trade :
    Library.load [trade] [] = .ok tradeLibrary ∧ tradeLibrary.Legible ∧
      Completes tradeLibrary none (tradeRoots.map (·.request {})) (start tradeLibrary.catalog) tradeBoth.2 ∧
      tradeBoth.2.find? "App.Part+Types+State" = some 2 ∧
      ∃ s', Completes tradeLibrary none (tradeRoots.reverse.map (·.request {})) (start tradeLibrary.catalog) s' ∧
        (∀ n, (s'.find? n).isSome = (tradeBoth.2.find? n).isSome) ∧
        (∃ σ, (∀ n i, tradeBoth.2.find? n = some i → s'.find? n = some (σ i)) ∧ Alike σ tradeBoth.2.schema s'.schema) ∧
        s'.diagnostics.Perm tradeBoth.2.diagnostics := by
  have hload : Library.load [trade] [] = .ok tradeLibrary := Generated.load_of_accessors (by decide +kernel)
  have hl : tradeLibrary.Legible := ⟨by decide +kernel, by decide +kernel, by decide +kernel⟩
  have hboth : Completes tradeLibrary none (tradeRoots.map (·.request {})) (start tradeLibrary.catalog) tradeBoth.2 :=
    ⟨some 0, tradeOrder.2, Recovery.gives_of_outcome (by decide +kernel), some 2, tradeBoth.2,
      Recovery.gives_of_outcome (by decide +kernel), rfl⟩
  exact ⟨hload, hl, hboth, by decide +kernel,
    order_irrelevant hload hl (by decide +kernel) (List.reverse_perm _).symm hboth⟩

end ProtoRecovery.Managed
