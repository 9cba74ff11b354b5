import ProtoRecovery.Proofs.Managed.Legible
/-!
# Handles

A reference is looked up for its handle: the reference that was met first with the same key. Classes are told apart by
handles. Once it has been looked up, a handle stays in the pool, and every later look-up finds it there. Where no name has
a bracket in it, different references have different handles, however many were looked up before, and a handle has the
name, the definition and the arguments of the reference that it is given for.
-/

namespace ProtoRecovery.Managed

open Catalog (Pool)
open Recovery (Extends)

variable {lib : Library} {targets supports : List Assembly}

/-- The handles of references that are looked up one after the other, and the pool after that. -/
def Library.handles (lib : Library) (rs : List TypeRef) : List TypeRef × Pool TypeRef :=
  (lib.catalog.resolveAll rs).run lib.catalog.pool

/-! ## Handles are stored once -/

section Stored
variable {p : Pool TypeRef} {r x : TypeRef} {rs : List TypeRef}

theorem lookup_after_resolve (k : String) :
    ((lib.catalog.resolve r).run p).2.lookup k = (p.lookup k).or (if r.key == k then some r else none) := by
  cases hr : p.lookup r.key with
  | some first =>
    rw [resolve_of_found hr]
    by_cases hk : r.key = k
    · simp [← hk, hr]
    · simp [hk]
  | none =>
    rw [resolve_of_new hr]
    by_cases hk : r.key = k
    · simp [← hk, hr]
    · simp [List.lookup_cons, hk, beq_false_of_ne (Ne.symm hk)]

/-- A pool has what it had, and else the first reference with the key. -/
theorem lookup_resolveAll (k : String) :
    ((lib.catalog.resolveAll rs).run p).2.lookup k = (p.lookup k).or (rs.find? (·.key == k)) := by
  induction rs generalizing p with
  | nil => exact Option.or_none.symm
  | cons r rest ih =>
    show ((lib.catalog.resolveAll rest).run ((lib.catalog.resolve r).run p).2).2.lookup k = _
    rw [ih, lookup_after_resolve, Option.or_assoc, List.find?_cons]
    cases r.key == k with
    | true => rfl
    | false => rfl

theorem lookup_handle (p : Pool TypeRef) (r : TypeRef) :
    ((lib.catalog.resolve r).run p).2.lookup r.key = some ((lib.catalog.resolve r).run p).1 := by
  cases h : p.lookup r.key with
  | some first => rw [resolve_of_found h, h]
  | none => simp [resolve_of_new h]

theorem lookup_handles {i : Nat} (hr : rs[i]? = some r) (hx : ((lib.catalog.resolveAll rs).run p).1[i]? = some x) :
    ((lib.catalog.resolveAll rs).run p).2.lookup r.key = some x := by
  induction rs generalizing p i with
  | nil => cases hr
  | cons first rest ih =>
    cases i with
    | zero =>
      obtain rfl : first = r := Option.some.inj hr
      obtain rfl : ((lib.catalog.resolve first).run p).1 = x := Option.some.inj hx
      show ((lib.catalog.resolveAll rest).run ((lib.catalog.resolve first).run p).2).2.lookup first.key = _
      rw [lookup_resolveAll, lookup_handle, Option.some_or]
    | succ i => exact ih hr hx

/-- The handle of a reference is the first of all with its key, those loaded before the others. It is stored, and from any
later pool a reference with this key has the stored entry for its handle, while nothing is added. -/
theorem handle_stored {i : Nat} (hr : rs[i]? = some r) (hx : (lib.handles rs).1[i]? = some x) :
    (lib.loaded ++ rs).find? (·.key == r.key) = some x ∧
      ∀ pool, Extends (lib.handles rs).2 pool → pool.lookup r.key = some x ∧
        ∀ t : TypeRef, t.key = r.key → (lib.catalog.resolve t).run pool = (x, pool) := by
  have hstored : (lib.handles rs).2.lookup r.key = some x := lookup_handles hr hx
  constructor
  · have hloaded : lib.catalog.pool.lookup r.key = lib.loaded.find? (·.key == r.key) := by
      show (lib.loaded.map fun r => (r.key, r)).lookup r.key = _
      induction lib.loaded with
      | nil => rfl
      | cons first rest ih => rw [List.map_cons, List.lookup_cons, List.find?_cons, ih, BEq.comm]
    rw [List.find?_append, ← hloaded, ← lookup_resolveAll]
    exact hstored
  · intro pool hpool
    have hfound := hpool _ _ hstored
    exact ⟨hfound, fun t ht => resolve_of_found (ht ▸ hfound)⟩

/-- Two references that differ in brackets only are stored once. -/
example : ((Library.ofAssemblies [] []).handles [.named "Pair[[A]]", ⟨"Pair", [.named "A"]⟩]).1 =
    [.named "Pair[[A]]", .named "Pair[[A]]"] := by decide +kernel

end Stored

/-! ## Handles without brackets -/

theorem handles_eq (hnames : ∀ e ∈ lib.entries, Unbracketed e.fullName) {rs : List TypeRef} (hrs : ∀ r ∈ rs, r.Spelled) :
    (lib.handles rs).1 = rs :=
  (answers_resolveAll apart_spelled hrs _ (clear_of_fullNames hnames)).2

theorem definitions_of_load (h : Library.load targets supports = .ok lib) :
    lib.entries.map (·.definition) = (targets ++ supports).flatMap (·.types) := by
  have hlocate : ∀ position (a : Assembly), (Library.locate position a).map (·.definition) = a.types := by
    simp [Library.locate, Function.comp_def]
  rw [entries_of_load h, List.map_flatten, List.flatMap]
  congr 1
  apply List.ext_getElem?
  intro position
  simp only [List.getElem?_map, List.getElem?_mapIdx, Option.map_map]
  exact Option.map_congr fun a _ => hlocate position a

/-- Of several definitions with one full name the first counts, whatever assembly it is in. -/
theorem definitionOf?_of_load (h : Library.load targets supports = .ok lib) (r : TypeRef) :
    lib.definitionOf? r = ((targets ++ supports).flatMap (·.types)).find? (·.fullName == r.name) := by
  rw [← definitions_of_load h, List.find?_map]
  unfold Library.definitionOf? Library.get?
  congr 1
  refine List.find?_congr fun e he => ?_
  simp only [Function.comp_apply, wellNamed_of_load h e he]

/-- Keys tell references without brackets apart. Two such references that are looked up at any time have one handle just
when they are equal. The handle of a reference has its key as full name, the first definition of its name, and the
arguments that its own ones are looked up as, also later. -/
theorem handles_faithful (hload : Library.load targets supports = .ok lib)
    (hnames : ∀ e ∈ lib.entries, Unbracketed e.fullName) {rs : List TypeRef} (hrs : ∀ r ∈ rs, r.Spelled) :
    (∀ r t : TypeRef, r.Spelled → t.Spelled → r.key = t.key → r = t) ∧
      (lib.handles rs).1.length = rs.length ∧
      ∀ (i : Nat) (r x : TypeRef), rs[i]? = some r → (lib.handles rs).1[i]? = some x →
        (∀ (j : Nat) (t y : TypeRef), rs[j]? = some t → (lib.handles rs).1[j]? = some y → (x = y ↔ r = t)) ∧
        lib.catalog.fullName x = r.key ∧
        lib.definitionOf? x = ((targets ++ supports).flatMap (·.types)).find? (·.fullName == r.name) ∧
        lib.catalog.argumentsOf x = lib.catalog.resolveAll r.args := by
  rw [handles_eq hnames hrs]
  refine ⟨fun r t hr ht h => hr.eq_of_key ht h, rfl, fun i r x hr hx => ?_⟩
  obtain rfl : r = x := Option.some.inj (hr.symm.trans hx)
  refine ⟨fun j t y ht hy => ?_, rfl, definitionOf?_of_load hload r, rfl⟩
  obtain rfl : t = y := Option.some.inj (ht.symm.trans hy)
  rfl

/-- A definition of a full name that another assembly defines too. -/
def firstPair : Assembly := { name := "App", types := [{ name := "Pair", namespaceName := some "App", isSealed := true }] }

/-- The other one. -/
def secondPair : Assembly := { name := "Old", types := [{ name := "Pair", namespaceName := some "App" }] }

/-- Both assemblies loaded. -/
def pairLibrary : Library := .ofAssemblies [firstPair] [secondPair]

/-- A type applied to one whose name has a comma in it, to two, to one without a name, and the first again. -/
def pairRefs : List TypeRef :=
  [⟨"App.Pair", [.named "A,B"]⟩, ⟨"App.Pair", [.named "A", .named "B"]⟩, ⟨"App.Pair", [.named ""]⟩,
    ⟨"App.Pair", [.named "A,B"]⟩]

/-- The first and the last have one handle, which has the definition of the first assembly. The first two have not,
though their keys differ in brackets only. -/
theorem handles_faithful_pair :
    Library.load [firstPair] [secondPair] = .ok pairLibrary ∧
      (∀ e ∈ pairLibrary.entries, Unbracketed e.fullName) ∧ (∀ r ∈ pairRefs, r.Spelled) ∧
      pairRefs.map TypeRef.key =
        ["App.Pair[[A,B]]", "App.Pair[[A],[B]]", "App.Pair[[]]", "App.Pair[[A,B]]"] ∧
      ∃ x y z, (pairLibrary.handles pairRefs).1[0]? = some x ∧ (pairLibrary.handles pairRefs).1[1]? = some y ∧
        (pairLibrary.handles pairRefs).1[3]? = some z ∧ x = z ∧ x ≠ y ∧
        (pairLibrary.definitionOf? x).map (·.isSealed) = some true := by
  have hload : Library.load [firstPair] [secondPair] = .ok pairLibrary := rfl
  have hnames : ∀ e ∈ pairLibrary.entries, Unbracketed e.fullName := by decide +kernel
  have hrs : ∀ r ∈ pairRefs, r.Spelled := by decide +kernel
  obtain ⟨-, hlength, hhandle⟩ := handles_faithful hload hnames hrs
  have hat : ∀ i < 4, ∃ x, (pairLibrary.handles pairRefs).1[i]? = some x := fun i hi =>
    ⟨_, List.getElem?_eq_getElem (hi.trans_eq hlength.symm)⟩
  obtain ⟨x, hx⟩ := hat 0 (by decide)
  obtain ⟨y, hy⟩ := hat 1 (by decide)
  obtain ⟨z, hz⟩ := hat 3 (by decide)
  obtain ⟨hsame, -, hdefinition, -⟩ := hhandle 0 _ x rfl hx
  refine ⟨hload, hnames, hrs, by decide +kernel, x, y, z, hx, hy, hz, (hsame 3 _ z rfl hz).2 rfl, fun h => ?_, ?_⟩
  · exact absurd ((hsame 1 _ y rfl hy).1 h) (by decide +kernel)
  · rw [hdefinition]
    decide +kernel

end ProtoRecovery.Managed
