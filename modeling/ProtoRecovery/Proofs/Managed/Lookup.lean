import ProtoRecovery.Proofs.Managed.Handle
/-!
# A type in an assembly

A type is asked for by its full name and the name of an assembly. Assemblies may share a name, up to case, and types may
be defined more than once. The search settles on one definition, the first of the full name, and on one assembly, the
first of that name, and compares the two. So a type that the assembly defines can be missed: where several assemblies
have the name and the first of them lacks the type, and where an assembly of another name defines the type before.
-/

namespace ProtoRecovery.Managed

variable {targets supports : List Assembly} {lib : Library}

namespace Assembly

/-- Whether an assembly has a name, letter by letter. The case of letters does not matter, as far as they are ASCII. -/
def isCalled (name : String) (a : Assembly) : Bool := a.name.toList.map Char.toLower == name.toList.map Char.toLower

/-- Whether an assembly defines a type of a full name. -/
def defines (fullName : String) (a : Assembly) : Bool := a.types.any (·.fullName == fullName)

theorem isCalled_eq (name : String) (a : Assembly) : (a.name.toLower == name.toLower) = a.isCalled name := by
  rw [Bool.eq_iff_iff, beq_iff_eq, isCalled, beq_iff_eq, String.toLower, String.toLower, String.ext_iff,
    String.toList_map, String.toList_map]

end Assembly

theorem assembly_of_find?_locate (fullName : String) (position : Nat) (a : Assembly) :
    ((Library.locate position a).find? (·.fullName == fullName)).map (·.assembly) =
      if a.defines fullName then some position else none := by
  unfold Library.locate Assembly.defines
  rw [List.find?_map, Option.map_map]
  cases h : a.types.find? ((fun e : Located => e.fullName == fullName) ∘ fun d => ⟨position, d.fullName, d⟩) with
  | none =>
    have hnone : a.types.any (·.fullName == fullName) = false := by
      rw [List.any_eq_false]
      exact List.find?_eq_none.1 h
    simp [hnone]
  | some d =>
    have hd := List.find?_some h
    have hsome : a.types.any (·.fullName == fullName) = true := List.any_eq_true.2 ⟨d, List.mem_of_find?_eq_some h, hd⟩
    simp [hsome]

theorem assembly_of_find?_located (fullName : String) (assemblies : List Assembly) (first : Nat) :
    ((assemblies.mapIdx fun i a => Library.locate (i + first) a).flatten.find? (·.fullName == fullName)).map
      (·.assembly) = (assemblies.findIdx? (·.defines fullName)).map (· + first) := by
  induction assemblies generalizing first with
  | nil => rfl
  | cons a rest ih =>
    have hlater : (rest.mapIdx fun i b => Library.locate (i + 1 + first) b) =
        rest.mapIdx fun i b => Library.locate (i + (first + 1)) b := by
      congr 1
      funext i b
      rw [Nat.add_assoc, Nat.add_comm 1]
    rw [List.mapIdx_cons, hlater, List.flatten_cons, List.find?_append, List.findIdx?_cons, Option.map_or,
      assembly_of_find?_locate, ih]
    by_cases h : a.defines fullName
    · simp [h]
    · simp only [h, Bool.false_eq_true, if_false, Option.none_or, Option.map_map, Function.comp_def]
      congr 1
      funext i
      omega

/-- The definition that counts is in the first assembly that has one. -/
theorem assembly_of_get? (h : Library.load targets supports = .ok lib) (fullName : String) :
    (lib.get? fullName).map (·.assembly) = (targets ++ supports).findIdx? (·.defines fullName) := by
  unfold Library.get?
  rw [entries_of_load h]
  simpa using assembly_of_find?_located fullName (targets ++ supports) 0

/-- The assembly at a position has a property, and none before it has. -/
def IsFirst (assemblies : List Assembly) (p : Assembly → Bool) (i : Nat) : Prop :=
  ∃ a, assemblies[i]? = some a ∧ p a = true ∧ ∀ j < i, ∀ b, assemblies[j]? = some b → p b = false

theorem isFirst_iff {assemblies : List Assembly} {p : Assembly → Bool} {i : Nat} :
    IsFirst assemblies p i ↔ assemblies.findIdx? p = some i := by
  rw [List.findIdx?_eq_some_iff_getElem]
  unfold IsFirst
  constructor
  · rintro ⟨a, ha, hpa, hbefore⟩
    obtain ⟨hi, rfl⟩ := List.getElem?_eq_some_iff.1 ha
    refine ⟨hi, hpa, fun j hj => ?_⟩
    simp [hbefore j hj _ (List.getElem?_eq_getElem (hj.trans hi))]
  · rintro ⟨hi, hpa, hbefore⟩
    refine ⟨_, List.getElem?_eq_getElem hi, hpa, fun j hj b hb => ?_⟩
    obtain ⟨-, rfl⟩ := List.getElem?_eq_some_iff.1 hb
    simpa using hbefore j hj

/-- The first assembly that defines a type is one of those to be examined, or it is the first of a name too. -/
def InReach (targets supports : List Assembly) (fullName name : String) : Prop :=
  ∃ i, IsFirst (targets ++ supports) (·.defines fullName) i ∧
    (i < targets.length ∨ IsFirst (targets ++ supports) (·.isCalled name) i)

/-- What is found, in terms of the first definition of a type and of the first assembly of a name. -/
theorem find_of_firsts (hload : Library.load targets supports = .ok lib) (fullName name : String) {i j : Nat}
    (hi : (targets ++ supports).findIdx? (·.defines fullName) = some i)
    (hj : (targets ++ supports).findIdx? (·.isCalled name) = some j) :
    lib.find fullName name =
      if i = j ∨ i < targets.length then .ok (.named fullName) else .error (.missingType fullName name) := by
  have hassemblies : lib.assemblies = targets ++ supports := congrArg Library.assemblies (eq_of_load hload)
  have htargets : lib.targets = targets.length := congrArg Library.targets (eq_of_load hload)
  obtain ⟨e, he, rfl⟩ := Option.map_eq_some_iff.1 ((assembly_of_get? hload fullName).trans hi)
  unfold Library.find
  simp only [Assembly.isCalled_eq, hassemblies, htargets, hj, he]
  simp

/-- An assembly of a name defines a type. Then the type is found there just when the first definition of it is in reach;
it is the type that its full name alone stands for. Otherwise it is said to be missing. -/
theorem defined_found_iff_inReach (hload : Library.load targets supports = .ok lib) {fullName name : String}
    (hdefined : ∃ a ∈ targets ++ supports, a.isCalled name = true ∧ a.defines fullName = true) :
    lib.catalog.get? fullName = some (.named fullName) ∧
      (lib.catalog.find fullName name = .ok (.named fullName) ↔ InReach targets supports fullName name) ∧
      (¬InReach targets supports fullName name →
        lib.catalog.find fullName name = .error (.missingType fullName name)) := by
  obtain ⟨a, ha, hcalled, hdefines⟩ := hdefined
  have hfirst : ∀ p : Assembly → Bool, p a = true → ∃ i, (targets ++ supports).findIdx? p = some i := fun p hp =>
    Option.isSome_iff_exists.1 (List.findIdx?_isSome.trans (List.any_eq_true.2 ⟨a, ha, hp⟩))
  obtain ⟨i, hi⟩ := hfirst (·.defines fullName) hdefines
  obtain ⟨j, hj⟩ := hfirst (·.isCalled name) hcalled
  have hreach : InReach targets supports fullName name ↔ i = j ∨ i < targets.length := by
    unfold InReach
    simp only [isFirst_iff, hi, hj, Option.some.injEq, exists_eq_left']
    rw [or_comm, eq_comm]
  have hfind : lib.catalog.find fullName name = _ := find_of_firsts hload fullName name hi hj
  obtain ⟨e, he, -⟩ := Option.map_eq_some_iff.1 ((assembly_of_get? hload fullName).trans hi)
  have hname : e.fullName = fullName := by simpa using List.find?_some he
  refine ⟨?_, ?_, fun h => ?_⟩
  · show (lib.get? fullName).map (TypeRef.named ·.fullName) = _
    rw [he, Option.map_some, hname]
  · rw [hfind, hreach]
    split <;> simp [*]
  · rw [hfind, if_neg (mt hreach.2 h)]

/-! ## Copies of an assembly -/

/-- The type that messages are told by. -/
def markerDefinition : Definition :=
  { name := "IMessage", namespaceName := some "Google.Protobuf", isInterface := true, isAbstract := true }

/-- Part of an assembly, without that type. -/
def firstCopy : Assembly :=
  { name := "Google.Protobuf", types := [{ name := "MessageParser", namespaceName := some "Google.Protobuf" }] }

/-- Another part of it, under a name in other case. -/
def secondCopy : Assembly := { name := "google.protobuf", types := [markerDefinition] }

/-- An assembly of another name that the type was copied into. -/
def mergedCopy : Assembly := { name := "Merged", types := [markerDefinition] }

/-- Assemblies that support an empty one. -/
def copies (supports : List Assembly) : Library :=
  .ofAssemblies [{ name := "App" }] supports

/-- The part that defines the type comes first: it is found, though the merged assembly defines it too. -/
theorem defined_found_marker :
    Library.load [{ name := "App" }] [secondCopy, firstCopy, mergedCopy] =
        .ok (copies [secondCopy, firstCopy, mergedCopy]) ∧
      InReach [{ name := "App" }] [secondCopy, firstCopy, mergedCopy] "Google.Protobuf.IMessage" "Google.Protobuf" ∧
      (copies [secondCopy, firstCopy, mergedCopy]).catalog.find "Google.Protobuf.IMessage" "Google.Protobuf" =
        .ok (.named "Google.Protobuf.IMessage") := by
  have hreach : InReach [{ name := "App" }] [secondCopy, firstCopy, mergedCopy] "Google.Protobuf.IMessage"
      "Google.Protobuf" :=
    ⟨1, isFirst_iff.2 (by decide +kernel), .inr (isFirst_iff.2 (by decide +kernel))⟩
  have hload : Library.load [{ name := "App" }] [secondCopy, firstCopy, mergedCopy] =
      .ok (copies [secondCopy, firstCopy, mergedCopy]) := rfl
  have hdefined : ∃ a ∈ [{ name := "App" }] ++ [secondCopy, firstCopy, mergedCopy],
      a.isCalled "Google.Protobuf" = true ∧ a.defines "Google.Protobuf.IMessage" = true :=
    ⟨secondCopy, by simp, by decide +kernel, by decide +kernel⟩
  exact ⟨hload, hreach, (defined_found_iff_inReach hload hdefined).2.1.2 hreach⟩

/-- The second of two parts defines the type, and it is not found; nor is it if an assembly of another name defines it
before. -/
theorem defined_missed_marker :
    secondCopy.isCalled "Google.Protobuf" = true ∧ secondCopy.defines "Google.Protobuf.IMessage" = true ∧
      (Library.load [{ name := "App" }] [firstCopy, secondCopy] = .ok (copies [firstCopy, secondCopy]) ∧
        (copies [firstCopy, secondCopy]).catalog.find "Google.Protobuf.IMessage" "Google.Protobuf" =
          .error (.missingType "Google.Protobuf.IMessage" "Google.Protobuf")) ∧
      Library.load [{ name := "App" }] [mergedCopy, secondCopy] = .ok (copies [mergedCopy, secondCopy]) ∧
        (copies [mergedCopy, secondCopy]).catalog.find "Google.Protobuf.IMessage" "Google.Protobuf" =
          .error (.missingType "Google.Protobuf.IMessage" "Google.Protobuf") := by
  have hcopies : Library.load [{ name := "App" }] [firstCopy, secondCopy] = .ok (copies [firstCopy, secondCopy]) := rfl
  have hmerged : Library.load [{ name := "App" }] [mergedCopy, secondCopy] = .ok (copies [mergedCopy, secondCopy]) := rfl
  refine ⟨by decide +kernel, by decide +kernel, ⟨hcopies, ?_⟩, hmerged, ?_⟩
  · exact find_of_firsts hcopies _ _ (i := 2) (j := 1) (by decide +kernel) (by decide +kernel)
  · exact find_of_firsts hmerged _ _ (i := 1) (j := 2) (by decide +kernel) (by decide +kernel)

end ProtoRecovery.Managed
