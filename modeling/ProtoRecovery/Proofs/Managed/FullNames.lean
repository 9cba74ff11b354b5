import ProtoRecovery.Proofs.Managed.Handle
/-!
# Full names put together and taken apart

The full name of a definition is put together from its namespace and the names of the types around it. A type that no
assembly defines has nothing but its full name, and that is taken apart. Both ways give the same name and namespace, as
long as no name has one of the characters in it that full names are put together with.
-/

namespace ProtoRecovery.Catalog

variable {p : Char → Bool} {c : Char} {xs ys : List Char} {outer space name : String}

/-! ## The first and the last of some characters -/

theorem takeWhile_stops (hc : p c = false) : (xs ++ c :: ys).takeWhile p = xs.takeWhile p := by
  induction xs with
  | nil => simp [hc]
  | cons x rest ih => simp only [List.cons_append, List.takeWhile_cons, ih]

theorem afterLast_append (hc : p c = true) (hy : ∀ y ∈ ys, p y = false) : afterLast p (xs ++ c :: ys) = ys := by
  have hys : ∀ y ∈ ys.reverse, (!p y) = true := by simpa using hy
  rw [afterLast, List.reverse_append, List.reverse_cons, List.append_assoc, List.takeWhile_append_of_pos hys]
  simp [hc]

theorem afterLast_of_none (hy : ∀ y ∈ ys, p y = false) : afterLast p ys = ys := by
  have hys : ∀ y ∈ ys.reverse, (!p y) = true := by simpa using hy
  rw [afterLast, List.takeWhile_eq_self_iff.2 hys, List.reverse_reverse]

theorem beforeLast?_append (hc : p c = true) (hy : ∀ y ∈ ys, p y = false) : beforeLast? p (xs ++ c :: ys) = some xs := by
  have hys : ∀ y ∈ ys.reverse, (!p y) = true := by simpa using hy
  rw [beforeLast?, if_pos (by simp [hc]), List.reverse_append, List.reverse_cons, List.append_assoc,
    List.dropWhile_append_of_pos hys]
  simp [hc]

theorem beforeLast?_of_none (hy : ∀ y ∈ ys, p y = false) : beforeLast? p ys = none := by
  rw [beforeLast?, if_neg (by simpa using hy)]

/-! ## Parts of a full name -/

/-- Nothing in a text that comes between the types of a full name, or before its arguments. A namespace may have dots
in it. -/
def Undivided (text : String) : Prop := ∀ c ∈ text.toList, isNesting c = false ∧ c ≠ '['

/-- Nor is there a dot. -/
def Simple (text : String) : Prop := Undivided text ∧ '.' ∉ text.toList

instance (text : String) : Decidable (Undivided text) := List.decidableBAll ..

instance (text : String) : Decidable (Simple text) := inferInstanceAs (Decidable (_ ∧ _))

theorem Undivided.nesting (h : Undivided name) : ∀ c ∈ name.toList, isNesting c = false := fun c hc => (h c hc).1

theorem Undivided.arguments (h : Undivided name) : '[' ∉ name.toList := fun hc => (h _ hc).2 rfl

theorem Simple.dot (h : Simple name) : ∀ c ∈ name.toList, (c == '.') = false := by
  intro c hc
  rw [beq_eq_false_iff_ne]
  rintro rfl
  exact h.2 hc

/-- A full name without arguments is taken apart as a whole. -/
theorem splitFullName_of_no_arguments (h : '[' ∉ name.toList) :
    splitFullName name =
      ((beforeLast? (· == '.') (name.toList.takeWhile fun c => !isNesting c)).map String.ofList,
        String.ofList (if name.toList.any isNesting then afterLast isNesting name.toList
          else afterLast (· == '.') name.toList)) := by
  have hbase : name.toList.takeWhile (· != '[') = name.toList := by
    rw [List.takeWhile_eq_self_iff]
    intro c hc
    rw [bne_iff_ne]
    rintro rfl
    exact h hc
  unfold splitFullName
  rw [hbase]

/-- A nested type has the namespace of the type around it. -/
theorem splitFullName_nested (houter : '[' ∉ outer.toList) (hname : Undivided name) :
    splitFullName (outer ++ "+" ++ name) = ((splitFullName outer).1, name) := by
  have hchars : (outer ++ "+" ++ name).toList = outer.toList ++ '+' :: name.toList := by simp
  have hwhole : '[' ∉ (outer ++ "+" ++ name).toList := by simp [houter, hname.arguments]
  rw [splitFullName_of_no_arguments hwhole, splitFullName_of_no_arguments houter, hchars, takeWhile_stops (by decide),
    if_pos (by simp [isNesting]), afterLast_append (by decide) hname.nesting, String.ofList_toList]

theorem not_any_isNesting (h : Undivided name) : name.toList.any isNesting = false := by
  rw [List.any_eq_false]
  exact fun c hc => by simp [h.nesting c hc]

/-- A type that is not nested has all before the last dot for its namespace. -/
theorem splitFullName_of_undivided (h : Undivided name) :
    splitFullName name =
      ((beforeLast? (· == '.') name.toList).map String.ofList, String.ofList (afterLast (· == '.') name.toList)) := by
  have houter : name.toList.takeWhile (fun c => !isNesting c) = name.toList := by
    rw [List.takeWhile_eq_self_iff]
    exact fun c hc => by simp [h.nesting c hc]
  rw [splitFullName_of_no_arguments h.arguments, houter, not_any_isNesting h, if_neg Bool.false_ne_true]

theorem splitFullName_dotted (hspace : Undivided space) (hname : Simple name) :
    splitFullName (space ++ "." ++ name) = (some space, name) := by
  have hchars : (space ++ "." ++ name).toList = space.toList ++ '.' :: name.toList := by simp
  have hwhole : Undivided (space ++ "." ++ name) := by
    intro c hc
    rw [hchars, List.mem_append, List.mem_cons] at hc
    rcases hc with hc | rfl | hc
    · exact hspace c hc
    · decide
    · exact hname.1 c hc
  rw [splitFullName_of_undivided hwhole, hchars, beforeLast?_append (by decide) hname.dot,
    afterLast_append (by decide) hname.dot, Option.map_some, String.ofList_toList, String.ofList_toList]

theorem splitFullName_simple (hname : Simple name) : splitFullName name = (none, name) := by
  rw [splitFullName_of_undivided hname.1, beforeLast?_of_none hname.dot, afterLast_of_none hname.dot, Option.map_none,
    String.ofList_toList]

end ProtoRecovery.Catalog

namespace ProtoRecovery.Managed

open Catalog (Undivided Simple splitFullName splitFullName_nested splitFullName_dotted splitFullName_simple)

variable {lib : Library} {d : Definition} {outers : List Definition}

/-! ## Types around a definition -/

/-- The definitions around another, from the inside out. Each is the one that its name stands for, and the last of them is
declared in no type. -/
inductive Library.Encloses (lib : Library) : List Definition → Definition → Prop
  | nothing {d : Definition} : d.declaringType = none → Encloses lib [] d
  | inside {d : Definition} {outer : String} {e : Located} {outers : List Definition} :
      d.declaringType = some outer → lib.get? outer = some e → Encloses lib outers e.definition →
      Encloses lib (e.definition :: outers) d

/-- The outermost of them. -/
def topmost (outers : List Definition) (d : Definition) : Definition := (d :: outers).getLast (by simp)

theorem topmost_cons (outer : Definition) (outers : List Definition) (d : Definition) :
    topmost (outer :: outers) d = topmost outers outer := List.getLast_cons (by simp)

/-- Looking for the outermost type ends at it, if the limit lets it get there. -/
theorem outermost_of_encloses (h : lib.Encloses outers d) {limit : Nat} (hlimit : outers.length ≤ limit) :
    lib.outermost limit d = topmost outers d := by
  induction h generalizing limit with
  | nothing hnone => cases limit <;> simp [Library.outermost, hnone, topmost]
  | @inside d outer e outers houter he hrest ih =>
    cases limit with
    | zero => cases hlimit
    | succ limit =>
      rw [topmost_cons]
      simpa [Library.outermost, houter, he] using ih (Nat.le_of_succ_le_succ hlimit)

theorem fullName_of_get? (hw : lib.WellNamed) {fullName : String} {e : Located} (he : lib.get? fullName = some e) :
    e.definition.fullName = fullName := by
  rw [← hw e (List.mem_of_find?_eq_some he)]
  exact eq_of_beq (List.find?_some he :)

/-- The names of a definition and of the types around it are simple, and the namespace is undivided. -/
structure WellSpelled (outers : List Definition) (d : Definition) : Prop where
  name : ∀ x ∈ d :: outers, Simple x.name
  space : ∀ space ∈ (topmost outers d).namespaceName, Undivided space

theorem splitFullName_outermost (hnone : d.declaringType = none) (h : WellSpelled [] d) :
    splitFullName d.fullName = (d.namespaceName.filter (!·.isEmpty), d.name) ∧ '[' ∉ d.fullName.toList := by
  have hname := h.name d (by simp)
  rw [Definition.fullName, hnone]
  cases hspace : d.namespaceName with
  | none => exact ⟨splitFullName_simple hname, hname.1.arguments⟩
  | some space =>
    have hundivided : Undivided space := h.space space hspace
    dsimp only
    cases hempty : space.isEmpty with
    | true =>
      rw [if_pos rfl, Option.filter_some_neg (by simp [hempty])]
      exact ⟨splitFullName_simple hname, hname.1.arguments⟩
    | false =>
      rw [if_neg Bool.false_ne_true, Option.filter_some_pos (by simp [hempty])]
      exact ⟨splitFullName_dotted hundivided hname, by simp [hundivided.arguments, hname.1.arguments]⟩

/-- The induction goes from the outermost type inwards: each type around adds its name and keeps the namespace. -/
theorem splitFullName_of_encloses (hw : lib.WellNamed) (hchain : lib.Encloses outers d) (h : WellSpelled outers d) :
    splitFullName d.fullName = ((topmost outers d).namespaceName.filter (!·.isEmpty), d.name) ∧
      '[' ∉ d.fullName.toList := by
  induction hchain with
  | nothing hnone => exact splitFullName_outermost hnone h
  | @inside d outer e outers houter he hrest ih =>
    have htop := topmost_cons e.definition outers d
    have hfull : d.fullName = e.definition.fullName ++ "+" ++ d.name := by
      rw [fullName_of_get? hw he, Definition.fullName, houter]
    have hname := h.name d (by simp)
    obtain ⟨hsplit, hbracket⟩ := ih ⟨fun x hx => h.name x (List.mem_cons_of_mem _ hx), htop ▸ h.space⟩
    rw [hfull, splitFullName_nested hbracket hname.1, hsplit, htop]
    exact ⟨rfl, by simp [hbracket, hname.1.arguments]⟩

/-! ## Types with and without their definitions -/

/-- A definition that counts for its full name, in types that are all defined, has the name and the namespace that its full
name is taken apart into; so a type is called the same whether a library defines it or not. -/
theorem fullName_taken_apart {targets supports : List Assembly} (hload : Library.load targets supports = .ok lib)
    {e : Located} (he : lib.get? e.fullName = some e) (hchain : lib.Encloses outers e.definition)
    (hlimit : outers.length ≤ chainLimit) (hspelled : WellSpelled outers e.definition) :
    splitFullName e.definition.fullName = (lib.namespaceOf? e.definition, e.definition.name) ∧
      ∀ (other : Library) (args : List TypeRef), other.get? e.fullName = none →
        other.catalog.name ⟨e.fullName, args⟩ = lib.catalog.name ⟨e.fullName, args⟩ ∧
          other.catalog.namespaceName? ⟨e.fullName, args⟩ = lib.catalog.namespaceName? ⟨e.fullName, args⟩ := by
  have hw := wellNamed_of_load hload
  have hsplit : splitFullName e.definition.fullName = (lib.namespaceOf? e.definition, e.definition.name) := by
    rw [Library.namespaceOf?, outermost_of_encloses hchain hlimit]
    exact (splitFullName_of_encloses hw hchain hspelled).1
  refine ⟨hsplit, fun other args hnone => ?_⟩
  rw [fullName_of_get? hw he] at hsplit
  have hundefined : other.definitionOf? ⟨e.fullName, args⟩ = none := by simp [Library.definitionOf?, hnone]
  have hdefined : lib.definitionOf? ⟨e.fullName, args⟩ = some e.definition := by simp [Library.definitionOf?, he]
  simp [Library.catalog, Library.simpleCatalog, hundefined, hdefined, hsplit]

/-- A class in a namespace. -/
def shelfOuter : Definition := { name := "Outer", namespaceName := some "My.App" }

/-- A holder in that class. -/
def shelfTypes : Definition := { name := "Types", declaringType := some "My.App.Outer" }

/-- A class in the holder. The namespace in its record does not count. -/
def shelfInner : Definition :=
  { name := "Inner", namespaceName := some "Else", declaringType := some "My.App.Outer+Types" }

/-- The three of them. -/
def shelfAssembly : Assembly := { name := "App", types := [shelfOuter, shelfTypes, shelfInner] }

/-- The assembly loaded. -/
def shelfLibrary : Library := .ofAssemblies [shelfAssembly] []

/-- The innermost class is called the same in a library that has it and in one that has nothing. -/
theorem shelfInner_taken_apart :
    Library.load [shelfAssembly] [] = .ok shelfLibrary ∧
      shelfLibrary.Encloses [shelfTypes, shelfOuter] shelfInner ∧ WellSpelled [shelfTypes, shelfOuter] shelfInner ∧
      splitFullName "My.App.Outer+Types+Inner" = (shelfLibrary.namespaceOf? shelfInner, "Inner") ∧
      shelfLibrary.namespaceOf? shelfInner = some "My.App" ∧
      (⟨[], 0, []⟩ : Library).catalog.namespaceName? (.named "My.App.Outer+Types+Inner") =
        shelfLibrary.catalog.namespaceName? (.named "My.App.Outer+Types+Inner") := by
  have hload : Library.load [shelfAssembly] [] = .ok shelfLibrary := rfl
  have hchain : shelfLibrary.Encloses [shelfTypes, shelfOuter] shelfInner :=
    .inside (e := ⟨0, "My.App.Outer+Types", shelfTypes⟩) rfl rfl
      (.inside (e := ⟨0, "My.App.Outer", shelfOuter⟩) rfl rfl (.nothing rfl))
  have hspelled : WellSpelled [shelfTypes, shelfOuter] shelfInner := ⟨by decide +kernel, by decide +kernel⟩
  obtain ⟨hsplit, hcalled⟩ := fullName_taken_apart (e := ⟨0, "My.App.Outer+Types+Inner", shelfInner⟩) hload rfl hchain
    (by decide) hspelled
  exact ⟨hload, hchain, hspelled, hsplit, by decide +kernel, (hcalled _ [] rfl).2⟩

end ProtoRecovery.Managed
