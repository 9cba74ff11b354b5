import ProtoRecovery.Proofs.Schema.Forest
import ProtoRecovery.Schema.Scope
/-!
# Names and what they denote

A reader takes the first part of a dotted name for what the innermost scope declares under it, and follows the other
parts from there. `denoted?` does that. What `qualify` writes is relative to the source where the target is inside it,
and starts at the outermost declaration otherwise; there it denotes its target just when no scope of the source has
another use for that first name.
-/

namespace ProtoRecovery.Schema

/-! ## Reading names -/

/-- What a scope declares under a name; outside of all messages there is a scope too. -/
def child? (s : Schema) (scope : Option DeclId) (name : String) : Option DeclId :=
  (List.range s.size).find? fun d => s.parentOf? d == scope && s.nameOf d == name

/-- A scope and all around it, innermost first. -/
def scopes (s : Schema) : (depth : Nat) → Option DeclId → List (Option DeclId)
  | _, none => [none]
  | 0, some _ => [none]
  | depth + 1, some id => some id :: s.scopes depth (s.parentOf? id)

/-- The parts of a dotted name. -/
def segments (text : String) : List String := (text.toList.splitOn '.').map String.ofList

/-- What names lead to, one inside the other. -/
def follow? (s : Schema) (id : DeclId) (names : List String) : Option DeclId :=
  names.foldlM (fun d name => s.child? (some d) name) id

/-- What a text denotes inside a declaration. -/
def denoted? (s : Schema) (source : DeclId) (text : String) : Option DeclId :=
  match segments text with
  | [] => none
  | first :: rest =>
    ((s.scopes s.size (some source)).findSome? fun scope => s.child? scope first).bind (s.follow? · rest)

/-- Parents are there and lead outwards to an end, and no two declarations in one place have the same name. -/
structure WellScoped (s : Schema) : Prop where
  parent_lt : ∀ d p, s.parentOf? d = some p → p < s.size
  parents_end : WellFounded fun p d => s.parentOf? d = some p
  distinct : ∀ d < s.size, ∀ e < s.size, s.parentOf? d = s.parentOf? e → s.nameOf d = s.nameOf e → d = e
  undotted : ∀ d < s.size, '.' ∉ (s.nameOf d).toList

variable {s : Schema}

theorem segments_dotted {names : List String} (hne : names ≠ []) (hdots : ∀ n ∈ names, '.' ∉ n.toList) :
    segments (dotted names) = names.reverse := by
  unfold segments dotted
  rw [String.toList_intercalate, show ".".toList = ['.'] from rfl, List.splitOn_intercalate]
  · simp [Function.comp_def]
  · simpa using hdots
  · simpa using hne

/-- Names in two parts, the outer ones first. -/
theorem dotted_append {inner outer : List String} (hinner : inner ≠ []) (houter : outer ≠ []) :
    dotted (inner ++ outer) = dotted outer ++ "." ++ dotted inner := by
  have hinner' : inner.reverse ≠ [] := by simpa using hinner
  have houter' : outer.reverse ≠ [] := by simpa using houter
  unfold dotted
  rw [List.reverse_append, String.intercalate_append_of_ne_nil houter' hinner']

theorem child?_eq_some (h : s.WellScoped) {scope : Option DeclId} {name : String} {d : DeclId} :
    s.child? scope name = some d ↔ d < s.size ∧ s.parentOf? d = scope ∧ s.nameOf d = name := by
  constructor
  · intro hd
    have hlt : d < s.size := List.mem_range.1 (List.mem_of_find?_eq_some hd)
    simpa [hlt] using List.find?_some hd
  · rintro ⟨hlt, rfl, rfl⟩
    cases hc : s.child? (s.parentOf? d) (s.nameOf d) with
    | none =>
      have := List.find?_eq_none.1 hc d (List.mem_range.2 hlt)
      simp at this
    | some e =>
      have hlt' : e < s.size := List.mem_range.1 (List.mem_of_find?_eq_some hc)
      have he : s.parentOf? e = s.parentOf? d ∧ s.nameOf e = s.nameOf d := by simpa using List.find?_some hc
      rw [h.distinct e hlt' d hlt he.1 he.2]

theorem follow?_cons (id : DeclId) (name : String) (names : List String) :
    s.follow? id (name :: names) = (s.child? (some id) name).bind (s.follow? · names) := rfl

theorem follow?_append (id : DeclId) (names names' : List String) :
    s.follow? id (names ++ names') = (s.follow? id names).bind (s.follow? · names') := by
  simp [follow?]

/-- Names lead as many levels down as there are of them. -/
theorem level_of_follow? (h : s.WellScoped) {level : DeclId → Nat}
    (hlevel : ∀ x p, s.parentOf? x = some p → level x = level p + 1) {names : List String} {a d : DeclId}
    (hd : s.follow? a names = some d) : level d = level a + names.length := by
  induction names generalizing a with
  | nil =>
    cases hd
    rfl
  | cons name rest ih =>
    obtain ⟨c, hc, hrest⟩ := Option.bind_eq_some_iff.1 (follow?_cons .. ▸ hd)
    obtain ⟨-, hp, -⟩ := (child?_eq_some h).1 hc
    rw [ih hrest, hlevel c a hp, List.length_cons]
    omega

/-! ## Writing names -/

theorem undotted_outward (hdots : ∀ d < s.size, '.' ∉ (s.nameOf d).toList)
    (hparent : ∀ d p, s.parentOf? d = some p → p < s.size) {stop : DeclId → Bool} {depth : Nat} {id : DeclId}
    {name : String} (hid : id < s.size) (hname : name ∈ s.outward stop depth (some id)) : '.' ∉ name.toList := by
  induction depth generalizing id with
  | zero => simp [outward] at hname
  | succ depth ih =>
    simp only [outward] at hname
    split at hname
    · simp at hname
    · rcases List.mem_cons.1 hname with rfl | hname
      · exact hdots id hid
      · cases hp : s.parentOf? id with
        | none => cases depth <;> simp [hp, outward] at hname
        | some p => exact ih (hparent id p hp) (hp ▸ hname)

section Written
variable (h : s.WellScoped)
include h

theorem WellScoped.length_le {l : List DeclId} {id : DeclId} (hid : id < s.size)
    (hl : List.IsChain (fun p x => s.parentOf? x = some p) (id :: l)) : (id :: l).length ≤ s.size := by
  obtain ⟨level, -, hlevel⟩ := exists_level h.parents_end
  have hlt : ∀ x p, s.parentOf? x = some p → level p < level x := fun x p hp => by
    rw [hlevel x p hp]
    exact Nat.lt_succ_self _
  exact length_le_of_isChain hlt hid hl

/-- The scopes of a declaration are all that it is inside of, and the one outside of all. -/
theorem exists_scopes (depth : Nat) {id : DeclId} {l : List DeclId} (hid : id < s.size)
    (hl : List.IsChain (fun p x => s.parentOf? x = some p) (id :: l)) (hdepth : s.size ≤ depth + l.length) :
    ∃ around : List DeclId, s.scopes depth (some id) = (id :: around).map some ++ [none] ∧
      ∀ x, x ∈ id :: around ↔ s.Inside id x := by
  induction depth generalizing id l with
  | zero =>
    have hlen := h.length_le hid hl
    rw [List.length_cons] at hlen
    omega
  | succ depth ih =>
    rw [scopes]
    cases hp : s.parentOf? id with
    | none =>
      refine ⟨[], by cases depth <;> rfl, fun x => ?_⟩
      rw [List.mem_singleton]
      constructor
      · rintro rfl
        exact .refl
      · intro hx
        rcases Relation.ReflTransGen.cases_head hx with rfl | ⟨q, hq, -⟩
        · rfl
        · rw [hp] at hq
          cases hq
    | some p =>
      obtain ⟨around, haround, hmem⟩ := ih (h.parent_lt id p hp) (List.isChain_cons_cons.2 ⟨hp, hl⟩)
        (by rw [List.length_cons]; omega)
      refine ⟨p :: around, by rw [haround]; rfl, fun x => ?_⟩
      rw [List.mem_cons, hmem]
      constructor
      · rintro (rfl | hx)
        · exact .refl
        · exact .head hp hx
      · intro hx
        rcases Relation.ReflTransGen.cases_head hx with rfl | ⟨q, hq, hin⟩
        · exact .inl rfl
        · obtain rfl : q = p := Option.some.inj (hq.symm.trans hp)
          exact .inr hin

/-- The names from a declaration outwards, read from the other end, lead to it from one that is at the top or in a
declaration where naming stops. -/
theorem exists_path (stop : DeclId → Bool) (depth : Nat) {id : DeclId} {l : List DeclId} (hid : id < s.size)
    (hl : List.IsChain (fun p x => s.parentOf? x = some p) (id :: l)) (hdepth : s.size ≤ depth + l.length + 1) :
    ∃ a rest, (s.nameOf id :: s.outward stop depth (s.parentOf? id)).reverse = s.nameOf a :: rest ∧
      s.follow? a rest = some id ∧ a < s.size ∧ s.Inside id a ∧
      (s.parentOf? a = none ∧ (∀ x, s.Inside id x → x ≠ id → stop x = false) ∨
        ∃ p, s.parentOf? a = some p ∧ stop p = true) := by
  induction depth generalizing id l with
  | zero =>
    have hp : s.parentOf? id = none := by
      cases hp : s.parentOf? id with
      | none => rfl
      | some p =>
        have hlen := h.length_le (h.parent_lt id p hp) (List.isChain_cons_cons.2 ⟨hp, hl⟩)
        simp only [List.length_cons] at hlen
        omega
    refine ⟨id, [], by simp [outward], rfl, hid, .refl, .inl ⟨hp, fun x hx hne => ?_⟩⟩
    exact absurd (hx.eq_of_root hp) hne.symm
  | succ depth ih =>
    cases hp : s.parentOf? id with
    | none =>
      refine ⟨id, [], by simp [outward], rfl, hid, .refl, .inl ⟨hp, fun x hx hne => ?_⟩⟩
      exact absurd (hx.eq_of_root hp) hne.symm
    | some p =>
      cases hstop : stop p with
      | true => exact ⟨id, [], by simp [outward, hstop], rfl, hid, .refl, .inr ⟨p, hp, hstop⟩⟩
      | false =>
        obtain ⟨a, rest, hnames, hfollow, ha, hin, hend⟩ := ih (h.parent_lt id p hp)
          (List.isChain_cons_cons.2 ⟨hp, hl⟩) (by rw [List.length_cons]; omega)
        refine ⟨a, rest ++ [s.nameOf id], ?_, ?_, ha, .head hp hin, hend.imp_left ?_⟩
        · simp only [outward, hstop, Bool.false_eq_true, if_false]
          rw [List.reverse_cons, hnames, List.cons_append]
        · have hchild : s.child? (some p) (s.nameOf id) = some id := (child?_eq_some h).2 ⟨hid, hp, rfl⟩
          rw [follow?_append, hfollow, Option.bind_some, follow?_cons, hchild]
          rfl
        · rintro ⟨hroot, hfree⟩
          refine ⟨hroot, fun x hx hne => ?_⟩
          rcases Relation.ReflTransGen.cases_head hx with rfl | ⟨q, hq, hqx⟩
          · exact absurd rfl hne
          · obtain rfl : q = p := Option.some.inj (hq.symm.trans hp)
            by_cases hxq : x = q
            · rw [hxq, hstop]
            · exact hfree x hqx hxq

/-- The parts of a name as it is written. -/
theorem segments_qualify {source target : DeclId} (ht : target < s.size) :
    segments (s.qualify source target) =
      (s.nameOf target :: s.outward (· == source) s.size (s.parentOf? target)).reverse := by
  refine segments_dotted (List.cons_ne_nil _ _) fun name hname => ?_
  rcases List.mem_cons.1 hname with rfl | hname
  · exact h.undotted target ht
  · cases hp : s.parentOf? target with
    | none => cases hsize : s.size <;> simp [hp, hsize, outward] at hname
    | some p => exact undotted_outward h.undotted h.parent_lt (h.parent_lt target p hp) (hp ▸ hname)

/-- No scope of a declaration has a name in it just when nothing in a declaration around it is called so. -/
theorem findSome?_scopes_eq_none {source : DeclId} {around : List DeclId} {name : String}
    (haround : ∀ x, x ∈ source :: around ↔ s.Inside source x) :
    (source :: around).findSome? (fun x => s.child? (some x) name) = none ↔
      ∀ x c, s.Inside source x → s.parentOf? c = some x → s.nameOf c ≠ name := by
  rw [List.findSome?_eq_none_iff]
  constructor
  · intro hnone x c hx hc hname
    have hchild : s.child? (some x) name = some c := (child?_eq_some h).2 ⟨lt_size_of_parentOf? hc, hc, hname⟩
    rw [hnone x ((haround x).2 hx)] at hchild
    cases hchild
  · intro hfresh x hx
    cases hc : s.child? (some x) name with
    | none => rfl
    | some c =>
      obtain ⟨-, hcx, hname⟩ := (child?_eq_some h).1 hc
      exact absurd hname (hfresh x c ((haround x).1 hx) hcx)

/-- The names that lead somewhere from the top do not lead there from inside a declaration. -/
theorem follow?_ne_of_root {a d p target : DeclId} {names : List String} (ha : s.parentOf? a = none)
    (hd : s.parentOf? d = some p) (hfollow : s.follow? a names = some target) : s.follow? d names ≠ some target := by
  obtain ⟨level, hroot, hlevel⟩ := exists_level h.parents_end
  intro hinner
  have hfromRoot := level_of_follow? h hlevel hfollow
  have hfromInner := level_of_follow? h hlevel hinner
  rw [hroot a ha] at hfromRoot
  rw [hlevel d p hd] at hfromInner
  omega

/-- No names lead from a declaration to the one around it. -/
theorem ne_of_follow? {a p target : DeclId} {names : List String} (ha : s.parentOf? a = some p)
    (hfollow : s.follow? a names = some target) : target ≠ p := by
  obtain ⟨level, -, hlevel⟩ := exists_level h.parents_end
  rintro rfl
  have hlevels := level_of_follow? h hlevel hfollow
  rw [hlevel a target ha] at hlevels
  omega

end Written

/-- A written name denotes its target just when the target is inside the source, or nothing that a scope of the source
declares has the name of the outermost declaration around the target. -/
theorem denoted_qualify_iff (h : s.WellScoped) {source target : DeclId} (hs : source < s.size) (ht : target < s.size) :
    s.denoted? source (s.qualify source target) = some target ↔
      (target ≠ source ∧ s.Inside target source) ∨
        ∀ r x c, s.Inside target r → s.parentOf? r = none → s.Inside source x → s.parentOf? c = some x →
          s.nameOf c ≠ s.nameOf r := by
  obtain ⟨around, hscopes, haround⟩ := exists_scopes h s.size (l := []) hs (List.isChain_singleton _) (by simp)
  obtain ⟨a, rest, hnames, hfollow, ha, hin, hend⟩ :=
    exists_path h (· == source) s.size (l := []) ht (List.isChain_singleton _) (by simp)
  have hdenoted : s.denoted? source (s.qualify source target) =
      (((source :: around).findSome? fun x => s.child? (some x) (s.nameOf a)).or
        (s.child? none (s.nameOf a))).bind (s.follow? · rest) := by
    unfold denoted?
    rw [segments_qualify h ht, hnames, hscopes]
    simp only [List.findSome?_append, List.findSome?_map, Function.comp_def, List.findSome?_singleton]
  rw [hdenoted]
  rcases hend with ⟨haroot, hfree⟩ | ⟨p, hp, hstop⟩
  · have hout : ¬(target ≠ source ∧ s.Inside target source) := by
      rintro ⟨hne, hts⟩
      have := hfree source hts hne.symm
      simp at this
    rw [or_iff_right hout]
    constructor
    · intro hd r x c hr hrroot
      obtain rfl := eq_of_roots hr hin hrroot haroot
      cases hfound : (source :: around).findSome? fun x => s.child? (some x) (s.nameOf r) with
      | none => exact (findSome?_scopes_eq_none h haround).1 hfound x c
      | some d =>
        obtain ⟨y, -, hy⟩ := List.exists_of_findSome?_eq_some hfound
        obtain ⟨-, hdy, -⟩ := (child?_eq_some h).1 hy
        rw [hfound, Option.some_or, Option.bind_some] at hd
        exact absurd hd (follow?_ne_of_root h haroot hdy hfollow)
    · intro hfresh
      have hnone := (findSome?_scopes_eq_none h haround).2 fun x c => hfresh a x c hin haroot
      have hroot : s.child? none (s.nameOf a) = some a := (child?_eq_some h).2 ⟨ha, haroot, rfl⟩
      rw [hnone, Option.none_or, hroot, Option.bind_some, hfollow]
  · -- The first name is that of a declaration in the source itself.
    obtain rfl : p = source := by simpa using hstop
    have hchild : s.child? (some p) (s.nameOf a) = some a := (child?_eq_some h).2 ⟨ha, hp, rfl⟩
    rw [List.findSome?_cons, hchild, Option.some_or, Option.bind_some, hfollow]
    simp only [true_iff]
    exact .inl ⟨ne_of_follow? h hp hfollow, hin.tail hp⟩

section Sample

/-- A message with three inside, one of them called like it, and another message beside it. -/
def namesakes : Schema where
  decls := [
    { name := "A", isDeprecated := false, body := .message { nested := [1, 2, 3] } },
    { name := "A", isDeprecated := false, parent := some 0, body := .message {} },
    { name := "B", isDeprecated := false, parent := some 0, body := .message {} },
    { name := "C", isDeprecated := false, parent := some 0, body := .message { nested := [4] } },
    { name := "D", isDeprecated := false, parent := some 3, body := .message {} },
    { name := "E", isDeprecated := false, body := .message {} }]

theorem wellScoped_namesakes : namesakes.WellScoped where
  parent_lt d p hp := by
    have hd := lt_size_of_parentOf? hp
    have hall : ∀ d < namesakes.size, ∀ p ∈ namesakes.parentOf? d, p < namesakes.size := by decide +kernel
    exact hall d hd p hp
  parents_end := by
    refine Subrelation.wf (r := (· < ·)) (fun {p d} hp => ?_) wellFounded_lt
    have hd := lt_size_of_parentOf? hp
    have hall : ∀ d < namesakes.size, ∀ p ∈ namesakes.parentOf? d, p < d := by decide +kernel
    exact hall d hd p hp
  distinct := by decide +kernel
  undotted := by decide +kernel

/-- Inside `E` the name `A.C.D` denotes its target, as nothing in `E` is called `A`. -/
theorem denoted_qualify_namesakes :
    namesakes.WellScoped ∧ namesakes.qualify 5 4 = "A.C.D" ∧ namesakes.denoted? 5 "A.C.D" = some 4 ∧
      (namesakes.denoted? 5 (namesakes.qualify 5 4) = some 4 ↔
        (4 ≠ 5 ∧ namesakes.Inside 4 5) ∨
          ∀ r x c, namesakes.Inside 4 r → namesakes.parentOf? r = none → namesakes.Inside 5 x →
            namesakes.parentOf? c = some x → namesakes.nameOf c ≠ namesakes.nameOf r) :=
  ⟨wellScoped_namesakes, by decide +kernel, by decide +kernel,
    denoted_qualify_iff wellScoped_namesakes (by decide) (by decide)⟩

/-- Inside `A.B` the name `A.C` starts at the inner `A`, which has nothing called `C`. -/
theorem qualified_name_shadowed :
    namesakes.WellScoped ∧ namesakes.qualify 2 3 = "A.C" ∧ namesakes.denoted? 2 "A.C" = none ∧
      namesakes.denoted? 2 "C" = some 3 :=
  ⟨wellScoped_namesakes, by decide +kernel, by decide +kernel, by decide +kernel⟩

end Sample

end ProtoRecovery.Schema
