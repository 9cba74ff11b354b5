import ProtoRecovery.Proofs.Recovery.Bodies
import ProtoRecovery.Proofs.Schema.Forest
import ProtoRecovery.Schema.Walk
/-!
# Walking a forest

A walk goes from the files down through what is nested. In a forest it comes to every declaration once, and in a
well-formed message to every field once, so what it counts is what there is.
-/

namespace ProtoRecovery.Schema

open Message (Ascending WellFormed)

variable {s : Schema}

/-! ## A walk by its declarations -/

/-- The elements of a declaration itself, without those nested in it. -/
def Declaration.elements (d : Declaration) : List Element :=
  match d.body with
  | .message m =>
    .message d.name m :: m.plainFields.map .field ++
      m.choices.flatMap fun c => .choice c :: (m.fieldsOf c).map .field
  | .enum e => [.enum d.name e]
  | .service service => .service d.name service :: service.methods.map .method

/-- The elements of the declaration at a position. -/
def elementsAt (s : Schema) (id : DeclId) : List Element := (s.decls[id]?.map (·.elements)).getD []

/-- The declarations of a file in the order of a walk. -/
def visitOrder (s : Schema) (file : File) : List DeclId := file.tops.flatMap s.descendants

theorem walkDecl_succ (depth : Nat) (id : DeclId) :
    s.walkDecl (depth + 1) id = s.elementsAt id ++ (s.nestedIn id).flatMap (s.walkDecl depth) := by
  unfold walkDecl elementsAt nestedIn
  cases s.decls[id]? with
  | none => rfl
  | some d =>
    obtain ⟨name, deprecated, file, parent, body⟩ := d
    cases body <;> simp [Declaration.elements, Declaration.nested, Declaration.message?]

theorem walkDecl_eq (depth : Nat) (id : DeclId) : s.walkDecl depth id = (s.descend depth id).flatMap s.elementsAt := by
  induction depth generalizing id with
  | zero => rfl
  | succ depth ih =>
    rw [walkDecl_succ, descend, List.flatMap_cons, List.flatMap_assoc, funext ih]

theorem walk_eq :
    s.walk = s.files.flatMap fun file => .file file :: (s.visitOrder file).flatMap s.elementsAt := by
  refine List.flatMap_congr fun file _ => ?_
  unfold walkFile visitOrder
  rw [List.flatMap_assoc]
  congr 2
  funext id
  exact walkDecl_eq s.size id

/-! ## Every declaration once -/

theorem Forest.linked (h : s.Forest) : s.Linked where
  parent_of_nested p c hc := (h.mem_nestedIn c p).1 hc
  parent_lt _ _ hp := h.parent_lt hp
  file_up c p f hp hf := (h.nested_file c p hp) ▸ hf
  file_lt c f hf := by
    have hc : c < s.size := by
      by_contra hc
      simp [fileOf?, List.getElem?_eq_none (not_lt.1 hc)] at hf
    obtain ⟨r, g, -, -, -, hr, hg⟩ := h.exists_top c hc
    obtain rfl : g = f := Option.some.inj (hg.symm.trans hf)
    by_contra hlt
    simp [topsOf, List.getElem?_eq_none (not_lt.1 hlt)] at hr

section Rank
variable {rank : DeclId → Nat} (hrank : ∀ x p, s.parentOf? x = some p → rank p < rank x)
include hrank

theorem Inside.rank_le {x a : DeclId} (h : s.Inside x a) : rank a ≤ rank x := by
  induction h with
  | refl => exact le_rfl
  | tail _ hp ih => exact (hrank _ _ hp).le.trans ih

/-- Neither of two different siblings is inside the other. -/
theorem Inside.eq_of_sibling {a b p : DeclId} (h : s.Inside a b) (ha : s.parentOf? a = some p)
    (hb : s.parentOf? b = some p) : a = b := by
  rcases Relation.ReflTransGen.cases_head h with rfl | ⟨q, hq, hin⟩
  · rfl
  · obtain rfl : q = p := Option.some.inj (hq.symm.trans ha)
    have hle : rank b ≤ rank q := Inside.rank_le hrank hin
    exact absurd (hrank b q hb) (not_lt.2 hle)

theorem nodup_descend (h : s.Forest) (depth : Nat) (id : DeclId) : (s.descend depth id).Nodup := by
  induction depth generalizing id with
  | zero => exact .nil
  | succ depth ih =>
    refine List.nodup_cons.2 ⟨?_, List.nodup_flatMap.2 ⟨fun c _ => ih c, ?_⟩⟩
    · -- Everything further down has a higher rank.
      rw [List.mem_flatMap]
      rintro ⟨c, hc, hid⟩
      have hle := Inside.rank_le hrank (inside_of_mem_descend h.linked hid)
      exact absurd (hrank c id ((h.mem_nestedIn c id).1 hc)) (not_lt.2 hle)
    · refine (h.nodup_nestedIn id).imp_of_mem fun {a b} ha hb hne x hxa hxb => hne ?_
      have ha := (h.mem_nestedIn a id).1 ha
      have hb := (h.mem_nestedIn b id).1 hb
      have hxa := inside_of_mem_descend h.linked hxa
      have hxb := inside_of_mem_descend h.linked hxb
      rcases inside_total hxa hxb with hab | hba
      · exact Inside.eq_of_sibling hrank hab ha hb
      · exact (Inside.eq_of_sibling hrank hba hb ha).symm

end Rank

theorem flatMap_tops : s.files.flatMap (·.tops) = (List.range s.files.length).flatMap s.topsOf := by
  have hmap : s.files.map (·.tops) = (List.range s.files.length).map s.topsOf := by
    refine List.ext_getElem (by simp) fun i hi _ => ?_
    simp only [List.length_map] at hi
    simp [topsOf, hi]
  rw [List.flatMap_def, List.flatMap_def, hmap]

theorem mem_tops_iff {r : DeclId} : r ∈ s.files.flatMap (·.tops) ↔ ∃ f, r ∈ s.topsOf f := by
  rw [flatMap_tops]
  simp only [List.mem_flatMap, List.mem_range]
  constructor
  · rintro ⟨f, -, hr⟩
    exact ⟨f, hr⟩
  · rintro ⟨f, hr⟩
    refine ⟨f, ?_, hr⟩
    by_contra hf
    simp [topsOf, List.getElem?_eq_none (not_lt.1 hf)] at hr

theorem Forest.root_of_top (h : s.Forest) {r : DeclId} (hr : r ∈ s.files.flatMap (·.tops)) :
    r < s.size ∧ s.parentOf? r = none := by
  have hlt : r < s.size := h.listed_lt r (List.mem_append_left _ (flatMap_tops (s := s) ▸ hr))
  exact ⟨hlt, (h.mem_topsOf r hlt).1 (mem_tops_iff.1 hr)⟩

/-- A walk comes to each declaration of a forest exactly once. -/
theorem Forest.visitOrder_perm (h : s.Forest) : (s.files.flatMap s.visitOrder).Perm (List.range s.size) := by
  obtain ⟨rank, -, hlevel⟩ := exists_level h.parents_end
  have hrank : ∀ x p, s.parentOf? x = some p → rank p < rank x := fun x p hp => by have := hlevel x p hp; omega
  have hflat : s.files.flatMap s.visitOrder = (s.files.flatMap (·.tops)).flatMap s.descendants :=
    List.flatMap_assoc.symm
  have htops : (s.files.flatMap (·.tops)).Nodup := by
    rw [flatMap_tops]
    exact h.nodup_listed.sublist (List.sublist_append_left _ _)
  rw [hflat]
  refine (List.perm_ext_iff_of_nodup (List.nodup_flatMap.2 ⟨fun r _ => nodup_descend hrank h _ r, ?_⟩)
    List.nodup_range).2 fun x => ?_
  · -- Two trees share nothing: what is at the top is inside nothing else.
    refine htops.imp_of_mem fun {a b} ha hb hne x hxa hxb => hne ?_
    exact eq_of_roots (inside_of_mem_descend h.linked hxa) (inside_of_mem_descend h.linked hxb) (h.root_of_top ha).2
      (h.root_of_top hb).2
  · rw [List.mem_flatMap, List.mem_range]
    constructor
    · rintro ⟨r, hr, hx⟩
      rcases Relation.ReflTransGen.cases_head (inside_of_mem_descend h.linked hx) with rfl | ⟨p, hp, -⟩
      · exact (h.root_of_top hr).1
      · exact lt_size_of_parentOf? hp
    · intro hx
      obtain ⟨r, f, hr, hin, -, hf, -⟩ := h.exists_top x hx
      refine ⟨r, mem_tops_iff.2 ⟨f, hf⟩, ?_⟩
      exact mem_descendants_of_inside rank hrank (fun y p _ hp => (h.mem_nestedIn y p).2 hp) hr hin

/-- The elements of a forest, each as often as it is there. -/
theorem Forest.walk_perm (h : s.Forest) :
    s.walk.Perm (s.files.map .file ++ s.decls.flatMap (·.elements)) := by
  have hdecls : (List.range s.size).flatMap s.elementsAt = s.decls.flatMap (·.elements) := by
    have hmap : (List.range s.size).map s.elementsAt = s.decls.map (·.elements) := by
      refine List.ext_getElem (by simp [size]) fun i hi hi' => ?_
      simp only [List.length_map] at hi'
      simp [elementsAt, hi']
    rw [List.flatMap_def, List.flatMap_def, hmap]
  rw [walk_eq, ← hdecls]
  -- The files first, then all declarations in the order of the walk.
  have hfiles : s.files.flatMap (fun file => [Element.file file]) = s.files.map .file :=
    List.map_eq_flatMap.symm
  have hvisits : (s.files.flatMap fun file => (s.visitOrder file).flatMap s.elementsAt) =
      (s.files.flatMap s.visitOrder).flatMap s.elementsAt := List.flatMap_assoc.symm
  refine (List.flatMap_append_perm s.files (fun file => [Element.file file])
    (fun file => (s.visitOrder file).flatMap s.elementsAt)).symm.trans ?_
  rw [hfiles, hvisits]
  exact (h.visitOrder_perm.flatMap_right _).append_left _

/-! ## Every field once -/

section Fields
variable {m : Message}

theorem Message.choiceOf?_isNone {n : Int} :
    (m.choiceOf? n).isNone = true ↔ n ∉ m.choices.flatMap (·.numbers) := by
  simp [Message.choiceOf?, List.mem_flatMap]

theorem Message.WellFormed.nodup_fields (h : m.WellFormed) : m.fields.Nodup :=
  h.ascending.imp fun hlt heq => absurd (heq ▸ hlt) (lt_irrefl _)

theorem Message.WellFormed.ascending_plainFields (h : m.WellFormed) : Ascending m.plainFields :=
  h.ascending.sublist List.filter_sublist

/-- A choice shows its fields in the order in which it lists them, and leaves none out. -/
theorem Message.WellFormed.numbers_fieldsOf (h : m.WellFormed) {c : Choice} (hc : c ∈ m.choices) :
    (m.fieldsOf c).map (·.number) = c.numbers := by
  have hnumbers : ∀ ns : List Int, (∀ n ∈ ns, (m.field? n).isSome = true) →
      (ns.filterMap m.field?).map (·.number) = ns := by
    intro ns hns
    induction ns with
    | nil => rfl
    | cons n rest ih =>
      obtain ⟨f, hf⟩ := Option.isSome_iff_exists.1 (hns n (by simp))
      have hn : f.number = n := by simpa using List.find?_some hf
      rw [List.filterMap_cons_some hf, List.map_cons, hn, ih fun k hk => hns k (by simp [hk])]
  exact hnumbers c.numbers fun n hn => (h.members c hc n hn).2

theorem Message.mem_of_field? {n : Int} {f : Field} (hf : m.field? n = some f) : f ∈ m.fields ∧ f.number = n :=
  ⟨List.mem_of_find?_eq_some hf, by simpa using List.find?_some hf⟩

theorem Message.WellFormed.fieldsOf_perm (h : m.WellFormed) :
    (m.choices.flatMap m.fieldsOf).Perm (m.fields.filter fun f => !(m.choiceOf? f.number).isNone) := by
  have hflat : m.choices.flatMap m.fieldsOf = (m.choices.flatMap (·.numbers)).filterMap m.field? := by
    rw [List.filterMap_flatMap]
    rfl
  rw [hflat]
  refine (List.perm_ext_iff_of_nodup ?_ (h.nodup_fields.filter _)).2 fun f => ?_
  · refine h.disjoint.filterMap fun n k f hn hk => ?_
    exact (Message.mem_of_field? hn).2.symm.trans (Message.mem_of_field? hk).2
  · rw [List.mem_filterMap, List.mem_filter, Bool.not_eq_true', ← Bool.not_eq_true, Message.choiceOf?_isNone, not_not]
    constructor
    · rintro ⟨n, hn, hf⟩
      obtain ⟨hmem, rfl⟩ := Message.mem_of_field? hf
      exact ⟨hmem, hn⟩
    · rintro ⟨hmem, hn⟩
      exact ⟨f.number, hn, h.keyed f hmem⟩

/-- Plain fields and those of the choices are all fields, each once. -/
theorem Message.WellFormed.fields_perm (h : m.WellFormed) :
    (m.plainFields ++ m.choices.flatMap m.fieldsOf).Perm m.fields :=
  (h.fieldsOf_perm.append_left _).trans (List.filter_append_perm ..)

end Fields

/-! ## What is counted -/

/-- The sum of two counts. -/
def Counts.plus (a b : Counts) : Counts :=
  ⟨a.files + b.files, a.messages + b.messages, a.fields + b.fields, a.choices + b.choices, a.enums + b.enums,
    a.services + b.services, a.methods + b.methods⟩

/-- How many elements of each kind are in a list. -/
def tally (es : List Element) : Counts := es.foldl Counts.add {}

/-- How much of each kind is declared. -/
def declared (ds : List Declaration) : Counts where
  messages := (ds.filterMap (·.message?)).length
  fields := ((ds.filterMap (·.message?)).map (·.fields.length)).sum
  choices := ((ds.filterMap (·.message?)).map (·.choices.length)).sum
  enums := (ds.filterMap (·.enum?)).length
  services := (ds.filterMap (·.service?)).length
  methods := ((ds.filterMap (·.service?)).map (·.methods.length)).sum

theorem foldl_add (c : Counts) (es : List Element) : es.foldl Counts.add c = c.plus (tally es) := by
  induction es generalizing c with
  | nil => rfl
  | cons e rest ih =>
    rw [tally, List.foldl_cons, List.foldl_cons, ih, ih (Counts.add {} e)]
    cases e <;> simp [Counts.add, Counts.plus, Nat.add_assoc, Nat.add_comm 1]

theorem tally_append (es es' : List Element) : tally (es ++ es') = (tally es).plus (tally es') := by
  rw [tally, List.foldl_append, foldl_add]
  rfl

theorem tally_cons (e : Element) (es : List Element) : tally (e :: es) = (Counts.add {} e).plus (tally es) :=
  foldl_add _ es

theorem tally_perm {es es' : List Element} (h : es.Perm es') : tally es = tally es' := by
  refine List.Perm.foldl_eq' h ?_ _
  intro e _ e' _ c
  cases e <;> cases e' <;> rfl

theorem tally_map {α : Type} {f : α → Element} {c : Nat → Counts} (hnil : c 0 = {})
    (hcons : ∀ a n, (Counts.add {} (f a)).plus (c n) = c (n + 1)) (l : List α) : tally (l.map f) = c l.length := by
  induction l with
  | nil => exact hnil.symm
  | cons a rest ih => rw [List.map_cons, tally_cons, ih, hcons, List.length_cons]

theorem tally_files (l : List File) : tally (l.map .file) = { files := l.length } :=
  tally_map (c := fun n => { files := n }) rfl (fun _ n => by simp [Counts.add, Counts.plus, Nat.add_comm]) l

theorem tally_fields (l : List Field) : tally (l.map .field) = { fields := l.length } :=
  tally_map (c := fun n => { fields := n }) rfl (fun _ n => by simp [Counts.add, Counts.plus, Nat.add_comm]) l

theorem tally_methods (l : List Method) : tally (l.map .method) = { methods := l.length } :=
  tally_map (c := fun n => { methods := n }) rfl (fun _ n => by simp [Counts.add, Counts.plus, Nat.add_comm]) l

theorem tally_choices (m : Message) (cs : List Choice) :
    tally (cs.flatMap fun c => .choice c :: (m.fieldsOf c).map .field) =
      { choices := cs.length, fields := (cs.flatMap m.fieldsOf).length } := by
  induction cs with
  | nil => rfl
  | cons c rest ih =>
    rw [List.flatMap_cons, List.cons_append, tally_cons, tally_append, tally_fields, ih, List.flatMap_cons]
    simp [Counts.add, Counts.plus, Nat.add_comm]

theorem tally_elements {d : Declaration} (hd : ∀ m, d.message? = some m → m.WellFormed) :
    tally d.elements = declared [d] := by
  obtain ⟨name, deprecated, file, parent, body⟩ := d
  cases body with
  | message m =>
    have hlen : m.plainFields.length + (m.choices.flatMap m.fieldsOf).length = m.fields.length := by
      rw [← List.length_append]
      exact (hd m rfl).fields_perm.length_eq
    show tally (.message name m :: m.plainFields.map .field ++ _) = _
    rw [List.cons_append, tally_cons, tally_append, tally_fields, tally_choices]
    simpa [Counts.add, Counts.plus, declared, Declaration.message?, Declaration.enum?, Declaration.service?] using hlen
  | enum e => rfl
  | service v =>
    show tally (.service name v :: v.methods.map .method) = _
    rw [tally_cons, tally_methods]
    simp [Counts.add, Counts.plus, declared, Declaration.message?, Declaration.enum?, Declaration.service?]

theorem declared_cons (d : Declaration) (ds : List Declaration) :
    declared (d :: ds) = (declared [d]).plus (declared ds) := by
  obtain ⟨name, deprecated, file, parent, body⟩ := d
  cases body <;>
    simp [declared, Counts.plus, Declaration.message?, Declaration.enum?, Declaration.service?, Nat.add_comm]

/-- Of a forest with well-formed messages, everything is counted once. -/
theorem Forest.counts_eq (h : s.Forest) (hm : ∀ d ∈ s.decls, ∀ m, d.message? = some m → m.WellFormed) :
    s.counts = { declared s.decls with files := s.files.length } := by
  have hdecls : ∀ ds : List Declaration, (∀ d ∈ ds, ∀ m, d.message? = some m → m.WellFormed) →
      tally (ds.flatMap (·.elements)) = declared ds := by
    intro ds hds
    induction ds with
    | nil => rfl
    | cons d rest ih =>
      rw [List.flatMap_cons, tally_append, tally_elements (hds d (by simp)), ih fun e he => hds e (by simp [he]),
        ← declared_cons]
  rw [show s.counts = tally s.walk from rfl, tally_perm h.walk_perm, tally_append, tally_files, hdecls s.decls hm]
  simp [Counts.plus, declared]

theorem declared_kinds (ds : List Declaration) :
    (declared ds).messages + (declared ds).enums + (declared ds).services = ds.length := by
  induction ds with
  | nil => rfl
  | cons d rest ih =>
    have hd : (declared [d]).messages + (declared [d]).enums + (declared [d]).services = 1 := by
      obtain ⟨name, deprecated, file, parent, body⟩ := d
      cases body <;> rfl
    rw [declared_cons, List.length_cons]
    simp only [Counts.plus]
    omega

/-! ## All at once -/

/-- A walk that comes to everything once: the declarations of a file from the top down, in each message the plain fields
in ascending order and then the fields of each choice as it lists them. -/
structure WalksOnce (s : Schema) : Prop where
  order : s.walk = s.files.flatMap fun file => .file file :: (s.visitOrder file).flatMap s.elementsAt
  declarations : (s.files.flatMap s.visitOrder).Perm (List.range s.size)
  fields : ∀ d ∈ s.decls, ∀ m, d.message? = some m → (m.plainFields ++ m.choices.flatMap m.fieldsOf).Perm m.fields
  ascending : ∀ d ∈ s.decls, ∀ m, d.message? = some m → Ascending m.plainFields
  listed : ∀ d ∈ s.decls, ∀ m, d.message? = some m → ∀ c ∈ m.choices, (m.fieldsOf c).map (·.number) = c.numbers
  counts : s.counts = { declared s.decls with files := s.files.length }
  kinds : s.counts.messages + s.counts.enums + s.counts.services = s.size

theorem Forest.walksOnce (h : s.Forest) (hm : ∀ d ∈ s.decls, ∀ m, d.message? = some m → m.WellFormed) :
    s.WalksOnce where
  order := walk_eq
  declarations := h.visitOrder_perm
  fields d hd m hdm := (hm d hd m hdm).fields_perm
  ascending d hd m hdm := (hm d hd m hdm).ascending_plainFields
  listed d hd m hdm _ hc := (hm d hd m hdm).numbers_fieldsOf hc
  counts := h.counts_eq hm
  kinds := by
    rw [h.counts_eq hm]
    exact declared_kinds s.decls

end ProtoRecovery.Schema
