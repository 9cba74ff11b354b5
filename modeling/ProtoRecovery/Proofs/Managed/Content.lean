import ProtoRecovery.Proofs.Managed.Profile
import ProtoRecovery.Proofs.Recovery.Trace
/-!
# What recoveries add

`Adds R roots new extra s s'` says that the classes `new` were declared between two states, for the sake of `roots`:
each of them has the face that its profile tells, and nothing else has another face. What was noted on the way are the
anomalies of these classes, and `extra`. Every recovery that ends well adds some classes in this sense.
-/

namespace ProtoRecovery.Managed

open Catalog (Attribute Property)
open Recovery (State Recover Readable Calls Diagnostic Gives InProgress place singleType fieldType addProperty addProperties
  messageBody message enum callsWithin settle finishMessage finishEnum openFile linkPath linkFiles fieldOf attributesOf)
open Relation (ReflTransGen)
open Schema (DeclId FieldType Kind Message Body Face EnumMember)

variable {R : Reader}

/-- Where a class is declared. -/
def refIn (s : State TypeRef) (t : TypeRef) : DeclId := (s.find? t.key).getD 0

/-- A class is declared. -/
def Met (s : State TypeRef) (t : TypeRef) : Prop := (s.find? t.key).isSome = true

/-- A declaration has the face that the profile of its class tells. -/
def Told (R : Reader) (s : State TypeRef) (id : DeclId) (t : TypeRef) : Prop :=
  t.Spelled ∧ ∃ P, R.profileOf? t = some P ∧ (∀ u ∈ P.classes R, Met s u) ∧
    s.schema.faceOf? id = some (P.face R (refIn s))

/-- What is noted of a class. -/
def Reader.diagnosticsOf (R : Reader) (t : TypeRef) : List Diagnostic :=
  ((R.profileOf? t).map (·.diagnostics R t)).getD []

/-- The entries of classes that are declared one after the other. -/
def noted : (first : DeclId) → List TypeRef → List (String × DeclId)
  | _, [] => []
  | first, t :: rest => (t.key, first) :: noted (first + 1) rest

/-- Classes were declared between two states, each with the face that its profile tells. They are `roots` and all that
these refer to, as far as they were not there. -/
structure Adds (R : Reader) (roots new : List TypeRef) (extra : List Diagnostic) (s s' : State TypeRef) : Prop where
  pool : Clear s'.pool
  met : ∀ r ∈ roots, Met s' r
  reached : ∀ t ∈ new, ∃ r ∈ roots, ReflTransGen R.Refers r t
  size : s'.schema.size = s.schema.size + new.length
  memo : s'.memo = s.memo ++ noted s.schema.size new
  old : ∀ i < s.schema.size, s'.schema.faceOf? i = s.schema.faceOf? i
  told : ∀ i t, new[i]? = some t → Told R s' (s.schema.size + i) t
  diagnostics : s'.diagnostics.Perm (s.diagnostics ++ extra ++ new.flatMap R.diagnosticsOf)

section Adds
variable {roots roots' new more : List TypeRef} {extra extra' : List Diagnostic} {s s₁ s' : State TypeRef} {t u : TypeRef}

theorem noted_append (first : DeclId) (xs ys : List TypeRef) :
    noted first (xs ++ ys) = noted first xs ++ noted (first + xs.length) ys := by
  induction xs generalizing first with
  | nil => rfl
  | cons x rest ih =>
    simp only [List.cons_append, noted, ih, List.length_cons]
    rw [Nat.add_assoc, Nat.add_comm 1]

theorem mem_noted {first : DeclId} {xs : List TypeRef} {n : String} {id : DeclId} (h : (n, id) ∈ noted first xs) :
    ∃ i t, xs[i]? = some t ∧ t.key = n ∧ id = first + i := by
  induction xs generalizing first with
  | nil => cases h
  | cons x rest ih =>
    rcases List.mem_cons.1 h with h | h
    · cases h
      exact ⟨0, x, rfl, rfl, rfl⟩
    · obtain ⟨i, t, ht, hn, rfl⟩ := ih h
      exact ⟨i + 1, t, ht, hn, by rw [Nat.add_assoc, Nat.add_comm 1]⟩

theorem find?_of_prefix {n : String} {id : DeclId} (h : s.memo <+: s'.memo) (hn : s.find? n = some id) :
    s'.find? n = some id := Recovery.lookup_of_prefix h hn

theorem Met.mono (h : s.memo <+: s'.memo) (hu : Met s u) : Met s' u ∧ refIn s' u = refIn s u := by
  obtain ⟨id, hid⟩ := Option.isSome_iff_exists.1 hu
  have hid' := find?_of_prefix h hid
  exact ⟨by rw [Met, hid']; rfl, by rw [refIn, refIn, hid, hid']⟩

theorem Told.mono {id : DeclId} (h : s.memo <+: s'.memo) (hface : s'.schema.faceOf? id = s.schema.faceOf? id)
    (ht : Told R s id t) : Told R s' id t := by
  obtain ⟨hspelled, P, hP, hmet, hf⟩ := ht
  refine ⟨hspelled, P, hP, fun u hu => ((hmet u hu).mono h).1, ?_⟩
  rw [hface, hf, face_congr fun u hu => ((hmet u hu).mono h).2]

theorem Adds.prefix_memo (h : Adds R roots new extra s s') : s.memo <+: s'.memo := ⟨_, h.memo.symm⟩

theorem Adds.trans (h₁ : Adds R roots new extra s s₁) (h₂ : Adds R roots' more extra' s₁ s') :
    Adds R (roots ++ roots') (new ++ more) (extra ++ extra') s s' where
  pool := h₂.pool
  met r hr := by
    rcases List.mem_append.1 hr with hr | hr
    · exact ((h₁.met r hr).mono h₂.prefix_memo).1
    · exact h₂.met r hr
  reached t ht := by
    rcases List.mem_append.1 ht with ht | ht
    · obtain ⟨r, hr, hreach⟩ := h₁.reached t ht
      exact ⟨r, List.mem_append_left _ hr, hreach⟩
    · obtain ⟨r, hr, hreach⟩ := h₂.reached t ht
      exact ⟨r, List.mem_append_right _ hr, hreach⟩
  size := by rw [h₂.size, h₁.size, List.length_append, Nat.add_assoc]
  memo := by rw [h₂.memo, h₁.memo, h₁.size, noted_append, List.append_assoc]
  old i hi := by rw [h₂.old i (by rw [h₁.size]; exact Nat.lt_add_right _ hi), h₁.old i hi]
  told i t ht := by
    by_cases hi : i < new.length
    · rw [List.getElem?_append_left hi] at ht
      refine (h₁.told i t ht).mono h₂.prefix_memo (h₂.old _ ?_)
      rw [h₁.size]
      exact Nat.add_lt_add_left hi _
    · rw [List.getElem?_append_right (not_lt.1 hi)] at ht
      have htold := h₂.told _ t ht
      rwa [h₁.size, Nat.add_assoc, Nat.add_sub_cancel' (not_lt.1 hi)] at htold
  diagnostics := by
    rw [List.flatMap_append]
    refine h₂.diagnostics.trans ?_
    have hmid := (h₁.diagnostics.append_right extra').append_right (more.flatMap R.diagnosticsOf)
    refine hmid.trans ?_
    simp only [List.append_assoc]
    refine (List.Perm.refl _).append ((List.Perm.refl _).append ?_)
    rw [← List.append_assoc, ← List.append_assoc]
    exact List.perm_append_comm.append_right _

theorem Browsed.adds (h : Browsed s s') : Adds R [] [] [] s s' where
  pool := h.pool
  met r hr := by simp at hr
  reached t ht := by simp at ht
  size := by rw [h.schema]; rfl
  memo := by rw [h.memo]; exact (List.append_nil _).symm
  old i _ := by rw [h.schema]
  told i t ht := by simp at ht
  diagnostics := by rw [h.diagnostics]; simp

theorem adds_changed {f : Schema → Schema} (hs : Clear s.pool) (hsize : (f s.schema).size = s.schema.size)
    (hface : ∀ x, (f s.schema).faceOf? x = s.schema.faceOf? x) : Adds R [] [] [] s (s.changed f) where
  pool := hs
  met r hr := by simp at hr
  reached t ht := by simp at ht
  size := hsize
  memo := (List.append_nil _).symm
  old i _ := hface i
  told i t ht := by simp at ht
  diagnostics := by simp [State.changed]

theorem adds_noted {notes : List Diagnostic} (hs : Clear s.pool) :
    Adds R [] [] notes s { s with diagnostics := s.diagnostics ++ notes } where
  pool := hs
  met r hr := by simp at hr
  reached t ht := by simp at ht
  size := rfl
  memo := (List.append_nil _).symm
  old i _ := rfl
  told i t ht := by simp at ht
  diagnostics := by simp

theorem adds_found {id : DeclId} (hs : Clear s.pool) (h : s.find? t.key = some id) : Adds R [t] [] [] s s := by
  refine { (Browsed.refl hs).adds with met := fun r hr => ?_, reached := by simp }
  obtain rfl := List.mem_singleton.1 hr
  rw [Met, h]
  rfl

/-- A class that is new is declared, others are declared after it, and then it gets its face. -/
theorem adds_introduced {P : Profile} {k : Kind} {f : Schema → Schema} (ht : t.Spelled) (hP : R.profileOf? t = some P)
    (hfree : s.find? t.key = none) (hb : Browsed s s₁)
    (hadds : Adds R (P.classes R) new (P.diagnostics R t) (s₁.declared t.key P.name P.isDeprecated k.emptyBody) s')
    (hsize : (f s'.schema).size = s'.schema.size)
    (hface : ∀ x, (f s'.schema).faceOf? x =
      if x = s.schema.size then some (P.face R (refIn s')) else s'.schema.faceOf? x) :
    s'.find? t.key = some s.schema.size ∧ Adds R [t] (t :: new) [] s (s'.changed f) := by
  have hfirst : (s₁.declared t.key P.name P.isDeprecated k.emptyBody).schema.size = s.schema.size + 1 := by
    rw [← hb.schema]
    exact Schema.size_declare ..
  have hmemo : s'.memo = s.memo ++ noted s.schema.size (t :: new) := by
    rw [hadds.memo, hfirst, noted]
    show s₁.memo ++ [(t.key, s₁.schema.size)] ++ _ = _
    rw [hb.memo, hb.schema, List.append_assoc]
    rfl
  have hfound : s'.find? t.key = some s.schema.size := by
    rw [State.find?, hmemo, List.lookup_append, show s.memo.lookup t.key = none from hfree]
    simp [noted]
  refine ⟨hfound, hadds.pool, ?_, ?_, ?_, hmemo, ?_, ?_, ?_⟩
  · intro r hr
    obtain rfl := List.mem_singleton.1 hr
    rw [Met, show (s'.changed f).find? r.key = _ from hfound]
    rfl
  · intro u hu
    refine ⟨t, List.mem_singleton_self t, ?_⟩
    rcases List.mem_cons.1 hu with rfl | hu
    · exact .refl
    · obtain ⟨r, hr, hreach⟩ := hadds.reached u hu
      exact .head ⟨P, hP, hr⟩ hreach
  · show (f s'.schema).size = _
    rw [hsize, hadds.size, hfirst, List.length_cons, Nat.add_assoc, Nat.add_comm 1]
  · intro i hi
    show (f s'.schema).faceOf? i = _
    rw [hface, if_neg hi.ne, hadds.old i (by rw [hfirst]; exact Nat.lt_succ_of_lt hi)]
    show (s₁.schema.declare ..).faceOf? i = _
    rw [Schema.faceOf?_declare, hb.schema, if_neg hi.ne]
  · intro i u hu
    cases i with
    | zero =>
      cases hu
      exact ⟨ht, P, hP, hadds.met, (hface _).trans (if_pos rfl)⟩
    | succ i =>
      have htold := hadds.told i u hu
      rw [hfirst, Nat.add_assoc, Nat.add_comm 1] at htold
      refine htold.mono (List.prefix_refl s'.memo) ((hface _).trans (if_neg ?_))
      exact (Nat.lt_add_of_pos_right (Nat.succ_pos i)).ne'
  · show s'.diagnostics.Perm _
    have hof : R.diagnosticsOf t = P.diagnostics R t := by rw [Reader.diagnosticsOf, hP]; rfl
    rw [List.flatMap_cons, hof, List.append_nil, ← List.append_assoc, ← hb.diagnostics]
    exact hadds.diagnostics

end Adds

/-! ## Steps -/

section Faces
variable {S : Schema} {x : DeclId}

theorem faceOf?_finishMessage {id : DeclId} {m : Message} {name : String} {isDeprecated : Bool} (hm : m.nested = [])
    (h : S.faceOf? id = some ⟨name, isDeprecated, .message {}⟩) :
    (finishMessage S id m).faceOf? x =
      if x = id then some ⟨name, isDeprecated, .message m⟩ else S.faceOf? x := by
  obtain ⟨d, hd, hface⟩ := Option.map_eq_some_iff.1 h
  rw [finishMessage, Schema.faceOf?_modifyDecl]
  split
  · rename_i hx
    cases hb : d.body with
    | message old =>
      simp only [Schema.Declaration.face, hb, Face.mk.injEq] at hface
      simp [hx, hd, hb, Schema.Declaration.face, Schema.Body.bare, hface.1, hface.2.1, ← hm]
    | enum e => simp [Schema.Declaration.face, hb, Schema.Body.bare] at hface
    | service e => simp [Schema.Declaration.face, hb, Schema.Body.bare] at hface
  · rfl

theorem faceOf?_finishEnum {id : DeclId} {members : List EnumMember} {name : String} {isDeprecated : Bool}
    (h : S.faceOf? id = some ⟨name, isDeprecated, .enum {}⟩) :
    (finishEnum S id members).faceOf? x =
      if x = id then some ⟨name, isDeprecated, .enum ⟨members, !members.any (·.number == 0)⟩⟩ else S.faceOf? x := by
  obtain ⟨d, hd, hface⟩ := Option.map_eq_some_iff.1 h
  have hdecls : (finishEnum S id members).faceOf? x =
      (S.modifyDecl id (Recovery.withMembers members)).faceOf? x := by
    rw [Schema.faceOf?, Schema.faceOf?, Recovery.decls_finishEnum]
  rw [hdecls, Schema.faceOf?_modifyDecl]
  split
  · rename_i hx
    cases hb : d.body with
    | enum old =>
      simp only [Schema.Declaration.face, hb, Face.mk.injEq] at hface
      simp [hx, hd, hb, Recovery.withMembers, Schema.Declaration.face, Schema.Body.bare, hface.1, hface.2.1]
    | message e => simp [Schema.Declaration.face, hb, Schema.Body.bare] at hface
    | service e => simp [Schema.Declaration.face, hb, Schema.Body.bare] at hface
  · rfl

end Faces

/-- Whatever these steps end well with, they add classes, and what they end with is what profiles tell. -/
structure Tells (R : Reader) (calls : Calls TypeRef) : Prop where
  message : ∀ {t s id s'}, t.Spelled → Clear s.pool → Gives (calls.message t) s id s' →
    R.lib.catalog.isMessage t = true ∧ s'.find? t.key = some id ∧ ∃ new, Adds R [t] new [] s s'
  enum : ∀ {t s id s'}, t.Spelled → Clear s.pool → Gives (calls.enum t) s id s' →
    R.lib.catalog.isEnum t = true ∧ s'.find? t.key = some id ∧ ∃ new, Adds R [t] new [] s s'
  fieldType : ∀ {source r s type s'}, r.Spelled → Clear s.pool → Gives (calls.fieldType source r) s type s' →
    type = (R.mentionOf r).type (refIn s') ∧ ∃ new, Adds R (R.mentionOf r).classes new [] s s'

section Tells
variable (hl : R.lib.Legible) (hw : R.lib.WellNamed) {calls : Calls TypeRef} (hc : Tells R calls)
  {t r : TypeRef} {id source : DeclId} {s s' : State TypeRef}

include hl hw hc in
theorem place_tells {v : Unit} (hs : Clear s.pool) (h : Gives (place R.env calls t id) s v s') :
    ∃ new, Adds R (R.lib.ownerOf? t).toList new [] s s' := by
  obtain ⟨hpool, howner⟩ := answers_owner? hl hw t s.pool hs
  have hb : Browsed s (s.after (Recovery.owner? R.lib.catalog t)) := ⟨rfl, rfl, rfl, hpool⟩
  rcases Recovery.gives_place.1 h with ⟨owner, parent, s₁, ho, hm, rfl⟩ | ⟨ho, rfl⟩
  · rw [show R.lib.ownerOf? t = some owner from howner.symm.trans ho]
    obtain ⟨-, -, new, hadds⟩ := hc.message ((knows_ownerOf? (howner.symm.trans ho)).spelled hl) hpool hm
    have hnest : Adds R [] [] [] s₁ (s₁.changed (·.nest parent id)) :=
      adds_changed hadds.pool Schema.size_nest fun x => Schema.faceOf?_nest
    exact ⟨new, by simpa using (hb.adds.trans hadds).trans hnest⟩
  · rw [show R.lib.ownerOf? t = none from howner.symm.trans ho]
    exact ⟨[], hb.adds.trans (adds_changed hpool Schema.size_attach_addFile fun x => Recovery.faceOf?_openFile)⟩

/-- A reference was imported, or its class had no file yet. -/
theorem adds_linkFiles {target : DeclId} (hs : Clear s.pool) :
    Adds R [] [] [] s (s.changed (linkFiles source target)) :=
  adds_changed hs Recovery.onlyImports_linkFiles.size fun _ => Recovery.faceOf?_linkFiles

theorem adds_linkPath {path : String} (hs : Clear s.pool) : Adds R [] [] [] s (s.changed (linkPath source path)) :=
  adds_changed hs Recovery.onlyImports_linkPath.size fun _ => Recovery.faceOf?_linkPath

include hc in
theorem singleType_tells {type : FieldType} (hr : r.Spelled) (hs : Clear s.pool)
    (h : Gives (singleType R.env calls source r) s type s') :
    type = (R.singleMention r).type (refIn s') ∧ ∃ new, Adds R (R.singleMention r).classes new [] s s' := by
  have hreference : ∀ {target new} {s₁ : State TypeRef}, s₁.find? r.key = some target → Adds R [r] new [] s s₁ →
      .reference target = Mention.type (refIn (s₁.changed (linkFiles source target))) (.reference r) ∧
        ∃ new, Adds R [r] new [] s (s₁.changed (linkFiles source target)) := by
    intro target new s₁ hfound hadds
    refine ⟨?_, new, by simpa using hadds.trans (adds_linkFiles hadds.pool)⟩
    rw [Mention.type, refIn, show (s₁.changed (linkFiles source target)).find? r.key = some target from hfound]
    rfl
  have h := Recovery.gives_singleType.1 h
  dsimp only [Reader.env] at h
  unfold Reader.singleMention
  split at h
  · rename_i k hk
    obtain ⟨rfl, rfl⟩ := h
    rw [show Schema.Scalar.ofClass? r.key = some k from hk]
    exact ⟨rfl, [], (Browsed.refl hs).adds⟩
  · rename_i w hk hw
    obtain ⟨rfl, rfl⟩ := h
    rw [show Schema.Scalar.ofClass? r.key = none from hk, show Schema.WellKnown.ofClass? r.key = some w from hw]
    exact ⟨rfl, [], adds_linkPath hs⟩
  · rename_i hk hw
    rw [show Schema.Scalar.ofClass? r.key = none from hk, show Schema.WellKnown.ofClass? r.key = none from hw]
    dsimp only
    split at h
    · rename_i he
      split at h
      · rename_i hskip
        obtain ⟨rfl, rfl⟩ := h
        rw [if_pos (by simp [he, hskip])]
        exact ⟨rfl, [], (Browsed.refl hs).adds⟩
      · rename_i hskip
        obtain ⟨target, s₁, hm, rfl, rfl⟩ := h
        obtain ⟨-, hfound, new, hadds⟩ := hc.enum hr hs hm
        rw [if_neg (by simp [he, hskip])]
        exact hreference hfound hadds
    · rename_i he
      obtain ⟨target, s₁, hm, rfl, rfl⟩ := h
      obtain ⟨-, hfound, new, hadds⟩ := hc.message hr hs hm
      rw [if_neg (by simp [he])]
      exact hreference hfound hadds

include hc in
theorem fieldType_tells {type : FieldType} (hr : r.Spelled) (hs : Clear s.pool)
    (h : Gives (fieldType R.env calls source r) s type s') :
    type = (R.mentionOf r).type (refIn s') ∧ ∃ new, Adds R (R.mentionOf r).classes new [] s s' := by
  have hspelled : ∀ a ∈ r.args, a.Spelled := fun a ha => hr.within (.arg ha .refl)
  have hanswers : Answers Clear (R.lib.catalog.argumentsOf r) (· = r.args) := answers_resolveAll apart_spelled hspelled
  obtain ⟨hpool, hargs⟩ := hanswers s.pool hs
  have hb : Browsed s (s.after (R.lib.catalog.argumentsOf r)) := ⟨rfl, rfl, rfl, hpool⟩
  have h := Recovery.gives_fieldType.1 h
  dsimp only [Reader.env] at h
  rw [State.answer, hargs] at h
  split at h
  · rename_i w hw
    obtain ⟨rfl, rfl⟩ := h
    rw [Reader.mentionOf_wrapper hw]
    exact ⟨rfl, [], hb.adds.trans (adds_linkPath hpool)⟩
  · rename_i element hw ha
    obtain ⟨e, he, rfl⟩ := h
    rw [Reader.mentionOf_element hw ha]
    obtain ⟨rfl, new, hadds⟩ := hc.fieldType (hspelled element (by simp [ha])) hpool he
    exact ⟨rfl, new, hb.adds.trans hadds⟩
  · rename_i key value hw ha
    obtain ⟨k, s₁, v, hk, hv, rfl⟩ := h
    rw [Reader.mentionOf_entry hw ha]
    obtain ⟨rfl, newk, haddsk⟩ := hc.fieldType (hspelled key (by simp [ha])) hpool hk
    obtain ⟨rfl, newv, haddsv⟩ := hc.fieldType (hspelled value (by simp [ha])) haddsk.pool hv
    refine ⟨?_, newk ++ newv, (hb.adds.trans haddsk).trans haddsv⟩
    -- What the key mentions is still declared where it was when the value has been read.
    rw [Mention.type, Mention.type_congr fun u hu => ((haddsk.met u hu).mono haddsv.prefix_memo).2]
  · rename_i hw h₁ h₂
    rw [Reader.mentionOf_single hw h₁ h₂]
    obtain ⟨htype, new, hadds⟩ := singleType_tells hc hr hpool h
    exact ⟨htype, new, hb.adds.trans hadds⟩

/-! ## Bodies -/

omit hl hw hc in
theorem mem_taken_insert {taken : List Int} {m : Message} {f : Schema.Field}
    (htaken : ∀ n, n ∈ taken ↔ (m.field? n).isSome = true) (hf : ¬(m.field? f.number).isSome = true) (n : Int) :
    n ∈ f.number :: taken ↔ ((m.insert f).field? n).isSome = true := by
  have hperm := Message.insertAscending_perm fun hmem => hf (Message.field?_isSome.2 hmem)
  rw [Message.field?_isSome, Message.insert, (hperm.map _).mem_iff, List.mem_cons, htaken, Message.field?_isSome,
    List.map_cons, List.mem_cons]

include hl hw hc in
/-- A property leaves what it tells, and the rest follows from where it left off. -/
theorem addProperty_tells {p : Property TypeRef} {rest : List (Property TypeRef)} {w w' : InProgress TypeRef}
    {taken : List Int} (h : Gives (addProperty R.env calls t id p rest w) s w' s') (hs : Clear s.pool)
    (hp : p.type.Spelled) (ha : Readable TypeRef.Spelled p.attributes) (hrest : ∀ q ∈ rest, q.type.Spelled)
    (htaken : ∀ n, n ∈ taken ↔ (w.message.field? n).isSome = true) :
    ∃ parts new taken', R.partsOf t w.skip w.numbers (p :: rest) taken =
        (R.partsOf t w'.skip w'.numbers rest taken').map (parts ++ ·) ∧
      w'.message = R.assemble (refIn s') parts w.message ∧
      Adds R (parts.flatMap (·.classes R)) new (diagnosed t (parts.flatMap Part.notes)) s s' ∧
      ∀ n, n ∈ taken' ↔ (w'.message.field? n).isSome = true := by
  have hnone : ∀ o : Option (List Part), o = o.map ([] ++ ·) := fun o => Option.map_id'.symm
  cases hskip : w.skip with
  | true =>
    rw [Recovery.gives_addProperty, if_pos hskip] at h
    obtain ⟨rfl, rfl⟩ := h
    exact ⟨[], [], taken, hnone _, rfl, (Browsed.refl hs).adds, htaken⟩
  | false =>
    obtain ⟨s₁, hb, hnext⟩ := outcome_addProperty calls t id hl hw hs hp ha hrest hskip
    rw [Gives, hnext] at h
    rw [Reader.partsOf]
    cases hitem : R.itemOf t w.numbers p rest with
    | passed =>
      rw [hitem] at h
      obtain ⟨rfl, rfl⟩ := Recovery.gives_addTold.1 h
      rw [hskip]
      exact ⟨[], [], taken, hnone _, rfl, hb.adds, htaken⟩
    | choice c =>
      rw [hitem] at h
      obtain ⟨rfl, rfl⟩ := Recovery.gives_addTold.1 h
      rw [hskip]
      exact ⟨[.choice c], [], taken, rfl, rfl, hb.adds, htaken⟩
    | unnumbered =>
      rw [hitem] at h
      obtain ⟨rfl, rfl⟩ := Recovery.gives_addTold.1 h
      rw [hskip, numbers_of_unnumbered hitem]
      exact ⟨[.note p.name .missingNumber], [], taken, rfl, rfl, hb.adds.trans (adds_noted hb.pool), htaken⟩
    | unreadable constant =>
      rw [hitem] at h
      cases h
    | numbered attributes number isOptional =>
      rw [hitem] at h
      have h := Recovery.gives_addTold.1 h
      dsimp only at h ⊢
      by_cases hthere : (w.message.field? number).isSome = true
      · rw [if_pos hthere] at h
        rw [if_pos ((htaken number).2 hthere)]
        obtain ⟨rfl, rfl⟩ := h
        exact ⟨[.note p.name (.duplicateNumber number)], [], taken, rfl, rfl, hb.adds.trans (adds_noted hb.pool), htaken⟩
      · rw [if_neg hthere] at h
        rw [if_neg fun hn => hthere ((htaken number).1 hn)]
        obtain ⟨type, htype, rfl⟩ := h
        obtain ⟨rfl, new, hadds⟩ := hc.fieldType hp hb.pool htype
        refine ⟨[.field p attributes number isOptional], new, number :: taken, rfl, rfl, ?_, fun n =>
          mem_taken_insert (f := fieldOf R.env p attributes number _ isOptional) htaken hthere n⟩
        simpa [Part.classes, Part.notes, diagnosed] using hb.adds.trans hadds

include hl hw hc in
theorem addProperties_tells {properties : List (Property TypeRef)} {w w' : InProgress TypeRef} {taken : List Int}
    (h : Gives (addProperties R.env calls t id properties w) s w' s') (hs : Clear s.pool)
    (hproperties : ∀ p ∈ properties, p.type.Spelled ∧ Readable TypeRef.Spelled p.attributes)
    (htaken : ∀ n, n ∈ taken ↔ (w.message.field? n).isSome = true) :
    ∃ parts new, R.partsOf t w.skip w.numbers properties taken = some parts ∧
      w'.message = R.assemble (refIn s') parts w.message ∧
      Adds R (parts.flatMap (·.classes R)) new (diagnosed t (parts.flatMap Part.notes)) s s' := by
  refine Recovery.gives_stepThrough (J := fun properties w s w' s' => ∀ taken, Clear s.pool →
    (∀ p ∈ properties, p.type.Spelled ∧ Readable TypeRef.Spelled p.attributes) →
    (∀ n, n ∈ taken ↔ (w.message.field? n).isSome = true) →
    ∃ parts new, R.partsOf t w.skip w.numbers properties taken = some parts ∧
      w'.message = R.assemble (refIn s') parts w.message ∧
      Adds R (parts.flatMap (·.classes R)) new (diagnosed t (parts.flatMap Part.notes)) s s')
    (fun w s taken hs _ _ => ⟨[], [], rfl, rfl, (Browsed.refl hs).adds⟩) ?_ h taken hs hproperties htaken
  intro p rest w s w₁ s₁ w' s' hstep hnext taken hs hproperties htaken
  have hrest : ∀ q ∈ rest, q.type.Spelled ∧ Readable TypeRef.Spelled q.attributes := fun q hq => hproperties q (by simp [hq])
  obtain ⟨hp, ha⟩ := hproperties p (by simp)
  obtain ⟨first, new₁, taken₁, hcons, hm₁, hadds₁, htaken₁⟩ :=
    addProperty_tells hl hw hc hstep hs hp ha (fun q hq => (hrest q hq).1) htaken
  obtain ⟨parts, new, hparts, hm, hadds⟩ := hnext taken₁ hadds₁.pool hrest htaken₁
  refine ⟨first ++ parts, new₁ ++ new, by rw [hcons, hparts]; rfl, ?_, ?_⟩
  · -- The types of the first parts were found early, and the classes in them are still where they were.
    rw [hm, hm₁, ← assemble_congr fun u hu => ((hadds₁.met u hu).mono hadds.prefix_memo).2]
    exact List.foldl_append.symm
  · rw [List.flatMap_append, List.flatMap_append, diagnosed_append]
    exact hadds₁.trans hadds

include hl hw hc in
theorem messageBody_tells {m : Message} (ht : R.lib.catalog.isMessage t = true) (hs : Clear s.pool)
    (h : Gives (messageBody R.env calls t id) s m s') :
    ∃ content new, R.contentOf? t = some content ∧ .message m = content.body R (refIn s') ∧
      Adds R (content.classes R) new (diagnosed t (content.notes R)) s s' := by
  obtain ⟨hpool, hown⟩ := answers_ownProperties hl hw ht s.pool hs
  have hb : Browsed s (s.after (R.lib.catalog.properties t)) := ⟨rfl, rfl, rfl, hpool⟩
  obtain ⟨m₁, s₁, hbody, rfl, rfl⟩ := Recovery.gives_messageBody.1 h
  dsimp only [Reader.env] at hbody
  rw [show (s.answer (R.lib.catalog.properties t)).filter (fun p => !p.isInherited) = _ from hown] at hbody
  have hproperties : ∀ p ∈ R.lib.ownProperties t, p.type.Spelled ∧ Readable TypeRef.Spelled p.attributes :=
    fun p hp => (hl.admits hw).ownProperty hp
  have hempty : ∀ n, n ∈ ([] : List Int) ↔ (({} : Message).field? n).isSome = true := by simp [Message.field?]
  obtain ⟨parts, new, hparts, hm, hadds⟩ := addProperties_tells hl hw hc hbody hpool hproperties hempty
  rw [hm]
  refine ⟨.message parts, new, ?_, rfl, ?_⟩
  · rw [contentOf?_of_message ht, Reader.numbersOf]
    exact congrArg _ hparts
  · rw [Content.notes, diagnosed_append, ← notes_settle (refIn s₁)]
    have hsettle : Adds R [] [] (diagnosed t (settle (R.assemble (refIn s₁) parts {})).2) s₁ _ := adds_noted hadds.pool
    have hall := (hb.adds.trans hadds).trans hsettle
    rw [List.append_nil, List.append_nil] at hall
    exact hall

/-! ## Classes -/

include hl hw hc in
/-- A class is declared and put in its place. -/
theorem placed_tells {attributes : List (Attribute TypeRef)} {body : Body} {s₁ : State TypeRef} (hs : Clear s.pool)
    (hattributes : s.answer (attributesOf R.lib.catalog t) = .ok attributes)
    (hplace : Gives (place R.env calls t id) ((s.after (attributesOf R.lib.catalog t)).declared t.key (R.nameOf t)
      (Recovery.hasAttribute R.lib.catalog attributes Recovery.obsoleteAttribute) body) () s₁) :
    Browsed s (s.after (attributesOf R.lib.catalog t)) ∧
      ∃ new, Adds R (R.lib.ownerOf? t).toList new []
        ((s.after (attributesOf R.lib.catalog t)).declared t.key (R.nameOf t) (R.isObsolete t) body) s₁ := by
  obtain ⟨hpool, hread⟩ := answers_attributes ((hl.admits hw).attributes t) s.pool hs
  obtain rfl : readIn (R.lib.catalog.attributes t) = attributes := Except.ok.inj (hread.symm.trans hattributes)
  exact ⟨⟨rfl, rfl, rfl, hpool⟩, place_tells hl hw hc hpool hplace⟩

/-- A class that is in its place gets its content. -/
theorem introduced_tells {k : Kind} {content : Content} {placed new : List TypeRef} {sₐ s₁ s₂ : State TypeRef}
    {f : Schema → Schema} (ht : t.Spelled) (hfree : s.find? t.key = none) (hb : Browsed s sₐ)
    (hplaced : Adds R (R.lib.ownerOf? t).toList placed []
      (sₐ.declared t.key (R.nameOf t) (R.isObsolete t) k.emptyBody) s₁)
    (hcontent : R.contentOf? t = some content)
    (hadds : Adds R (content.classes R) new (diagnosed t (content.notes R)) s₁ s₂)
    (hsize : (f s₂.schema).size = s₂.schema.size)
    (hface : s₂.schema.faceOf? s.schema.size = some ⟨R.nameOf t, R.isObsolete t, k.emptyBody⟩ →
      ∀ x, (f s₂.schema).faceOf? x =
        if x = s.schema.size then some ⟨R.nameOf t, R.isObsolete t, content.body R (refIn s₂)⟩
        else s₂.schema.faceOf? x) :
    (s₂.changed f).find? t.key = some s.schema.size ∧ ∃ new, Adds R [t] new [] s (s₂.changed f) := by
  have hP : R.profileOf? t = some ⟨R.nameOf t, R.isObsolete t, R.lib.ownerOf? t, content⟩ := by
    rw [Reader.profileOf?, hcontent]
    rfl
  have hboth := hplaced.trans hadds
  -- The class is the first one declared, and nothing has given it another face since.
  have hempty : s₂.schema.faceOf? s.schema.size = some ⟨R.nameOf t, R.isObsolete t, k.emptyBody⟩ := by
    rw [← hb.schema, hboth.old]
    · exact (Schema.faceOf?_declare ..).trans (if_pos rfl)
    · exact (Nat.lt_succ_self _).trans_eq (Schema.size_declare ..).symm
  obtain ⟨hfound, hnew⟩ := adds_introduced ht hP hfree hb hboth hsize (hface hempty)
  exact ⟨hfound, _, hnew⟩

include hl hw hc in
theorem message_tells (ht : t.Spelled) (hs : Clear s.pool) (h : Gives (message R.env calls t) s id s') :
    R.lib.catalog.isMessage t = true ∧ s'.find? t.key = some id ∧ ∃ new, Adds R [t] new [] s s' := by
  obtain ⟨hmessage, h⟩ := Recovery.gives_message.1 h
  refine ⟨hmessage, ?_⟩
  rcases h with ⟨hfound, rfl⟩ | ⟨hfree, rfl, attributes, s₁, m, s₂, ha, hplace, hbody, rfl⟩
  · exact ⟨hfound, [], adds_found hs hfound⟩
  · obtain ⟨hb, _, hplaced⟩ := placed_tells hl hw hc hs ha hplace
    obtain ⟨content, new, hcontent, hm, hadds⟩ := messageBody_tells hl hw hc hmessage hplaced.pool hbody
    refine introduced_tells (k := .message) ht hfree hb hplaced hcontent hadds (Recovery.size_finishMessage ..) ?_
    intro hempty x
    rw [← hm]
    exact faceOf?_finishMessage (nested_of_body hm.symm) hempty

include hl hw hc in
theorem enum_tells (ht : t.Spelled) (hs : Clear s.pool) (h : Gives (enum R.env calls t) s id s') :
    R.lib.catalog.isEnum t = true ∧ s'.find? t.key = some id ∧ ∃ new, Adds R [t] new [] s s' := by
  obtain ⟨henum, h⟩ := Recovery.gives_enum.1 h
  refine ⟨henum, ?_⟩
  rcases h with ⟨hfound, rfl⟩ | ⟨hfree, rfl, attributes, s₁, members, s₂, ha, hplace, hmembers, rfl⟩
  · exact ⟨hfound, [], adds_found hs hfound⟩
  · obtain ⟨hb, _, hplaced⟩ := placed_tells hl hw hc hs ha hplace
    have hconstants : ∀ f ∈ (R.lib.catalog.fields t).filter Recovery.isConstant, Readable TypeRef.Spelled f.attributes :=
      fun f hf => (hl.admits hw).field (List.mem_of_mem_filter hf)
    obtain ⟨hsome, hread⟩ := (yields_enumMembers hconstants).of_gives hplaced.pool hmembers
    have hcontent : R.contentOf? t = some (.enum members) := by
      rw [contentOf?_of_enum henum, Reader.nameOf, hsome]
      rfl
    exact introduced_tells (k := .enum) ht hfree hb hplaced hcontent hread.adds (Recovery.size_finishEnum ..)
      fun hempty x => faceOf?_finishEnum hempty

/-- Whatever is recovered at any depth is what profiles tell. -/
theorem tells_callsWithin (hl : R.lib.Legible) (hw : R.lib.WellNamed) (depth : Nat) :
    Tells R (callsWithin R.env depth) := by
  induction depth with
  | zero =>
    exact ⟨fun _ _ h => absurd h Recovery.gives_throw, fun _ _ h => absurd h Recovery.gives_throw,
      fun _ _ h => absurd h Recovery.gives_throw⟩
  | succ depth ih => exact ⟨message_tells hl hw ih, enum_tells hl hw ih, fieldType_tells ih⟩

end Tells

end ProtoRecovery.Managed
