import ProtoRecovery.Proofs.Managed.Content
import ProtoRecovery.Proofs.Managed.Depth
/-!
# Recoveries that end well

A class can be recovered if it can be read, and so can all classes that it refers to. Such a recovery could only fail
for want of depth, and the depth that it is allowed is enough.
-/

namespace ProtoRecovery.Managed

open Catalog (Look Property)
open Recovery (Calls Gives InProgress Readable Recover Request State addProperties addProperty addTold callsWithin enum
  enum_eq fieldType introduce look message message_eq messageBody outcome outcome_bind place search singleType)
open Relation (ReflTransGen)
open Schema (DeclId Message)

/-- A step that fails, if at all, for want of depth. -/
def Sure {α : Type} (m : Recover TypeRef α) (s : State TypeRef) : Prop :=
  ∀ e, (outcome m s).1 = .error e → ∃ name, e = .endlessType name

section Sure
variable {α β : Type} {m : Recover TypeRef α} {f : α → Recover TypeRef β} {a : α} {s s₁ : State TypeRef}

theorem sure_of_gives (h : Gives m s a s₁) : Sure m s := by
  intro e he
  rw [show outcome m s = _ from h] at he
  cases he

theorem sure_pure : Sure (pure a) s := sure_of_gives (Recovery.gives_pure.2 ⟨rfl, rfl⟩)

theorem sure_change {g : Schema → Schema} : Sure (Recovery.change g) s :=
  sure_of_gives (a := ()) (Recovery.gives_change.2 rfl)

theorem sure_of_outcome {n : Recover TypeRef α} (h : outcome m s = outcome n s₁) (hn : Sure n s₁) : Sure m s := by
  intro e he
  rw [h] at he
  exact hn e he

theorem sure_bind (hm : Sure m s) (hf : ∀ a s₁, Gives m s a s₁ → Sure (f a) s₁) : Sure (m >>= f) s := by
  intro e he
  rw [outcome_bind] at he
  cases ho : outcome m s with
  | mk r s₁ =>
    rw [ho] at he
    cases r with
    | error e' =>
      obtain rfl : e' = e := Except.error.inj he
      exact hm e' (by rw [ho])
    | ok a => exact hf a s₁ ho e he

/-- Steps are sure one after another, if each leaves what makes the next one so. -/
theorem sure_stepThrough {ι σ : Type} {step : ι → List ι → σ → Recover TypeRef σ} {l : List ι} {w : σ}
    {I : List ι → σ → State TypeRef → Prop}
    (hstep : ∀ {i rest w s}, I (i :: rest) w s → Sure (step i rest w) s ∧
      ∀ w₁ s₁, Gives (step i rest w) s w₁ s₁ → I rest w₁ s₁) (h : I l w s) : Sure (Recovery.stepThrough step l w) s := by
  refine Recovery.outcome_stepThrough (J := fun l w s r => I l w s → ∀ e, r.1 = .error e → ∃ name, e = .endlessType name)
    (fun _ _ _ => nofun) ?_ ?_ h
  · intro i rest w s e s₁ hfailed hw e' he
    exact (hstep hw).1 e' (hfailed ▸ he)
  · exact fun hgives hrest hw => hrest ((hstep hw).2 _ _ hgives)

/-- A step that surely gives something is followed by another. -/
theorem sure_gives_bind (hm : Gives m s a s₁) (hf : Sure (f a) s₁) : Sure (m >>= f) s := by
  refine sure_bind (sure_of_gives hm) fun b s₂ hb => ?_
  obtain ⟨rfl, rfl⟩ := hm.unique hb
  exact hf

theorem sure_yields_bind (hm : Yields m (some a)) (hs : Clear s.pool) (hf : ∀ s₁, Browsed s s₁ → Sure (f a) s₁) :
    Sure (m >>= f) s := by
  obtain ⟨s₁, hg, hb⟩ := hm.gives hs
  exact sure_gives_bind hg (hf s₁ hb)

end Sure

/-! ## Classes that can be read -/

/-- A class can be read, and so can all that it refers to. -/
def Reader.Ready (R : Reader) (t : TypeRef) : Prop := ∀ u, ReflTransGen R.Refers t u → ∃ P, R.profileOf? u = some P

variable {R : Reader}

theorem Reader.Ready.refers {t u : TypeRef} (h : R.Ready t) (hu : R.Refers t u) : R.Ready u := fun x hx => h x (.head hu hx)

theorem Reader.Ready.profile {t : TypeRef} (h : R.Ready t) :
    ∃ content, R.contentOf? t = some content ∧ (∀ o ∈ R.lib.ownerOf? t, R.Ready o) ∧
      ∀ u ∈ content.classes R, R.Ready u := by
  obtain ⟨P, hP⟩ := h t .refl
  obtain ⟨content, hcontent, rfl⟩ := Option.map_eq_some_iff.1 hP
  refine ⟨content, hcontent, fun o ho => ?_, fun u hu => ?_⟩
  · exact h.refers ⟨_, hP, List.mem_append_left _ (by simpa using ho)⟩
  · exact h.refers ⟨_, hP, List.mem_append_right _ hu⟩

/-- A class that can be read is an enum or a message. -/
theorem isMessage_of_content {t : TypeRef} {content : Content} (h : R.contentOf? t = some content)
    (he : R.lib.catalog.isEnum t = false) : R.lib.catalog.isMessage t = true := by
  unfold Reader.contentOf? at h
  rw [he] at h
  split at h
  · assumption
  · cases h

/-! ## Steps -/

/-- Calls that are sure to end well for classes that can be read, if the depth is enough. -/
structure Sures (R : Reader) (calls : Calls TypeRef) : Prop where
  message : ∀ {t s}, t.Spelled → R.Ready t → R.lib.catalog.isMessage t = true → Clear s.pool → Sure (calls.message t) s
  enum : ∀ {t s}, t.Spelled → R.Ready t → R.lib.catalog.isEnum t = true → Clear s.pool → Sure (calls.enum t) s
  fieldType : ∀ {source r s}, r.Spelled → (∀ u ∈ (R.mentionOf r).classes, R.Ready u) → Clear s.pool →
    Sure (calls.fieldType source r) s

section Steps
variable (hl : R.lib.Legible) (hw : R.lib.WellNamed) {calls : Calls TypeRef} (hc : Sures R calls) (ht : Tells R calls)
  {t r : TypeRef} {id source : DeclId} {s : State TypeRef}

include hl hw hc in
theorem place_sure (hready : ∀ o ∈ R.lib.ownerOf? t, R.Ready o) (hs : Clear s.pool) : Sure (place R.env calls t id) s := by
  unfold place
  refine sure_yields_bind (yields_look (answers_owner? hl hw t)) hs fun s₁ hb => ?_
  cases ho : R.lib.ownerOf? t with
  | none => exact sure_change
  | some owner =>
    have hmessage := (Option.filter_eq_some_iff.1 ho).2
    refine sure_bind (hc.message ((knows_ownerOf? ho).spelled hl) (hready owner ho) hmessage hb.pool) ?_
    exact fun parent s₂ _ => sure_change

include hc in
theorem singleType_sure (hr : r.Spelled) (hready : ∀ u ∈ (R.singleMention r).classes, R.Ready u) (hs : Clear s.pool) :
    Sure (singleType R.env calls source r) s := by
  unfold singleType
  unfold Reader.singleMention at hready
  dsimp only
  split
  · exact sure_pure
  · exact sure_of_gives (Recovery.gives_wellKnownType.2 ⟨rfl, rfl⟩)
  · rename_i hscalar hwellKnown
    rw [show Schema.Scalar.ofClass? r.key = none from hscalar,
      show Schema.WellKnown.ofClass? r.key = none from hwellKnown] at hready
    dsimp only at hready
    have hreference : ∀ {target : DeclId} {s₁ : State TypeRef}, Sure (Recovery.referenceType source target) s₁ :=
      fun {_ _} => sure_of_gives (Recovery.gives_referenceType.2 ⟨rfl, rfl⟩)
    cases he : R.lib.catalog.isEnum r with
    | true =>
      rw [he, Bool.true_and] at hready
      rw [if_pos rfl]
      split
      · exact sure_pure
      · rename_i hskip
        rw [if_neg hskip] at hready
        exact sure_bind (hc.enum hr (hready r (by simp [Mention.classes])) he hs) fun _ _ _ => hreference
    | false =>
      rw [he, Bool.false_and, if_neg Bool.false_ne_true] at hready
      have hr' := hready r (by simp [Mention.classes])
      obtain ⟨content, hcontent, -⟩ := hr'.profile
      exact sure_bind (hc.message hr hr' (isMessage_of_content hcontent he) hs) fun _ _ _ => hreference

include hc ht in
theorem fieldType_sure (hr : r.Spelled) (hready : ∀ u ∈ (R.mentionOf r).classes, R.Ready u) (hs : Clear s.pool) :
    Sure (fieldType R.env calls source r) s := by
  have hspelled : ∀ a ∈ r.args, a.Spelled := fun a ha => hr.within (.arg ha .refl)
  have hanswers : Answers Clear (R.env.catalog.argumentsOf r) (· = r.args) := answers_resolveAll apart_spelled hspelled
  unfold fieldType
  refine sure_yields_bind (yields_look hanswers) hs fun s₁ hb => ?_
  cases hwrapper : Recovery.wrapper? R.env.catalog r r.args with
  | some w => exact sure_of_gives (Recovery.gives_wellKnownType.2 ⟨rfl, rfl⟩)
  | none =>
    dsimp only
    rcases hargs : r.args with _ | ⟨x, _ | ⟨y, _ | ⟨z, rest⟩⟩⟩
    · rw [Reader.mentionOf_single hwrapper (by simp [hargs]) (by simp [hargs])] at hready
      exact singleType_sure hc hr hready hb.pool
    · rw [Reader.mentionOf_element hwrapper hargs] at hready
      have hx : x.Spelled := hspelled x (by simp [hargs])
      exact sure_bind (hc.fieldType hx hready hb.pool) fun _ _ _ => sure_pure
    · rw [Reader.mentionOf_entry hwrapper hargs] at hready
      have hkey : x.Spelled := hspelled x (by simp [hargs])
      have hvalue : y.Spelled := hspelled y (by simp [hargs])
      refine sure_bind (hc.fieldType hkey (fun u hu => hready u (List.mem_append_left _ hu)) hb.pool) fun k s₂ hk => ?_
      obtain ⟨-, _, hadds⟩ := ht.fieldType hkey hb.pool hk
      refine sure_bind (hc.fieldType hvalue (fun u hu => hready u (List.mem_append_right _ hu)) hadds.pool) ?_
      exact fun _ _ _ => sure_pure
    · rw [Reader.mentionOf_single hwrapper (by simp [hargs]) (by simp [hargs])] at hready
      exact singleType_sure hc hr hready hb.pool

/-! ## Bodies -/

include hl hw hc in
/-- The number of a property is not unreadable, if its parts could be told. -/
theorem addProperty_sure {p : Property TypeRef} {rest : List (Property TypeRef)} {w : InProgress TypeRef}
    {taken : List Int} {parts : List Part} (hs : Clear s.pool) (hp : p.type.Spelled)
    (ha : Readable TypeRef.Spelled p.attributes) (hrest : ∀ q ∈ rest, q.type.Spelled)
    (htaken : ∀ n, n ∈ taken ↔ (w.message.field? n).isSome = true)
    (hparts : R.partsOf t w.skip w.numbers (p :: rest) taken = some parts)
    (hready : ∀ u ∈ parts.flatMap (·.classes R), R.Ready u) : Sure (addProperty R.env calls t id p rest w) s := by
  cases hskip : w.skip with
  | true => exact sure_of_gives (Recovery.gives_addProperty.2 (by rw [if_pos hskip]; exact ⟨rfl, rfl⟩))
  | false =>
    obtain ⟨s₁, hb, hnext⟩ := outcome_addProperty calls t id hl hw hs hp ha hrest hskip
    rw [hskip, Reader.partsOf] at hparts
    rw [Sure, hnext]
    cases hitem : R.itemOf t w.numbers p rest with
    | passed | choice => exact sure_pure (s := s₁)
    | unnumbered => exact sure_gives_bind (s := s₁) (a := ()) (Recovery.gives_diagnose.2 rfl) sure_pure
    | unreadable constant =>
      rw [hitem] at hparts
      cases hparts
    | numbered attributes number isOptional =>
      rw [hitem] at hparts
      show Sure (addTold R.env calls t id p w (.field p.type attributes number isOptional)) s₁
      unfold addTold
      dsimp only at hparts ⊢
      by_cases hthere : (w.message.field? number).isSome = true
      · rw [if_pos hthere]
        exact sure_gives_bind (a := ()) (Recovery.gives_diagnose.2 rfl) sure_pure
      · rw [if_neg hthere]
        rw [if_neg fun hn => hthere ((htaken number).1 hn)] at hparts
        obtain ⟨others, -, rfl⟩ := Option.map_eq_some_iff.1 hparts
        rw [List.flatMap_cons] at hready
        exact sure_bind (hc.fieldType hp (fun u hu => hready u (List.mem_append_left _ hu)) hb.pool) fun _ _ _ => sure_pure

include hl hw hc ht in
theorem addProperties_sure {properties : List (Property TypeRef)} {w : InProgress TypeRef} {taken : List Int}
    {parts : List Part} (hs : Clear s.pool)
    (hproperties : ∀ p ∈ properties, p.type.Spelled ∧ Readable TypeRef.Spelled p.attributes)
    (htaken : ∀ n, n ∈ taken ↔ (w.message.field? n).isSome = true)
    (hparts : R.partsOf t w.skip w.numbers properties taken = some parts)
    (hready : ∀ u ∈ parts.flatMap (·.classes R), R.Ready u) : Sure (addProperties R.env calls t id properties w) s := by
  refine sure_stepThrough (I := fun properties w s => Clear s.pool ∧
    (∀ p ∈ properties, p.type.Spelled ∧ Readable TypeRef.Spelled p.attributes) ∧
    ∃ taken parts, (∀ n, n ∈ taken ↔ (w.message.field? n).isSome = true) ∧
      R.partsOf t w.skip w.numbers properties taken = some parts ∧ ∀ u ∈ parts.flatMap (·.classes R), R.Ready u)
    ?_ ⟨hs, hproperties, taken, parts, htaken, hparts, hready⟩
  rintro p rest w s ⟨hs, hproperties, taken, parts, htaken, hparts, hready⟩
  have hrest : ∀ q ∈ rest, q.type.Spelled ∧ Readable TypeRef.Spelled q.attributes := fun q hq => hproperties q (by simp [hq])
  obtain ⟨hp, ha⟩ := hproperties p (by simp)
  refine ⟨addProperty_sure hl hw hc hs hp ha (fun q hq => (hrest q hq).1) htaken hparts hready, fun w₁ s₁ hstep => ?_⟩
  obtain ⟨first, new, taken₁, hcons, -, hadds, htaken₁⟩ :=
    addProperty_tells hl hw ht hstep hs hp ha (fun q hq => (hrest q hq).1) htaken
  rw [hcons] at hparts
  obtain ⟨others, hothers, rfl⟩ := Option.map_eq_some_iff.1 hparts
  rw [List.flatMap_append] at hready
  exact ⟨hadds.pool, hrest, taken₁, others, htaken₁, hothers, fun u hu => hready u (List.mem_append_right _ hu)⟩

include hl hw hc ht in
theorem messageBody_sure {content : Content} (hmessage : R.lib.catalog.isMessage t = true) (hs : Clear s.pool)
    (hcontent : R.contentOf? t = some content) (hready : ∀ u ∈ content.classes R, R.Ready u) :
    Sure (messageBody R.env calls t id) s := by
  rw [contentOf?_of_message hmessage] at hcontent
  obtain ⟨parts, hparts, rfl⟩ := Option.map_eq_some_iff.1 hcontent
  obtain ⟨hpool, hown⟩ := answers_ownProperties hl hw hmessage s.pool hs
  unfold messageBody
  refine sure_gives_bind (Recovery.gives_look.2 ⟨rfl, rfl⟩) ?_
  dsimp only [Reader.env]
  rw [show (s.answer (R.lib.catalog.properties t)).filter (fun p => !p.isInherited) = _ from hown]
  have hempty : ∀ n, n ∈ ([] : List Int) ↔ (({} : Message).field? n).isSome = true := by simp [Message.field?]
  refine sure_bind (addProperties_sure hl hw hc ht hpool (fun p hp => (hl.admits hw).ownProperty hp) hempty hparts hready) ?_
  intro w s₁ _
  exact sure_gives_bind (a := ()) (Recovery.gives_diagnoseAll.2 rfl) sure_pure

/-! ## Classes -/

include hl hw in
/-- A class that is new is declared, put in its place and read. -/
theorem introduce_sure {σ : Type} {empty : Schema.Body} {settleIn : DeclId → Recover TypeRef Unit}
    {read : DeclId → Recover TypeRef σ} {finish : Schema → DeclId → σ → Schema} (hs : Clear s.pool)
    (hsettle : ∀ id s₁, Clear s₁.pool → Sure (settleIn id) s₁)
    (hread : ∀ id s₁ u s₂, Clear s₁.pool → Gives (settleIn id) s₁ u s₂ → Sure (read id) s₂) :
    Sure (introduce R.env t empty settleIn read finish) s := by
  unfold introduce
  refine sure_gives_bind (Recovery.gives_known.2 ⟨rfl, rfl⟩) ?_
  cases s.find? (R.lib.catalog.fullName t) with
  | some id => exact sure_pure
  | none =>
    refine sure_yields_bind (yields_search (answers_attributes ((hl.admits hw).attributes t))) hs fun s₁ hb => ?_
    refine sure_gives_bind (Recovery.gives_declare.2 ⟨rfl, rfl⟩) ?_
    refine sure_bind (hsettle _ _ hb.pool) fun u s₂ hg => ?_
    refine sure_bind (hread _ (s₁.declared ..) u s₂ hb.pool hg) fun x s₃ _ => ?_
    exact sure_bind sure_change fun _ _ _ => sure_pure

include hl hw hc ht in
theorem message_sure (hready : R.Ready t) (hmessage : R.lib.catalog.isMessage t = true) (hs : Clear s.pool) :
    Sure (message R.env calls t) s := by
  obtain ⟨content, hcontent, howner, hclasses⟩ := hready.profile
  rw [message_eq hmessage]
  refine introduce_sure hl hw hs (fun id s₁ hs₁ => place_sure hl hw hc howner hs₁) fun id s₁ u s₂ hs₁ hg => ?_
  obtain ⟨_, hadds⟩ := place_tells hl hw ht hs₁ hg
  exact messageBody_sure hl hw hc ht hmessage hadds.pool hcontent hclasses

include hl hw hc ht in
theorem enum_sure (hready : R.Ready t) (henum : R.lib.catalog.isEnum t = true) (hs : Clear s.pool) :
    Sure (enum R.env calls t) s := by
  obtain ⟨content, hcontent, howner, -⟩ := hready.profile
  rw [contentOf?_of_enum henum] at hcontent
  obtain ⟨members, hmembers, -⟩ := Option.map_eq_some_iff.1 hcontent
  rw [enum_eq henum]
  refine introduce_sure hl hw hs (fun id s₁ hs₁ => place_sure hl hw hc howner hs₁) fun id s₁ u s₂ hs₁ hg => ?_
  obtain ⟨_, hadds⟩ := place_tells hl hw ht hs₁ hg
  have hconstants : ∀ f ∈ (R.lib.catalog.fields t).filter Recovery.isConstant, Readable TypeRef.Spelled f.attributes :=
    fun f hf => (hl.admits hw).field (List.mem_of_mem_filter hf)
  have hyields : Yields (Recovery.enumMembers R.env t (R.nameOf t) _) _ := yields_enumMembers hconstants
  rw [hmembers] at hyields
  obtain ⟨s₃, hg₃, -⟩ := hyields.gives hadds.pool
  exact sure_of_gives hg₃

end Steps

/-- At any depth, classes that can be read are recovered, unless the depth is too little. -/
theorem sures_callsWithin (hl : R.lib.Legible) (hw : R.lib.WellNamed) (depth : Nat) : Sures R (callsWithin R.env depth) := by
  have hendless : ∀ {α : Type} {name : String} {s : State TypeRef},
      Sure (throw (.endlessType name) : Recover TypeRef α) s := fun {_ name _} e he => ⟨name, (Except.error.inj he).symm⟩
  induction depth with
  | zero => exact ⟨fun _ _ _ _ => hendless, fun _ _ _ _ => hendless, fun _ _ _ => hendless⟩
  | succ depth ih =>
    have ht := tells_callsWithin (R := R) hl hw depth
    exact ⟨fun _ hr hk hs => message_sure hl hw ih ht hr hk hs, fun _ hr hk hs => enum_sure hl hw ih ht hr hk hs,
      fun hr hu hs => fieldType_sure ih ht hr hu hs⟩

/-! ## Requests -/

/-- A step that is sure to end well ends well if it does not fail for want of depth. -/
theorem Sure.gives {α : Type} {m : Recover TypeRef α} {s : State TypeRef} (h : Sure m s)
    (hbounded : ∀ name, (outcome m s).1 ≠ .error (.endlessType name)) : ∃ a s', Gives m s a s' := by
  cases ho : outcome m s with
  | mk r s' =>
    cases r with
    | ok a => exact ⟨a, s', ho⟩
    | error e =>
      have he : (outcome m s).1 = .error e := by rw [ho]
      obtain ⟨name, rfl⟩ := h e he
      exact absurd he (hbounded name)

/-- A class to ask for: a message or an enum. -/
inductive Root where
  | message (r : TypeRef)
  | enum (r : TypeRef)

namespace Root

/-- The class that is asked for. -/
def type : Root → TypeRef
  | .message r => r
  | .enum r => r

/-- The request for the class. -/
def request (options : Recovery.Options) : Root → Request TypeRef
  | .message r => .message r options
  | .enum r => .enum r options

/-- The class is of the kind that is asked for. -/
def Fits (lib : Library) : Root → Prop
  | .message r => lib.catalog.isMessage r = true
  | .enum r => lib.catalog.isEnum r = true

end Root

section Requests
variable (hl : R.lib.Legible) (hw : R.lib.WellNamed) {q : Root} {s : State TypeRef} (hs : Clear s.pool)
  (hq : q.type.Spelled)
include hs hq

theorem browsed_root : Browsed s (s.after (R.lib.catalog.resolve q.type)) ∧
    s.answer (R.lib.catalog.resolve q.type) = q.type := by
  have hanswers : Answers Clear (R.lib.catalog.resolve q.type) (· = q.type) := answers_resolve apart_spelled hq
  obtain ⟨hpool, hanswer⟩ := hanswers s.pool hs
  exact ⟨⟨rfl, rfl, rfl, hpool⟩, hanswer⟩

/-- A reference is looked up as itself, and what is sure to end well for it does. -/
theorem gives_lookUp_of_sure {f : TypeRef → Recover TypeRef DeclId}
    (hf : ∀ s₁ : State TypeRef, Clear s₁.pool → Sure (f q.type) s₁)
    (hbounded : ∀ name, (outcome (f q.type) (s.after (R.lib.catalog.resolve q.type))).1 ≠ .error (.endlessType name)) :
    ∃ o s', Gives (do return some (← f (← look (R.lib.catalog.resolve q.type)))) s o s' := by
  obtain ⟨hb, hanswer⟩ := browsed_root (R := R) hs hq
  obtain ⟨id, s', hg⟩ := (hf _ hb.pool).gives hbounded
  refine ⟨some id, s', Recovery.gives_lookUp.2 ⟨id, ?_, rfl⟩⟩
  rw [hanswer]
  exact hg

include hl hw

/-- A class that can be read, and all that it refers to, is recovered. -/
theorem gives_root (hkeyed : Keyed s.pool) (hready : R.Ready q.type) (hfits : q.Fits R.lib) :
    ∃ o s', Gives ((q.request R.options).run R.lib.catalog R.names) s o s' := by
  have hkeyed : Keyed (s.after (R.lib.catalog.resolve q.type)).pool := keyed_resolve hkeyed _
  cases q with
  | message r =>
    refine gives_lookUp_of_sure (q := .message r) hs hq (fun s₁ hs₁ => ?_) (bounded_recoverMessage r hkeyed)
    unfold Recovery.recoverMessage
    exact sure_of_outcome (Recovery.outcome_callsFor ..) ((sures_callsWithin hl hw _).message hq hready hfits hs₁)
  | enum r =>
    refine gives_lookUp_of_sure (q := .enum r) hs hq (fun s₁ hs₁ => ?_) (bounded_recoverEnum r hkeyed)
    unfold Recovery.recoverEnum
    exact sure_of_outcome (Recovery.outcome_callsFor ..) ((sures_callsWithin hl hw _).enum hq hready hfits hs₁)

/-- Whatever a request ends well with, it is for a class of the right kind, and adds that. -/
theorem root_tells {o : Option DeclId} {s' : State TypeRef}
    (h : Gives ((q.request R.options).run R.lib.catalog R.names) s o s') :
    q.Fits R.lib ∧ ∃ new, Adds R [q.type] new [] s s' := by
  obtain ⟨hb, hanswer⟩ := browsed_root (R := R) hs hq
  cases q with
  | message r =>
    obtain ⟨id, h, -⟩ := Recovery.gives_lookUp.1 h
    rw [show s.answer (R.lib.catalog.resolve r) = r from hanswer] at h
    obtain ⟨hfits, -, new, hadds⟩ := (tells_callsWithin hl hw _).message hq hb.pool (Recovery.gives_recoverMessage.1 h)
    exact ⟨hfits, new, hb.adds.trans hadds⟩
  | enum r =>
    obtain ⟨id, h, -⟩ := Recovery.gives_lookUp.1 h
    rw [show s.answer (R.lib.catalog.resolve r) = r from hanswer] at h
    obtain ⟨hfits, -, new, hadds⟩ := (tells_callsWithin hl hw _).enum hq hb.pool (Recovery.gives_recoverEnum.1 h)
    exact ⟨hfits, new, hb.adds.trans hadds⟩

end Requests

end ProtoRecovery.Managed
