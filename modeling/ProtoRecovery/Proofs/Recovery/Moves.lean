import ProtoRecovery.Proofs.Recovery.Trace
/-!
# Steps that come down to effects

`Moves` says of a step that all it does is effects, and what it gives if it ends well. There is one lemma for each way
of building steps and one for each step of a recovery, given that the calls it makes are `Tracked`.
-/

namespace ProtoRecovery.Recovery

open Schema (DeclId FieldType Kind Body Message Service Solitary)
open Catalog (Look Search Pool)

variable {ρ α β : Type}

/-- A step taken in a state comes down to effects, and what it gives, if it ends well, satisfies a condition. -/
structure Moves (c : Catalog ρ) (M : Manner ρ) (lo hi : Nat) (m : Recover ρ α) (s : State ρ)
    (Q : α → State ρ → Prop) : Prop where
  does : Does c M lo hi s (outcome m s).2
  result : ∀ a, (outcome m s).1 = .ok a → Q a (outcome m s).2

section Moves
variable {c : Catalog ρ} {M : Manner ρ} {lo hi : Nat} {s : State ρ}
  {Q : α → State ρ → Prop} {R : β → State ρ → Prop}

theorem moves_of_outcome {m : Recover ρ α} {r : Except Error α} {s' : State ρ} (hm : outcome m s = (r, s'))
    (hdoes : Does c M lo hi s s') (h : ∀ a, r = .ok a → Q a s') : Moves c M lo hi m s Q :=
  ⟨by rw [hm]; exact hdoes, by rw [hm]; exact h⟩

theorem Moves.of_gives {m : Recover ρ α} {a : α} {s' : State ρ} (h : Moves c M lo hi m s Q) (hm : Gives m s a s') :
    Does c M lo hi s s' ∧ Q a s' := by
  have hdoes := h.does
  have hresult := h.result a (congrArg Prod.fst hm)
  rw [hm] at hdoes hresult
  exact ⟨hdoes, hresult⟩

theorem Moves.imp {Q' : α → State ρ → Prop} {m : Recover ρ α} (h : Moves c M lo hi m s Q)
    (hQ : ∀ a s', Does c M lo hi s s' → Q a s' → Q' a s') : Moves c M lo hi m s Q' :=
  ⟨h.does, fun a ha => hQ a _ h.does (h.result a ha)⟩

theorem Moves.mono {lo' hi' : Nat} {m : Recover ρ α} (h : Moves c M lo hi m s Q) (hlo : lo' ≤ lo) (hhi : hi' ≤ hi) :
    Moves c M lo' hi' m s Q :=
  ⟨h.does.mono hlo hhi, h.result⟩

theorem moves_pure {a : α} (h : Q a s) : Moves c M lo hi (pure a) s Q where
  does := .refl
  result _ hb := Except.ok.inj hb ▸ h

theorem moves_throw {e : Error} : Moves c M lo hi (throw e) s Q where
  does := .refl
  result _ hb := by cases hb

theorem moves_bind {m : Recover ρ α} {f : α → Recover ρ β} (hm : Moves c M lo hi m s Q)
    (hf : ∀ a s₁, Does c M lo hi s s₁ → Q a s₁ → Moves c M lo hi (f a) s₁ R) : Moves c M lo hi (m >>= f) s R := by
  obtain ⟨hdoes, hresult⟩ := hm
  have hbind := outcome_bind m f s
  revert hdoes hresult hbind
  rcases outcome m s with ⟨e | a, s₁⟩
  · intro hdoes _ hbind
    refine ⟨by rw [hbind]; exact hdoes, fun b hb => ?_⟩
    rw [hbind] at hb
    cases hb
  · intro hdoes hresult hbind
    obtain ⟨hdoes', hresult'⟩ := hf a s₁ hdoes (hresult a rfl)
    refine ⟨by rw [hbind]; exact hdoes.trans hdoes', fun b hb => ?_⟩
    rw [hbind] at hb ⊢
    exact hresult' b hb

theorem moves_stepThrough {ι σ : Type} {step : ι → List ι → σ → Recover ρ σ} {l : List ι} {w : σ}
    {I : σ → State ρ → Prop} (hstep : ∀ {i rest w s}, I w s → Moves c M lo hi (step i rest w) s I) (h : I w s) :
    Moves c M lo hi (stepThrough step l w) s I := by
  suffices hall : Does c M lo hi s (outcome (stepThrough step l w) s).2 ∧
      ∀ a, (outcome (stepThrough step l w) s).1 = .ok a → I a (outcome (stepThrough step l w) s).2 from ⟨hall.1, hall.2⟩
  refine outcome_stepThrough (J := fun _ w s r => I w s → Does c M lo hi s r.2 ∧ ∀ a, r.1 = .ok a → I a r.2) ?_ ?_ ?_ h
  · rintro w s hw
    exact ⟨.refl, by rintro _ ⟨⟩; exact hw⟩
  · intro i rest w s e s₁ hfailed hw
    exact ⟨congrArg Prod.snd hfailed ▸ (hstep hw).does, nofun⟩
  · intro i rest w s w₁ s₁ r hgives hrest hw
    obtain ⟨hdoes, hw₁⟩ := (hstep hw).of_gives hgives
    exact (hrest hw₁).imp_left hdoes.trans

/-- A step that is one effect. -/
theorem moves_of_effect {m : Recover ρ α} {a : α} {s' : State ρ} (hm : Gives m s a s') (he : Effect c M lo hi s s')
    (h : Q a s') : Moves c M lo hi m s Q :=
  moves_of_outcome hm (.single he) (by rintro _ ⟨⟩; exact h)

theorem moves_look {q : Look ρ α} {P : (ρ → Prop) → α → Prop} (hq : Asks M q P)
    (h : P (M.stands (s.after q).pool) (s.answer q) → Q (s.answer q) (s.after q)) : Moves c M lo hi (look q) s Q :=
  moves_of_effect (gives_look.2 ⟨rfl, rfl⟩) (.look (hq s.pool).1) (h (hq s.pool).2)

theorem moves_search {q : Search ρ α} {P : (ρ → Prop) → Except Error α → Prop} (hq : Asks M q.run P)
    (h : ∀ a, s.answer q.run = .ok a → P (M.stands (s.after q.run).pool) (.ok a) → Q a (s.after q.run)) :
    Moves c M lo hi (search q) s Q := by
  unfold search
  refine moves_bind (Q := fun r s₁ => r = s.answer q.run ∧ s₁ = s.after q.run) (moves_look hq fun _ => ⟨rfl, rfl⟩) ?_
  rintro r _ - ⟨hr, rfl⟩
  cases r with
  | error e => exact moves_throw
  | ok a => exact moves_pure (h a hr.symm (hr ▸ (hq s.pool).2))

theorem moves_diagnose {type member : String} {x : Anomaly} {Q : Unit → State ρ → Prop}
    (h : Q () (s.diagnosed type member x)) : Moves c M lo hi (diagnose type member x) s Q :=
  moves_of_effect (gives_diagnose.2 rfl) (.diagnose type member x) h

theorem moves_change {f : Schema → Schema} {Q : Unit → State ρ → Prop} (he : Effect c M lo hi s (s.changed f))
    (h : Q () (s.changed f)) : Moves c M lo hi (change f) s Q :=
  moves_of_effect (gives_change.2 rfl) he h

end Moves

theorem positive_caseNumbers (c : Catalog ρ) (t : ρ) : ∀ n ∈ caseNumbers c t, 0 < n := by
  intro n hn
  simpa using (List.mem_filter.1 hn).2

/-- Every call for a class that stands comes down to effects from wherever it is made; it gives what the class is noted
with, or a type that refers to such declarations only. -/
structure Tracked (c : Catalog ρ) (M : Manner ρ) (calls : Calls ρ) : Prop where
  message : ∀ t {s : State ρ} {lo hi : Nat}, M.stands s.pool t → lo ≤ s.schema.size → hi ≤ s.schema.size →
    Moves c M lo hi (calls.message t) s fun id s' => Noted c M s' .message t id
  enum : ∀ t {s : State ρ} {lo hi : Nat}, M.stands s.pool t → lo ≤ s.schema.size → hi ≤ s.schema.size →
    Moves c M lo hi (calls.enum t) s fun id s' => Noted c M s' .enum t id
  fieldType : ∀ source t {s : State ρ} {lo hi : Nat}, M.stands s.pool t → lo ≤ s.schema.size → hi ≤ s.schema.size →
    Moves c M lo hi (calls.fieldType source t) s fun type s' => Grounded c M s' type.leaves

section Calls
variable {env : Setting ρ} {M : Manner ρ} {calls : Calls ρ} {lo hi : Nat} {s : State ρ} {t : ρ}
  (hM : Roams env.catalog M) (hcalls : Tracked env.catalog M calls)
include hM

/-- What waits for its place still does after effects on what comes later. -/
theorem Does.loose {s' : State ρ} {id : DeclId} (h : Does env.catalog M s.schema.size hi s s')
    (hid : s.schema.Loose id) : s'.schema.Loose id := by
  have hkept := (h.onward hM (Schema.above_size s.schema)).kept
  obtain ⟨d', hd', hk⟩ := hkept.decl _ _ (List.getElem?_eq_getElem (l := s.schema.decls) hid.lt)
  have hfile := hid.file
  have hparent := hid.parent
  rw [Schema.fileOf?, List.getElem?_eq_getElem (l := s.schema.decls) hid.lt, Option.bind_some] at hfile
  rw [Schema.parentOf?, List.getElem?_eq_getElem (l := s.schema.decls) hid.lt, Option.bind_some] at hparent
  refine ⟨hid.lt.trans_le h.size_le, ?_, ?_⟩
  · rw [Schema.fileOf?, hd', Option.bind_some, hk.file hid.lt, hfile]
  · rw [Schema.parentOf?, hd', Option.bind_some, hk.parent hid.lt, hparent]

include hcalls

omit hM hcalls in
theorem moves_startFile {c : Catalog ρ} {id : DeclId} (t : ρ) (hlo : lo ≤ id) (hid : Solitary s.schema id) :
    Moves c M lo hi (startFile c t id) s fun _ _ => True :=
  moves_change (.openFile t hlo hid) trivial

/-- A declaration from `lo` on is put in its place. -/
theorem moves_place {id : DeclId} (hlo : lo ≤ id) (hid : Solitary s.schema id) (hhi : hi ≤ s.schema.size) :
    Moves env.catalog M lo hi (place env calls t id) s fun _ _ => True := by
  unfold place
  refine moves_bind (Q := fun o s₁ => s₁.schema = s.schema ∧
      ∀ owner ∈ o, M.stands s₁.pool owner ∧ env.catalog.isMessage owner = true)
    (moves_look (asks_owner? hM t) fun h => ⟨rfl, fun owner ho => ⟨h owner ho, isMessage_owner? ho⟩⟩) ?_
  rintro o s₁ - ⟨hs₁, ho⟩
  rw [← hs₁] at hid hhi
  cases o with
  | none => exact moves_startFile t hlo hid
  | some owner =>
    -- The declaration waits, and what happens meanwhile happens to later ones.
    have hcall : Moves env.catalog M s₁.schema.size hi (calls.message owner) s₁ fun parent s₂ =>
        Noted env.catalog M s₂ .message owner parent ∧ s₂.schema.Loose id :=
      (hcalls.message owner (ho owner rfl).1 le_rfl hhi).imp fun _ _ hs₂ hn => ⟨hn, hs₂.loose hM hid.toLoose⟩
    refine moves_bind (hcall.mono (hlo.trans hid.lt.le) le_rfl) fun parent s₂ _ h => ?_
    exact moves_change (.nest hlo h.2 h.1) trivial

theorem moves_singleType {source : DeclId} (ht : M.stands s.pool t) (hlo : lo ≤ s.schema.size)
    (hhi : hi ≤ s.schema.size) :
    Moves env.catalog M lo hi (singleType env calls source t) s fun type s' =>
      Grounded env.catalog M s' type.leaves := by
  have hreference : ∀ target (s₁ : State ρ), Referable env.catalog M s₁ target →
      Moves env.catalog M lo hi (referenceType source target) s₁ fun type s' =>
        Grounded env.catalog M s' type.leaves := by
    intro target s₁ htarget
    have hlink : Effect env.catalog M lo hi s₁ _ := .linkFiles source target
    refine moves_bind (Q := fun _ s₂ => Referable env.catalog M s₂ target)
      (moves_change hlink (hlink.referable hM htarget)) fun _ _ _ h => moves_pure fun x hx => ?_
    obtain rfl : x = target := by simpa [FieldType.leaves] using hx
    exact h
  unfold singleType
  dsimp only
  split
  · exact moves_pure (by simp [Grounded, FieldType.leaves])
  · rename_i w _ _
    refine moves_bind (Q := fun _ _ => True) (moves_change (.linkPath source w.file) trivial) fun _ _ _ _ => ?_
    exact moves_pure (by simp [Grounded, FieldType.leaves])
  · split
    · split
      · exact moves_pure (by simp [Grounded, FieldType.leaves])
      · exact moves_bind (hcalls.enum t ht hlo hhi) fun target s₁ _ h => hreference target s₁ ⟨t, .inr h⟩
    · exact moves_bind (hcalls.message t ht hlo hhi) fun target s₁ _ h => hreference target s₁ ⟨t, .inl h⟩

theorem moves_fieldType {source : DeclId} (ht : M.stands s.pool t) (hlo : lo ≤ s.schema.size)
    (hhi : hi ≤ s.schema.size) :
    Moves env.catalog M lo hi (fieldType env calls source t) s fun type s' =>
      Grounded env.catalog M s' type.leaves := by
  unfold fieldType
  refine moves_bind (Q := fun ts s₁ => ∀ t ∈ ts, M.stands s₁.pool t) (moves_look (asks_argumentsOf hM t) id)
    fun arguments s₁ hs₁ hstands => ?_
  have hlo₁ := hlo.trans hs₁.size_le
  have hhi₁ := hhi.trans hs₁.size_le
  split
  · rename_i w _
    refine moves_bind (Q := fun _ _ => True) (moves_change (.linkPath source w.file) trivial) fun _ _ _ _ => ?_
    exact moves_pure (by simp [Grounded, FieldType.leaves])
  · split
    · rename_i element _
      have helement := hcalls.fieldType source element (hstands element (by simp)) hlo₁ hhi₁
      exact moves_bind helement fun _ _ _ h => moves_pure h
    · rename_i key value _
      refine moves_bind (hcalls.fieldType source key (hstands key (by simp)) hlo₁ hhi₁) fun _ s₂ hs₂ hkey => ?_
      have hvalue := hcalls.fieldType source value (hs₂.stands hM (hstands value (by simp)))
        (hlo₁.trans hs₂.size_le) (hhi₁.trans hs₂.size_le)
      refine moves_bind hvalue fun _ s₃ hs₃ hvalue => moves_pure fun x hx => ?_
      rcases List.mem_append.1 hx with hx | hx
      · exact hs₃.grounded hM hkey x hx
      · exact hvalue x hx
    · exact moves_singleType hM hcalls (hs₁.stands hM ht) hlo₁ hhi₁

omit hcalls in
theorem moves_enumMembers {enumName : String} {fields : List (Catalog.Field ρ)} :
    Moves env.catalog M lo hi (enumMembers env t enumName fields) s fun _ _ => True := by
  induction fields generalizing s with
  | nil => exact moves_pure trivial
  | cons f rest ih =>
    unfold enumMembers
    refine moves_bind (Q := fun _ _ => True) ?_ fun _ s₁ _ _ =>
      moves_bind (ih (s := s₁)) fun _ _ _ _ => moves_pure trivial
    rw [enumMember_eq]
    split
    · exact moves_throw
    · refine moves_bind (Q := fun _ _ => True) ?_ fun _ _ _ _ => moves_pure trivial
      exact moves_search (asks_readAttributes hM f.attributes) fun _ _ _ => trivial

/-- The message is still a draft while properties are read, and mentions only what is there. -/
structure Underway (c : Catalog ρ) (M : Manner ρ) (lo hi : Nat) (w : InProgress ρ) (s : State ρ) : Prop where
  draft : w.message.Draft
  grounded : Grounded c M s (Body.message w.message).leaves
  lo : lo ≤ s.schema.size
  hi : hi ≤ s.schema.size

omit hcalls in
theorem Underway.does {w : InProgress ρ} {s' : State ρ} (h : Underway env.catalog M lo hi w s)
    (hs : Does env.catalog M lo hi s s') : Underway env.catalog M lo hi w s' :=
  ⟨h.draft, hs.grounded hM h.grounded, h.lo.trans hs.size_le, h.hi.trans hs.size_le⟩

theorem moves_addTold {id : DeclId} {p : Catalog.Property ρ} {told : Told ρ} {w : InProgress ρ}
    (htold : told.Of env p (M.stands s.pool)) (hw : Underway env.catalog M lo hi w s) :
    Moves env.catalog M lo hi (addTold env calls t id p w told) s (Underway env.catalog M lo hi) := by
  unfold addTold
  cases htold with
  | nothing => exact moves_pure hw
  | choice type => exact moves_pure ⟨hw.draft.addChoice (positive_caseNumbers env.catalog type), hw.grounded, hw.lo, hw.hi⟩
  | unnumbered =>
    refine moves_bind (Q := fun _ _ => True) (moves_diagnose trivial) fun _ s₁ hs₁ _ => ?_
    exact moves_pure (hw.does hM hs₁)
  | field htype attributes number isOptional =>
    dsimp only
    split
    · refine moves_bind (Q := fun _ _ => True) (moves_diagnose trivial) fun _ s₁ hs₁ _ => moves_pure ?_
      have hw₁ := hw.does hM hs₁
      exact ⟨hw₁.draft, hw₁.grounded, hw₁.lo, hw₁.hi⟩
    · rename_i hnew
      refine moves_bind (hcalls.fieldType id _ htype hw.lo hw.hi) fun found s₁ hs₁ hfound => moves_pure ?_
      have hw₁ := hw.does hM hs₁
      refine ⟨hw₁.draft.insert _, fun x hx => ?_, hw₁.lo, hw₁.hi⟩
      rcases (mem_leaves_insert hnew).1 hx with hx | hx
      · exact hw₁.grounded x hx
      · exact hfound x hx

theorem moves_addProperty [DecidableEq ρ] {id : DeclId} {p : Catalog.Property ρ} {rest : List (Catalog.Property ρ)}
    {w : InProgress ρ} (hw : Underway env.catalog M lo hi w s) :
    Moves env.catalog M lo hi (addProperty env calls t id p rest w) s (Underway env.catalog M lo hi) := by
  unfold addProperty
  split
  · exact moves_pure ⟨hw.draft, hw.grounded, hw.lo, hw.hi⟩
  · refine moves_bind (Q := fun told s₁ => told.Of env p (M.stands s₁.pool))
      (moves_search (asks_tellProperty hM t w.numbers p rest) fun told _ h => h told rfl) fun told s₁ hs₁ htold => ?_
    exact moves_addTold hM hcalls htold (hw.does hM hs₁)

/-- Reading properties comes down to effects, and a draft stays one. -/
theorem moves_addProperties [DecidableEq ρ] {id : DeclId} {ps : List (Catalog.Property ρ)} {w : InProgress ρ}
    (hw : Underway env.catalog M lo hi w s) :
    Moves env.catalog M lo hi (addProperties env calls t id ps w) s (Underway env.catalog M lo hi) :=
  moves_stepThrough (fun hw => moves_addProperty hM hcalls hw) hw

omit hM hcalls in
theorem moves_diagnoseAll {type : String} {anomalies : List (String × Anomaly)} {c : Catalog ρ} :
    Moves c M lo hi (anomalies.forM fun (member, x) => diagnose type member x : Recover ρ PUnit) s
      fun _ _ => True := by
  induction anomalies generalizing s with
  | nil => exact moves_pure trivial
  | cons a rest ih => exact moves_bind (Q := fun _ _ => True) (moves_diagnose trivial) fun _ _ _ _ => ih

theorem moves_messageBody [DecidableEq ρ] {id : DeclId} (hlo : lo ≤ s.schema.size) (hhi : hi ≤ s.schema.size) :
    Moves env.catalog M lo hi (messageBody env calls t id) s fun m s' =>
      m.WellFormed ∧ Grounded env.catalog M s' (Body.message m).leaves := by
  unfold messageBody
  refine moves_bind (Q := fun _ _ => True) (moves_look (asks_properties hM t) fun _ => trivial)
    fun properties s₁ hs₁ _ => ?_
  refine moves_bind (moves_addProperties hM hcalls ⟨Schema.Message.draft_empty, fun _ hx => by
    simp [mem_leaves_message] at hx, hlo.trans hs₁.size_le, hhi.trans hs₁.size_le⟩) fun w s₂ _ hw => ?_
  refine moves_bind moves_diagnoseAll fun _ s₃ hs₃ _ => moves_pure ⟨wellFormed_settle hw.draft, fun x hx => ?_⟩
  exact hs₃.grounded hM hw.grounded x (mem_leaves_settle.1 hx)

theorem moves_addShaped {id : DeclId} {m : Catalog.Method ρ} {body : Service}
    {o : Option (List (Catalog.Attribute ρ) × Shape ρ)}
    (hshape : ∀ x ∈ o, M.stands s.pool x.2.request ∧ M.stands s.pool x.2.response)
    (hground : Grounded env.catalog M s (Body.service body).leaves) (hlo : lo ≤ s.schema.size)
    (hhi : hi ≤ s.schema.size) :
    Moves env.catalog M lo hi (addShaped env calls id m body o) s fun body' s' =>
      Grounded env.catalog M s' (Body.service body').leaves := by
  cases o with
  | none => exact moves_pure hground
  | some x =>
    obtain ⟨hrequest, hresponse⟩ := hshape x rfl
    unfold addShaped
    dsimp only
    split
    · exact moves_pure hground
    · refine moves_bind (hcalls.fieldType id x.2.request hrequest hlo hhi) fun request s₁ hs₁ hreq => ?_
      refine moves_bind (hcalls.fieldType id x.2.response (hs₁.stands hM hresponse) (hlo.trans hs₁.size_le)
        (hhi.trans hs₁.size_le)) fun response s₂ hs₂ hres => moves_pure fun x hx => ?_
      rcases mem_leaves_append.1 hx with hx | hx
      · exact Does.grounded hM (hs₁.trans hs₂) hground x hx
      · rcases List.mem_append.1 hx with hx | hx
        · exact hs₂.grounded hM hreq x hx
        · exact hres x hx

theorem moves_addMethods {classes : Classes ρ} {id : DeclId} {methods : List (Catalog.Method ρ)} {body : Service}
    (hground : Grounded env.catalog M s (Body.service body).leaves) (hlo : lo ≤ s.schema.size)
    (hhi : hi ≤ s.schema.size) :
    Moves env.catalog M lo hi (addMethods env calls classes id methods body) s fun body' s' =>
      Grounded env.catalog M s' (Body.service body').leaves := by
  refine (moves_stepThrough (I := fun body s => Grounded env.catalog M s (Body.service body).leaves ∧
    lo ≤ s.schema.size ∧ hi ≤ s.schema.size) ?_ ⟨hground, hlo, hhi⟩).imp fun _ _ _ h => h.1
  intro m rest body s ⟨hground, hlo, hhi⟩
  refine moves_bind (Q := fun o s₁ => ∀ x ∈ o, M.stands s₁.pool x.2.request ∧ M.stands s₁.pool x.2.response)
    (moves_search (asks_tellMethod hM classes m) fun o _ h => h o rfl) fun o s₁ hs₁ hshape => ?_
  have hlo₁ := hlo.trans hs₁.size_le
  have hhi₁ := hhi.trans hs₁.size_le
  exact (moves_addShaped hM hcalls hshape (hs₁.grounded hM hground) hlo₁ hhi₁).imp fun _ _ hs₂ h =>
    ⟨h, hlo₁.trans hs₂.size_le, hhi₁.trans hs₂.size_le⟩

end Calls

end ProtoRecovery.Recovery
