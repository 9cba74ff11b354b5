import ProtoRecovery.Proofs.Recovery.Failure
import ProtoRecovery.Proofs.Recovery.Placement
/-!
# The memo and the declarations

Every class that is noted has a declaration of its own, and every declaration is of a class that is noted. That holds in
all states of a session, after failures too; and nothing that later requests do changes what is noted or where it is.
-/

namespace ProtoRecovery.Recovery

open Schema (DeclId FileId FieldType Kind Body Import Filled Solitary)
open Catalog (Pool)
open Identifier (Dictionary)

variable {ρ : Type}

/-! ## What effects come down to -/

/-- What an effect does to the memo and to the places of declarations. -/
inductive Turn (c : Catalog ρ) (M : Manner ρ) (s : State ρ) : State ρ → Prop
  | still {s' : State ρ} (memo : s'.memo = s.memo) (places : SamePlaces s.schema s'.schema) : Turn c M s s'
  | declare {t : ρ} {k : Kind} (name : String) (isDeprecated : Bool) (suits : Suits c M.holder k t)
      (stands : M.stands s.pool t) (new : s.find? (c.fullName t) = none) :
      Turn c M s (s.declared (c.fullName t) name isDeprecated k.emptyBody)
  | nest {owner : ρ} {parent id : DeclId} (loose : s.schema.Loose id) (around : Noted c M s .message owner parent) :
      Turn c M s (s.changed (·.nest parent id))
  | openFile (t : ρ) {id : DeclId} (alone : Solitary s.schema id) : Turn c M s (s.changed (openFile c t id))

section Effects
variable {c : Catalog ρ} {M : Manner ρ} {lo hi : Nat} {s s' : State ρ}

theorem filled_finishMessage {S : Schema} {id : DeclId} (m : Schema.Message) (hk : kindOf? S id = some .message) :
    Filled id (Body.message m).leaves S (finishMessage S id m) :=
  filled_of_finish (.message m fun _ => Iff.rfl) hk

theorem filled_finishService {S : Schema} {id : DeclId} (body : Schema.Service)
    (hk : kindOf? S id = some .service) : Filled id (Body.service body).leaves S (finishService S id body) :=
  filled_of_finish (.service body fun _ => Iff.rfl) hk

theorem Effect.turn (h : Effect c M lo hi s s') : Turn c M s s' := by
  have hrefl : ∀ S : Schema, SamePlaces S S := fun S => OnlyImports.samePlaces ⟨rfl, rfl, fun _ => rfl⟩
  cases h with
  | look => exact .still rfl (hrefl _)
  | diagnose => exact .still rfl (hrefl _)
  | declare name b hsuits hstands hnew => exact .declare name b hsuits hstands hnew
  | nest _ hloose howner => exact .nest hloose howner
  | openFile t _ hid => exact .openFile t hid
  | linkFiles => exact .still rfl onlyImports_linkFiles.samePlaces
  | linkPath => exact .still rfl onlyImports_linkPath.samePlaces
  | finishMessage _ hk => exact .still rfl (samePlaces_of_filled (filled_finishMessage _ hk))
  | finishEnum members _ hk => exact .still rfl (samePlaces_of_filled (filled_of_finish (.enum members) hk))
  | finishService _ hk => exact .still rfl (samePlaces_of_filled (filled_finishService _ hk))

/-- Every reference was there before, or may be made. -/
theorem Effect.reference (h : Effect c M lo hi s s') {x y : DeclId} (hy : .reference y ∈ s'.schema.leavesOf x) :
    .reference y ∈ s.schema.leavesOf x ∨ Referable c M s y := by
  cases h with
  | look => exact .inl hy
  | diagnose => exact .inl hy
  | declare => exact .inl (Schema.leavesOf_declare s.schema x _ _ _ ▸ hy)
  | nest => exact .inl (Schema.leavesOf_nest ▸ hy)
  | openFile t _ hid => exact .inl (Schema.leavesOf_content (content_openFile hid.nested hid.lt) ▸ hy)
  | linkFiles => exact .inl (Schema.leavesOf_congr (onlyImports_linkFiles.outlineOf? x) ▸ hy)
  | linkPath => exact .inl (Schema.leavesOf_congr (onlyImports_linkPath.outlineOf? x) ▸ hy)
  | finishMessage _ hk _ hground => exact ((filled_finishMessage _ hk).mem_leavesOf hy).imp_right (hground y)
  | finishEnum members _ hk =>
    exact ((filled_of_finish (.enum members) hk).mem_leavesOf hy).imp_right fun h => by simp at h
  | finishService _ hk hground => exact ((filled_finishService _ hk).mem_leavesOf hy).imp_right (hground y)

theorem importsOf_addImport_cases {S : Schema} (f g : FileId) (i : Import) :
    (S.addImport g i).importsOf f = S.importsOf f ∨
      i ∉ S.importsOf f ∧ (S.addImport g i).importsOf f = S.importsOf f ++ [i] := by
  simp only [Schema.importsOf, Schema.addImport, Schema.modifyFile, List.getElem?_modify]
  cases hf : S.files[f]? with
  | none => simp
  | some file =>
    by_cases hg : g = f
    · by_cases hi : i ∈ file.imports
      · simp [hg, hi]
      · simp [hg, hi]
    · simp [hg]

/-- An effect adds at most one import to a file. It is not among those there, and a file that it is of has a declaration
in it. -/
theorem Effect.importsOf_cases (h : Effect c M lo hi s s') (f : FileId) :
    s'.schema.importsOf f = s.schema.importsOf f ∨
      ∃ i, i ∉ s.schema.importsOf f ∧ s'.schema.importsOf f = s.schema.importsOf f ++ [i] ∧
        ∀ g, i = .file g → ∃ x, s.schema.fileOf? x = some g := by
  cases h with
  | look => exact .inl rfl
  | diagnose => exact .inl rfl
  | declare => exact .inl rfl
  | nest => exact .inl (Schema.importsOf_nest f)
  | openFile t _ hid => exact .inl (importsOf_openFile hid.nested hid.lt f)
  | linkFiles source target =>
    simp only [State.changed, Recovery.linkFiles]
    split
    · rename_i file other _ hother
      split
      · exact .inl rfl
      · rcases importsOf_addImport_cases f file (.file other) with hsame | ⟨hnew, hadded⟩
        · exact .inl hsame
        · refine .inr ⟨_, hnew, hadded, ?_⟩
          rintro g ⟨⟩
          exact ⟨target, hother⟩
    · exact .inl rfl
  | linkPath source path =>
    simp only [State.changed, Recovery.linkPath]
    split
    · rename_i file _
      rcases importsOf_addImport_cases f file (.wellKnown path) with hsame | ⟨hnew, hadded⟩
      · exact .inl hsame
      · exact .inr ⟨_, hnew, hadded, by rintro g ⟨⟩⟩
    · exact .inl rfl
  | finishMessage _ hk => exact .inl ((filled_finishMessage _ hk).imports f)
  | finishEnum members _ hk => exact .inl ((filled_of_finish (.enum members) hk).imports f)
  | finishService _ hk => exact .inl ((filled_finishService _ hk).imports f)

/-- Every file that is imported was before, or has a declaration in it. -/
theorem Effect.imported (h : Effect c M lo hi s s') {f g : FileId} (hg : Import.file g ∈ s'.schema.importsOf f) :
    Import.file g ∈ s.schema.importsOf f ∨ ∃ x, s.schema.fileOf? x = some g := by
  rcases h.importsOf_cases f with hsame | ⟨i, -, hadded, hfile⟩
  · exact .inl (hsame ▸ hg)
  · rw [hadded, List.mem_append, List.mem_singleton] at hg
    exact hg.imp_right fun hi => hfile g hi.symm

end Effects

/-! ## The memo, the places and what is referred to -/

/-- What holds of the memo and of places in every state. -/
structure Filed (s : State ρ) : Prop where
  names : (s.memo.map Prod.fst).Nodup
  positions : s.memo.map Prod.snd = List.range s.schema.size
  linked : s.schema.Linked
  once : ∀ p, (s.schema.nestedIn p).Nodup
  top : ∀ f < s.schema.files.length, ∃ x < s.schema.size, s.schema.topsOf f = [x]

section Filed
variable {c : Catalog ρ} {M : Manner ρ} {s s' : State ρ} {n : String} {id : DeclId}

theorem mem_of_find? (h : s.find? n = some id) : (n, id) ∈ s.memo := by
  obtain ⟨before, after, hmemo, -⟩ := List.lookup_eq_some_iff.1 h
  rw [hmemo]
  simp

theorem Filed.find?_of_mem (h : Filed s) (hn : (n, id) ∈ s.memo) : s.find? n = some id := by
  obtain ⟨before, after, hmemo⟩ := List.append_of_mem hn
  refine List.lookup_eq_some_iff.2 ⟨before, after, hmemo, fun e he => ?_⟩
  have hnames := h.names
  rw [hmemo, List.map_append] at hnames
  have hne := (List.nodup_append.1 hnames).2.2 e.1 (List.mem_map_of_mem he) n (by simp)
  simpa using Ne.symm hne

theorem Filed.lt (h : Filed s) (hn : s.find? n = some id) : id < s.schema.size := by
  have hid : id ∈ s.memo.map Prod.snd := List.mem_map_of_mem (mem_of_find? hn)
  rwa [h.positions, List.mem_range] at hid

theorem Filed.named (h : Filed s) (hid : id < s.schema.size) : ∃! n, s.find? n = some id := by
  have hmem : id ∈ s.memo.map Prod.snd := by rwa [h.positions, List.mem_range]
  obtain ⟨⟨n, _⟩, hn, rfl⟩ := List.mem_map.1 hmem
  refine ⟨n, h.find?_of_mem hn, fun n' hn' => ?_⟩
  -- No position is noted twice, so both names stand in one entry.
  have hnodup : (s.memo.map Prod.snd).Nodup := h.positions ▸ List.nodup_range
  exact congrArg Prod.fst (List.inj_on_of_nodup_map hnodup (mem_of_find? hn') hn rfl)

theorem filed_start (c : Catalog ρ) : Filed (start c) where
  names := List.nodup_nil
  positions := rfl
  linked := by constructor <;> simp [start, Schema.nestedIn, Schema.parentOf?, Schema.fileOf?]
  once p := by simp [start, Schema.nestedIn]
  top f hf := by simp [start] at hf

theorem filed_still (h : Filed s) (hmemo : s'.memo = s.memo) (hplaces : SamePlaces s.schema s'.schema) :
    Filed s' where
  names := hmemo ▸ h.names
  positions := by rw [hmemo, hplaces.size, h.positions]
  linked := h.linked.transfer hplaces.size.ge hplaces.files.ge hplaces.parent hplaces.file hplaces.nested
  once p := hplaces.nested p ▸ h.once p
  top f hf := by
    rw [hplaces.files] at hf
    rw [hplaces.size, hplaces.tops]
    exact h.top f hf

theorem filed_declare (h : Filed s) (hnew : s.find? n = none) (name : String) (b : Bool) (k : Kind) :
    Filed (s.declared n name b k.emptyBody) where
  names := by
    simp only [State.declared, List.map_append, List.map_cons, List.map_nil]
    refine List.nodup_append.2 ⟨h.names, by simp, fun m hm m' hm' => ?_⟩
    obtain rfl := List.mem_singleton.1 hm'
    rintro rfl
    obtain ⟨e, he, rfl⟩ := List.mem_map.1 hm
    simpa using List.lookup_eq_none_iff.1 hnew e he
  positions := by
    simp only [State.declared, List.map_append, List.map_cons, List.map_nil, h.positions, Schema.size_declare,
      List.range_succ]
  linked := Schema.linked_declare h.linked name b k
  once p := (Schema.nestedIn_declare s.schema p name b k).symm ▸ h.once p
  top f hf := by
    obtain ⟨x, hx, htop⟩ := h.top f hf
    exact ⟨x, hx.trans_le ((Nat.le_succ _).trans_eq (Schema.size_declare ..).symm), htop⟩

theorem filed_nest (h : Filed s) {p : DeclId} (hid : s.schema.Loose id) (hp : p < s.schema.size) :
    Filed (s.changed (·.nest p id)) where
  names := h.names
  positions := h.positions.trans (congrArg _ Schema.size_nest.symm)
  linked := Schema.linked_nest h.linked hid hp
  once q := by
    show ((s.schema.nest p id).nestedIn q).Nodup
    by_cases hk : (s.schema.outlineOf? p).map (·.kind) = some .message
    · rw [Schema.nestedIn_nest hk]
      split
      · refine List.nodup_append.2 ⟨h.once q, by simp, fun x hx y hy => ?_⟩
        obtain rfl := List.mem_singleton.1 hy
        rintro rfl
        have hparent := h.linked.parent_of_nested q x hx
        simp [hid.parent] at hparent
      · exact h.once q
    · rw [Schema.nestedIn_nest_of_ne hk]
      exact h.once q
  top f hf := by
    obtain ⟨x, hx, htop⟩ := h.top f (hf.trans_eq Schema.length_files_nest)
    exact ⟨x, hx.trans_eq Schema.size_nest.symm, (Schema.topsOf_nest f).trans htop⟩

theorem filed_openFile (h : Filed s) (t : ρ) (hid : Solitary s.schema id) : Filed (s.changed (openFile c t id)) where
  names := h.names
  positions := h.positions.trans (congrArg _ (size_openFile hid.nested hid.lt).symm)
  linked := linked_openFile hid.nested hid.lt h.linked hid.toLoose
  once p := (nestedIn_openFile hid.nested hid.lt).symm ▸ h.once p
  top f hf := by
    have hsize : (openFile c t id s.schema).size = s.schema.size := size_openFile hid.nested hid.lt
    have hlt : f < (openFile c t id s.schema).files.length := hf
    rw [length_files_openFile hid.nested hid.lt] at hlt
    simp only [State.changed, hsize, topsOf_openFile hid.nested hid.lt]
    split
    · exact ⟨id, hid.lt, rfl⟩
    · rename_i hne
      exact h.top f (Nat.lt_of_le_of_ne (Nat.le_of_lt_succ hlt) hne)

theorem filed_of_turn (h : Filed s) (hturn : Turn c M s s') : Filed s' := by
  cases hturn with
  | still hmemo hplaces => exact filed_still h hmemo hplaces
  | declare name b _ _ hnew => exact filed_declare h hnew name b _
  | nest hloose haround => exact filed_nest h hloose (h.lt haround.found)
  | openFile t halone => exact filed_openFile h t halone

/-- What holds of places, and of what is referred to and imported. -/
structure Closed (s : State ρ) : Prop extends Filed s where
  reference : ∀ x y, .reference y ∈ s.schema.leavesOf x → y < s.schema.size
  imported : ∀ f g, Import.file g ∈ s.schema.importsOf f → g < s.schema.files.length

theorem closed_start (c : Catalog ρ) : Closed (start c) :=
  ⟨filed_start c, by simp [start, Schema.leavesOf, Schema.outlineOf?], by simp [start, Schema.importsOf]⟩

theorem Turn.files_le (h : Turn c M s s') : s.schema.files.length ≤ s'.schema.files.length := by
  cases h with
  | still _ hplaces => exact hplaces.files.ge
  | declare => exact le_rfl
  | nest => exact Schema.length_files_nest.ge
  | openFile t halone => exact (Nat.le_succ _).trans_eq (length_files_openFile halone.nested halone.lt).symm

theorem closed_of_effect {lo hi : Nat} (h : Closed s) (he : Effect c M lo hi s s') : Closed s' where
  toFiled := filed_of_turn h.toFiled he.turn
  reference x y hy := by
    rcases he.reference hy with hold | ⟨t, hmessage | henum⟩
    · exact (h.reference x y hold).trans_le he.size_le
    · exact (h.lt hmessage.found).trans_le he.size_le
    · exact (h.lt henum.found).trans_le he.size_le
  imported f g hg := by
    rcases he.imported hg with hold | ⟨x, hx⟩
    · exact (h.imported f g hold).trans_le he.turn.files_le
    · exact (h.linked.file_lt x g hx).trans_le he.turn.files_le

end Filed

/-! ## Later requests -/

/-- The state after requests, each of which may end well or not. -/
def runAll [DecidableEq ρ] (c : Catalog ρ) (names : Option Dictionary) (qs : List (Request ρ)) (s : State ρ) : State ρ :=
  qs.foldl (fun s q => (outcome (q.run c names) s).2) s

/-- The same request with other options. -/
def Request.withOptions (options : Options) : Request ρ → Request ρ
  | .type r => .type r
  | .message r _ => .message r options
  | .enum r _ => .enum r options
  | .service r _ => .service r options

/-- What is noted and declared stays as it is: its name and all that it says, its file and its parent. -/
structure Stays (s s' : State ρ) : Prop where
  memo : ∀ n id, s.find? n = some id → s'.find? n = some id
  face : ∀ id < s.schema.size, s'.schema.faceOf? id = s.schema.faceOf? id
  file : ∀ id < s.schema.size, s'.schema.fileOf? id = s.schema.fileOf? id
  parent : ∀ id < s.schema.size, s'.schema.parentOf? id = s.schema.parentOf? id

theorem Onward.stays {M : Manner ρ} {s s' : State ρ} (h : Onward M s.schema.size s.schema.size s s') : Stays s s' := by
  have hdecl : ∀ id < s.schema.size, ∃ d d', s.schema.decls[id]? = some d ∧ s'.schema.decls[id]? = some d' ∧
      d'.file = d.file ∧ d'.parent = d.parent := by
    intro id hid
    have hd := List.getElem?_eq_getElem (l := s.schema.decls) hid
    obtain ⟨d', hd', hk⟩ := h.kept.decl _ _ hd
    exact ⟨_, d', hd, hd', hk.file hid, hk.parent hid⟩
  refine ⟨fun _ _ => lookup_of_prefix h.memo, fun _ hid => h.kept.faceOf? hid hid, fun id hid => ?_, fun id hid => ?_⟩
  · obtain ⟨d, d', hd, hd', hfile, -⟩ := hdecl id hid
    rw [Schema.fileOf?, Schema.fileOf?, hd, hd', Option.bind_some, Option.bind_some, hfile]
  · obtain ⟨d, d', hd, hd', -, hparent⟩ := hdecl id hid
    rw [Schema.parentOf?, Schema.parentOf?, hd, hd', Option.bind_some, Option.bind_some, hparent]

section Later
variable [DecidableEq ρ] {c : Catalog ρ} {names : Option Dictionary} {s s' : State ρ} {q : Request ρ} {id : DeclId}

theorem does_runAll {M : Manner ρ} (hM : Roams c M) (hholder : ∀ t, M.holder t) (qs : List (Request ρ))
    {lo hi : Nat} (hlo : lo ≤ s.schema.size) (hhi : hi ≤ s.schema.size) : Does c M lo hi s (runAll c names qs s) := by
  induction qs generalizing s with
  | nil => exact .refl
  | cons q qs ih =>
    have hq : Does c M lo hi s (outcome (q.run c names) s).2 :=
      (moves_request hM q (holds_of_forall hholder q) hlo hhi).does
    exact hq.trans (ih (hlo.trans hq.size_le) (hhi.trans hq.size_le))

theorem onward_runAll (hM : Roams c .growing) (qs : List (Request ρ)) :
    Onward .growing s.schema.size s.schema.size s (runAll c names qs s) :=
  (does_runAll hM (fun _ => trivial) qs le_rfl le_rfl).onward hM (Schema.above_size _)

omit [DecidableEq ρ] in
theorem Does.extends (hM : Roams c .growing) (h : Does c .growing 0 0 s s') : Extends s.pool s'.pool :=
  (h.onward hM (Schema.above_zero _)).pool

/-- The state in which it has been found out which class a request is for. -/
def Request.asked (c : Catalog ρ) (s : State ρ) : Request ρ → State ρ
  | .service r _ => (s.after (c.resolve r)).after (classify c (s.answer (c.resolve r))).run
  | .type r | .message r _ | .enum r _ => s.after (c.resolve r)

/-- A request keeps what it looked up. -/
theorem extends_asked (hM : Roams c .growing) (q : Request ρ) :
    Extends (q.asked c s).pool (outcome (q.run c names) s).2.pool := by
  cases q with
  | type r => exact .refl _
  | message r o =>
    obtain ⟨depth, hrun⟩ : ∃ depth, outcome ((Request.message r o).run c names) s = _ := outcome_messageRequest r o s
    rw [hrun]
    exact (moves_message hM (tracked_callsWithin ⟨c, names, o⟩ hM depth) _ trivial (Nat.zero_le _)
      (Nat.zero_le _)).does.extends hM
  | enum r o =>
    obtain ⟨depth, hrun⟩ : ∃ depth, outcome ((Request.enum r o).run c names) s = _ := outcome_enumRequest r o s
    rw [hrun]
    exact (moves_enum hM (tracked_callsWithin ⟨c, names, o⟩ hM depth) _ trivial (Nat.zero_le _)
      (Nat.zero_le _)).does.extends hM
  | service r o =>
    obtain ⟨depth, hrun⟩ := outcome_serviceRequest names r o s
    rw [hrun, outcome_service]
    cases (s.after (c.resolve r)).answer (classify c (s.answer (c.resolve r))).run with
    | error e => exact .refl _
    | ok classes =>
      exact (moves_introduceService hM (tracked_callsWithin ⟨c, names, o⟩ hM depth) classes trivial trivial
        (Nat.zero_le _) (Nat.zero_le _)).does.extends hM

/-- Once the class that a request was for is noted, the request is answered from the memo, and nothing happens. -/
theorem outcome_again (hM : Roams c .growing) {t : ρ} {k : Kind} (hfor : q.IsFor c s t k) (hsuits : Suits c (fun _ => True) k t)
    (hpool : Extends (q.asked c s).pool s'.pool) (hfound : s'.find? (c.fullName t) = some id) (options : Options) :
    outcome ((q.withOptions options).run c names) s' = (.ok (some id), s') := by
  -- The pool still has all that was looked up, so the class is the same.
  cases hfor with
  | message r o =>
    obtain ⟨depth, hrun⟩ : ∃ depth, outcome ((Request.message r options).run c names) s' = _ :=
      outcome_messageRequest r options s'
    obtain ⟨htype, hstate⟩ := resolve_again hpool
    have ht : (Setting.mk c names options).catalog.isMessage (s.answer (c.resolve r)) = true := hsuits
    rw [Request.withOptions, hrun, htype, hstate, message_eq ht, outcome_introduce_known hfound]
    rfl
  | enum r o =>
    obtain ⟨depth, hrun⟩ : ∃ depth, outcome ((Request.enum r options).run c names) s' = _ :=
      outcome_enumRequest r options s'
    obtain ⟨htype, hstate⟩ := resolve_again hpool
    have ht : (Setting.mk c names options).catalog.isEnum (s.answer (c.resolve r)) = true := hsuits
    rw [Request.withOptions, hrun, htype, hstate, enum_eq ht, outcome_introduce_known hfound]
    rfl
  | service r o hclasses =>
    obtain ⟨depth, hrun⟩ := outcome_serviceRequest names r options s'
    obtain ⟨hagain, hafter⟩ := classify_again hpool
    obtain ⟨htype, hstate⟩ := resolve_again ((asks_classify hM _ _).1.trans hpool)
    rw [Request.withOptions, hrun, htype, hstate, outcome_service, hagain, hclasses, hafter]
    dsimp only
    rw [outcome_introduce_known hfound]
    rfl

end Later

/-! ## The memo and the arena -/

/-- Every position that is stored is one of a declaration or a file, and every file has one declaration at its top. -/
structure InRange (S : Schema) : Prop where
  reference : ∀ x y, .reference y ∈ S.leavesOf x → y < S.size
  nested : ∀ p x, x ∈ S.nestedIn p → x < S.size
  parent : ∀ x p, S.parentOf? x = some p → p < S.size
  top : ∀ f < S.files.length, ∃ x < S.size, S.topsOf f = [x]
  file : ∀ x f, S.fileOf? x = some f → f < S.files.length
  imported : ∀ f g, Import.file g ∈ S.importsOf f → g < S.files.length

theorem Closed.inRange {s : State ρ} (h : Closed s) : InRange s.schema where
  reference := h.reference
  nested p x hx := Schema.lt_size_of_parentOf? (h.linked.parent_of_nested p x hx)
  parent := h.linked.parent_lt
  top := h.top
  file := h.linked.file_lt
  imported := h.imported

/-- The memo and the declarations fit each other: it notes every declaration under one name and nothing else, what is
stored is there, and no later requests change that. A request that has given a declaration gives it at once for good,
whatever the options. -/
structure InOrder [DecidableEq ρ] (c : Catalog ρ) (names : Option Dictionary) (s : State ρ) : Prop where
  noted : ∀ n id, s.find? n = some id → id < s.schema.size
  named : ∀ id < s.schema.size, ∃! n, s.find? n = some id
  inRange : InRange s.schema
  stays : ∀ later, Stays s (runAll c names later s)
  again : ∀ (q : Request ρ) (id : DeclId) (s' : State ρ), outcome (q.run c names) s = (.ok (some id), s') → ∀ later options,
    outcome ((q.withOptions options).run c names) (runAll c names later s') =
      (.ok (some id), runAll c names later s')

section InOrder
variable [DecidableEq ρ] {c : Catalog ρ} {names : Option Dictionary} {s : State ρ}

theorem closed_of_visited (h : Visited c names s) : Closed s :=
  attempted_invariant (h.attempted fun _ => trivial) (roams_anyhow c) (closed_start c) fun _ _ he hs =>
    closed_of_effect hs he

theorem inOrder_of_roams (hM : Roams c .growing) (h : Visited c names s) : InOrder c names s where
  noted _ _ := (closed_of_visited h).lt
  named _ := (closed_of_visited h).named
  inRange := (closed_of_visited h).inRange
  stays later := (onward_runAll hM later).stays
  again q id s' hrun later options := by
    have hmoves : Moves c .growing 0 0 (q.run c names) s _ :=
      moves_request hM q (holds_of_forall (fun _ => trivial) q) (Nat.zero_le _) (Nat.zero_le _)
    obtain ⟨t, k, hfor, hnoted⟩ := hmoves.result (some id) (congrArg Prod.fst hrun) id rfl
    have hpool : Extends (q.asked c s).pool (outcome (q.run c names) s).2.pool := extends_asked hM q
    rw [hrun] at hnoted hpool
    have hlater : Does c .growing 0 0 s' (runAll c names later s') :=
      does_runAll hM (fun _ => trivial) later (Nat.zero_le _) (Nat.zero_le _)
    exact outcome_again hM hfor hnoted.suits (hpool.trans (hlater.extends hM)) (hlater.noted hM hnoted).found options

end InOrder

/-- Whatever metadata is read, the memo and the declarations fit each other in all states of a session, and later requests
leave them as they are. -/
theorem memo_fits_declarations {names : Option Dictionary} :
    (∀ (lib : Managed.Library) (s : State Managed.TypeRef), Visited lib.catalog names s → InOrder lib.catalog names s) ∧
      ∀ (st : Il2cpp.Store) (s : State Il2cpp.Handle), Visited st.catalog names s → InOrder st.catalog names s :=
  ⟨fun lib _ => inOrder_of_roams (Managed.roams_library lib), fun st _ => inOrder_of_roams (roams_store st)⟩

/-- After a request that failed halfway, what it declared is noted and can be asked for. -/
theorem order_in_order :
    Visited orderLibrary.catalog none orderOutcome.2 ∧ orderOutcome.1.toOption = none ∧
      orderOutcome.2.memo = [("App.Order", 0), ("App.Part", 1)] ∧
      InOrder orderLibrary.catalog none orderOutcome.2 := by
  have hvisited : Visited orderLibrary.catalog none orderOutcome.2 := .step _ .start
  exact ⟨hvisited, by decide +kernel, by decide +kernel, memo_fits_declarations.1 orderLibrary _ hvisited⟩

end ProtoRecovery.Recovery
