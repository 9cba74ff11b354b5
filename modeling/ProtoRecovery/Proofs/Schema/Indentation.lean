import Mathlib
import ProtoRecovery.Schema.Text
/-!
# Lines and levels

A pen writes line after line and keeps one level of indentation, which goes up where a block opens and down where it
closes. `Draws` is how a schema is written that way, with no bound on the depth. Where nesting comes to an end, the pen
writes just the lines of `declLines`, shifted to the level where it started, and is back at that level afterwards.
-/

namespace ProtoRecovery.Schema

/-- Where writing stands: how far in, and what is written already. -/
structure Pen where
  level : Nat
  text : String
deriving DecidableEq, Repr

namespace Pen

variable (layout : Layout)

/-- Writes a line at the level of the pen. -/
def line (p : Pen) (content : String) : Pen :=
  { p with text := p.text ++ String.join (List.replicate p.level layout.indent) ++ content ++ "\n" }

def lines (p : Pen) (contents : List String) : Pen := contents.foldl (line layout) p

/-- Writes a line where there is a reason to. -/
def lineIf (p : Pen) (reason : Bool) (content : String) : Pen := if reason then p.line layout content else p

/-- Ends a line that has nothing on it. -/
def gap (p : Pen) : Pen := { p with text := p.text ++ "\n" }

/-- One level further in. -/
def raise (p : Pen) : Pen := { p with level := p.level + 1 }

/-- One level back; the outermost has none before it. -/
def lower (p : Pen) : Pen := { p with level := p.level - 1 }

def openBlock (p : Pen) (head : String) : Pen := (p.line layout (head ++ " \x7b")).raise

def closeBlock (p : Pen) : Pen := p.lower.line layout "\x7d"

variable {layout} (p : Pen)

@[simp] theorem lines_nil : p.lines layout [] = p := rfl

@[simp] theorem lines_cons (content : String) (contents : List String) :
    p.lines layout (content :: contents) = (p.line layout content).lines layout contents := rfl

theorem lines_append (a b : List String) : p.lines layout (a ++ b) = (p.lines layout a).lines layout b :=
  List.foldl_append

theorem lineIf_eq (reason : Bool) (content : String) :
    p.lineIf layout reason content = p.lines layout (if reason then [content] else []) := by
  cases reason <;> rfl

/-- Things that are drawn one after the other write their lines one after the other. -/
theorem foldl_eq_lines {α : Type} {draw : Pen → α → Pen} {content : α → List String}
    (h : ∀ p x, draw p x = p.lines layout (content x)) (xs : List α) :
    xs.foldl draw p = p.lines layout (xs.flatMap content) := by
  induction xs generalizing p with
  | nil => rfl
  | cons x xs ih => rw [List.foldl_cons, h, ih, List.flatMap_cons, lines_append]

@[simp] theorem lower_raise : p.raise.lower = p := rfl

/-- A line further in is a line with one more step of indentation in front. -/
theorem line_raise (content : String) : p.raise.line layout content = (p.line layout (layout.indent ++ content)).raise := by
  simp [line, raise, List.replicate_succ', String.append_assoc]

theorem lines_raise (contents : List String) :
    p.raise.lines layout contents = (p.lines layout (contents.map (layout.indent ++ ·))).raise := by
  induction contents generalizing p with
  | nil => rfl
  | cons content contents ih => rw [lines_cons, line_raise, ih, List.map_cons, lines_cons]

/-- A block puts the pen back to where it started. -/
theorem closeBlock_lines_openBlock (head : String) (contents : List String) :
    ((p.openBlock layout head).lines layout contents).closeBlock layout = p.lines layout (layout.braced head contents) := by
  rw [openBlock, lines_raise, closeBlock, lower_raise, Layout.braced, List.cons_append, lines_cons, lines_append]
  rfl

/-- At the outermost level lines are written as they are. -/
theorem lines_outermost (text : String) (contents : List String) :
    lines layout ⟨0, text⟩ contents = ⟨0, text ++ textOf contents⟩ := by
  induction contents generalizing text with
  | nil => simp [textOf]
  | cons content contents ih =>
    have hline : line layout ⟨0, text⟩ content = ⟨0, text ++ (content ++ "\n")⟩ := by
      simp [line, String.append_assoc]
    rw [lines_cons, hline, ih]
    simp [textOf, String.append_assoc]

end Pen

/-! ## Drawing declarations -/

section Drawing
variable (s : Schema) (layout : Layout) (owner : DeclId) (d : Declaration)

def drawChoice (m : Message) (p : Pen) (c : Choice) : Pen :=
  ((p.openBlock layout ("oneof " ++ c.name)).lines layout
    ((m.fieldsOf c).map (s.fieldLine owner true))).closeBlock layout

/-- What a method says before it ends or opens a block. -/
def methodHead (m : Method) : String :=
  "rpc " ++ m.name ++ " " ++ s.messageText owner m.requestStreamed m.request
    ++ " returns " ++ s.messageText owner m.responseStreamed m.response

def drawMethod (p : Pen) (m : Method) : Pen :=
  if m.isDeprecated then
    ((p.openBlock layout (s.methodHead owner m)).line layout deprecatedLine).closeBlock layout
  else p.line layout (s.methodHead owner m ++ ";")

def drawEnum (e : Enum) (p : Pen) : Pen :=
  let inner := (((p.openBlock layout ("enum " ++ d.name)).lineIf layout e.hasAliases
    (optionLine "allow_alias" "true")).lineIf layout d.isDeprecated deprecatedLine).lineIf layout e.isClosed
    (optionLine "features.enum_type" "CLOSED")
  (inner.lines layout (e.members.map memberLine)).closeBlock layout

def drawService (service : Service) (p : Pen) : Pen :=
  let inner := (p.openBlock layout ("service " ++ d.name)).lineIf layout d.isDeprecated deprecatedLine
  (service.methods.foldl (s.drawMethod layout owner) inner).closeBlock layout

/-- The lines of a message that are no declarations. -/
def ownLines (m : Message) : List String :=
  (if d.isDeprecated then [deprecatedLine] else []) ++ m.plainFields.map (s.fieldLine owner false)
    ++ m.choices.flatMap (s.choiceLines layout owner m)

/-- Opens the block of a message and writes all of it that is not a declaration. -/
def drawOwn (m : Message) (p : Pen) : Pen :=
  let inner := (p.openBlock layout ("message " ++ d.name)).lineIf layout d.isDeprecated deprecatedLine
  m.choices.foldl (s.drawChoice layout owner m) (inner.lines layout (m.plainFields.map (s.fieldLine owner false)))

/-- Draws declarations one after the other, with all that is nested in them. -/
inductive Draws : List DeclId → Pen → Pen → Prop
  | nil (p : Pen) : Draws [] p p
  | message {id : DeclId} {rest : List DeclId} {d : Declaration} {m : Message} {p q r : Pen}
    (hd : s.decls[id]? = some d) (hbody : d.body = .message m) (hnested : Draws m.nested (s.drawOwn layout id d m p) q)
    (hrest : Draws rest (q.closeBlock layout) r) : Draws (id :: rest) p r
  | enum {id : DeclId} {rest : List DeclId} {d : Declaration} {e : Enum} {p r : Pen}
    (hd : s.decls[id]? = some d) (hbody : d.body = .enum e) (hrest : Draws rest (drawEnum layout d e p) r) :
    Draws (id :: rest) p r
  | service {id : DeclId} {rest : List DeclId} {d : Declaration} {service : Service} {p r : Pen}
    (hd : s.decls[id]? = some d) (hbody : d.body = .service service)
    (hrest : Draws rest (s.drawService layout id d service p) r) : Draws (id :: rest) p r

/-- Draws declarations with a blank line before each. -/
inductive DrawsApart : List DeclId → Pen → Pen → Prop
  | nil (p : Pen) : DrawsApart [] p p
  | cons {id : DeclId} {rest : List DeclId} {p q r : Pen} (hid : s.Draws layout [id] p.gap q)
    (hrest : DrawsApart rest q r) : DrawsApart (id :: rest) p r

end Drawing

section Blocks
variable {s : Schema} {layout : Layout} {owner : DeclId} {d : Declaration}

theorem drawChoice_eq (m : Message) (p : Pen) (c : Choice) :
    s.drawChoice layout owner m p c = p.lines layout (s.choiceLines layout owner m c) :=
  p.closeBlock_lines_openBlock _ _

theorem drawMethod_eq (p : Pen) (m : Method) :
    s.drawMethod layout owner p m = p.lines layout (s.methodLines layout owner m) := by
  unfold drawMethod methodLines
  by_cases hm : m.isDeprecated = true
  · rw [if_pos hm]
    simp only [if_pos hm]
    exact p.closeBlock_lines_openBlock _ [deprecatedLine]
  · rw [if_neg hm]
    simp only [if_neg hm]
    rfl

theorem drawEnum_eq (e : Enum) (p : Pen) :
    drawEnum layout d e p = p.lines layout (enumLines layout d.name d.isDeprecated e) := by
  unfold drawEnum enumLines
  simp only [Pen.lineIf_eq, ← Pen.lines_append]
  exact p.closeBlock_lines_openBlock _ _

theorem drawService_eq (service : Service) (p : Pen) :
    s.drawService layout owner d service p =
      p.lines layout (s.serviceLines layout owner d.name d.isDeprecated service) := by
  unfold drawService serviceLines
  simp only [Pen.lineIf_eq, Pen.foldl_eq_lines _ drawMethod_eq, ← Pen.lines_append]
  exact p.closeBlock_lines_openBlock _ _

theorem drawOwn_eq (m : Message) (p : Pen) :
    s.drawOwn layout owner d m p =
      (p.openBlock layout ("message " ++ d.name)).lines layout (s.ownLines layout owner d m) := by
  unfold drawOwn ownLines
  simp only [Pen.lineIf_eq, Pen.foldl_eq_lines _ (drawChoice_eq m), ← Pen.lines_append]

end Blocks

/-! ## Depth -/

/-- A declaration is listed in another. -/
def NestedIn (s : Schema) (c p : DeclId) : Prop := c ∈ s.nestedIn p

/-- Nesting comes to an end below every declaration, and all that messages and files list is there. -/
structure Grounded (s : Schema) : Prop where
  nesting_ends : WellFounded s.NestedIn
  nested_lt : ∀ c p, s.NestedIn c p → c < s.size
  tops_lt : ∀ file ∈ s.files, ∀ id ∈ file.tops, id < s.size

section Depth
variable {s : Schema} {layout : Layout}

theorem NestedIn.lister_lt {c p : DeclId} (h : s.NestedIn c p) : p < s.size := by
  by_contra hp
  have hnone : s.decls[p]? = none := List.getElem?_eq_none (not_lt.1 hp)
  simp [NestedIn, nestedIn, hnone] at h

theorem nestedIn_of_message {id : DeclId} {d : Declaration} {m : Message} (hd : s.decls[id]? = some d)
    (hbody : d.body = .message m) : s.nestedIn id = m.nested := by
  simp [nestedIn, hd, Declaration.nested, Declaration.message?, hbody]

theorem lister_lt_of_isChain {id : DeclId} {l : List DeclId} (hl : List.IsChain s.NestedIn (id :: l)) :
    ∀ x ∈ l, x < s.size := by
  induction l generalizing id with
  | nil => simp
  | cons p l ih =>
    obtain ⟨hp, hl⟩ := List.isChain_cons_cons.1 hl
    intro x hx
    rcases List.mem_cons.1 hx with rfl | hx
    · exact hp.lister_lt
    · exact ih hl x hx

/-- Where nesting ends, no declaration is nested in as many as there are. -/
theorem length_le_of_nesting (h : WellFounded s.NestedIn) {id : DeclId} {l : List DeclId} (hid : id < s.size)
    (hl : List.IsChain s.NestedIn (id :: l)) : (id :: l).length ≤ s.size := by
  have hpairs : (id :: l).Pairwise (Relation.TransGen s.NestedIn) :=
    List.isChain_iff_pairwise.1 (hl.imp fun _ _ => .single)
  have hnodup : (id :: l).Nodup := by
    refine hpairs.imp fun {a b} hab heq => ?_
    subst heq
    exact h.transGen.asymmetric a a hab hab
  have hsub : id :: l ⊆ List.range s.size := by
    intro x hx
    rw [List.mem_range]
    rcases List.mem_cons.1 hx with rfl | hx
    · exact hid
    · exact lister_lt_of_isChain hl x hx
  have hle := (List.subperm_of_subset hnodup hsub).length_le
  rwa [List.length_range] at hle

section Bodies
variable {id : DeclId} {d : Declaration} (hd : s.decls[id]? = some d) (depth : Nat)
include hd

theorem declLines_of_message {m : Message} (hbody : d.body = .message m) :
    s.declLines layout (depth + 1) id = layout.braced ("message " ++ d.name)
      (s.ownLines layout id d m ++ m.nested.flatMap (s.declLines layout depth)) := by
  simp only [declLines, hd, hbody]
  rfl

theorem declLines_of_enum {e : Enum} (hbody : d.body = .enum e) :
    s.declLines layout (depth + 1) id = enumLines layout d.name d.isDeprecated e := by
  simp only [declLines, hd, hbody]

theorem declLines_of_service {service : Service} (hbody : d.body = .service service) :
    s.declLines layout (depth + 1) id = s.serviceLines layout id d.name d.isDeprecated service := by
  simp only [declLines, hd, hbody]

theorem exists_size_eq : ∃ n, s.size = n + 1 :=
  Nat.exists_eq_succ_of_ne_zero (Nat.ne_zero_of_lt (List.getElem?_eq_some_iff.1 hd).1)

end Bodies

/-- Lines do not change with the depth once it is enough for what is left of the declarations. -/
theorem declLines_succ (h : WellFounded s.NestedIn) {depth : Nat} {id : DeclId} {l : List DeclId}
    (hl : List.IsChain s.NestedIn (id :: l)) (hdepth : s.size ≤ depth + l.length) :
    s.declLines layout (depth + 1) id = s.declLines layout depth id := by
  induction depth generalizing id l with
  | zero =>
    have hid : ¬id < s.size := fun hid => by
      have hle := length_le_of_nesting h hid hl
      rw [List.length_cons] at hle
      omega
    have hnone : s.decls[id]? = none := List.getElem?_eq_none (not_lt.1 hid)
    simp [declLines, hnone]
  | succ depth ih =>
    cases hd : s.decls[id]? with
    | none => simp [declLines, hd]
    | some d =>
      cases hbody : d.body with
      | message m =>
        have hnested : m.nested.flatMap (s.declLines layout (depth + 1)) = m.nested.flatMap (s.declLines layout depth) := by
          refine List.flatMap_congr fun c hc => ih (l := id :: l) (List.isChain_cons_cons.2 ⟨?_, hl⟩) ?_
          · rwa [NestedIn, nestedIn_of_message hd hbody]
          · rw [List.length_cons]
            omega
        rw [declLines_of_message hd _ hbody, declLines_of_message hd _ hbody, hnested]
      | enum e => rw [declLines_of_enum hd _ hbody, declLines_of_enum hd _ hbody]
      | service service => rw [declLines_of_service hd _ hbody, declLines_of_service hd _ hbody]

/-- The lines of a message with those of all that is nested in it, which the depth does not cut short. -/
theorem declLines_message (h : WellFounded s.NestedIn) {id : DeclId} {d : Declaration} {m : Message}
    (hd : s.decls[id]? = some d) (hbody : d.body = .message m) :
    s.declLines layout s.size id = layout.braced ("message " ++ d.name)
      (s.ownLines layout id d m ++ m.nested.flatMap (s.declLines layout s.size)) := by
  obtain ⟨n, hn⟩ := exists_size_eq hd
  have hnested : m.nested.flatMap (s.declLines layout (n + 1)) = m.nested.flatMap (s.declLines layout n) := by
    refine List.flatMap_congr fun c hc => declLines_succ h (l := [id]) (List.isChain_pair.2 ?_) ?_
    · rwa [NestedIn, nestedIn_of_message hd hbody]
    · rw [hn, List.length_singleton]
  rw [hn, hnested, declLines_of_message hd n hbody]

end Depth

/-! ## What is drawn -/

section Drawn
variable {s : Schema} {layout : Layout}

/-- The pen writes the lines of declarations from where it stands, and stays at its level. -/
theorem Draws.eq_lines (h : WellFounded s.NestedIn) {ids : List DeclId} {p q : Pen} (hdraws : s.Draws layout ids p q) :
    q = p.lines layout (ids.flatMap (s.declLines layout s.size)) := by
  induction hdraws with
  | nil => rfl
  | @message id rest d m p q r hd hbody _ _ ihnested ihrest =>
    rw [ihrest, ihnested, drawOwn_eq, ← Pen.lines_append, Pen.closeBlock_lines_openBlock, ← declLines_message h hd hbody,
      List.flatMap_cons, Pen.lines_append]
  | @enum id rest d e p r hd hbody _ ihrest =>
    obtain ⟨n, hn⟩ := exists_size_eq hd
    rw [ihrest, drawEnum_eq, ← declLines_of_enum hd n hbody, ← hn, List.flatMap_cons, Pen.lines_append]
  | @service id rest d service p r hd hbody _ ihrest =>
    obtain ⟨n, hn⟩ := exists_size_eq hd
    rw [ihrest, drawService_eq, ← declLines_of_service hd n hbody, ← hn, List.flatMap_cons, Pen.lines_append]

theorem Draws.append {ids ids' : List DeclId} {p q r : Pen} (h : s.Draws layout ids p q)
    (h' : s.Draws layout ids' q r) : s.Draws layout (ids ++ ids') p r := by
  induction h with
  | nil => exact h'
  | message hd hbody hnested _ _ ih => exact .message hd hbody hnested (ih h')
  | enum hd hbody _ ih => exact .enum hd hbody (ih h')
  | service hd hbody _ ih => exact .service hd hbody (ih h')

/-- Declarations can be drawn in a row if each of them can. -/
theorem exists_draws_of_each {ids : List DeclId} (h : ∀ id ∈ ids, ∀ p, ∃ q, s.Draws layout [id] p q) (p : Pen) :
    ∃ q, s.Draws layout ids p q := by
  induction ids generalizing p with
  | nil => exact ⟨p, .nil p⟩
  | cons id ids ih =>
    obtain ⟨q, hq⟩ := h id List.mem_cons_self p
    obtain ⟨r, hr⟩ := ih (fun x hx => h x (List.mem_cons_of_mem id hx)) q
    exact ⟨r, hq.append hr⟩

/-- Where nesting ends, drawing comes to an end. -/
theorem Grounded.exists_draws (h : s.Grounded) {id : DeclId} (hid : id < s.size) (p : Pen) :
    ∃ q, s.Draws layout [id] p q := by
  induction id using h.nesting_ends.induction generalizing p with
  | _ id ih =>
    obtain ⟨d, hd⟩ : ∃ d, s.decls[id]? = some d := ⟨_, List.getElem?_eq_getElem hid⟩
    cases hbody : d.body with
    | message m =>
      have heach : ∀ c ∈ m.nested, ∀ p, ∃ q, s.Draws layout [c] p q := fun c hc => by
        have hin : s.NestedIn c id := by rwa [NestedIn, nestedIn_of_message hd hbody]
        exact ih c hin (h.nested_lt c id hin)
      obtain ⟨q, hq⟩ := exists_draws_of_each heach (s.drawOwn layout id d m p)
      exact ⟨_, .message hd hbody hq (.nil _)⟩
    | enum e => exact ⟨_, .enum hd hbody (.nil _)⟩
    | service service => exact ⟨_, .service hd hbody (.nil _)⟩

theorem Grounded.draws_iff (h : s.Grounded) {id : DeclId} (hid : id < s.size) {p q : Pen} :
    s.Draws layout [id] p q ↔ q = p.lines layout (s.declLines layout s.size id) := by
  have hone : ∀ r, s.Draws layout [id] p r → r = p.lines layout (s.declLines layout s.size id) := fun r hr => by
    simpa using hr.eq_lines h.nesting_ends
  refine ⟨hone q, ?_⟩
  rintro rfl
  obtain ⟨r, hr⟩ := h.exists_draws hid p
  rwa [hone r hr] at hr

/-- Declarations apart from each other: what the pen writes at the outermost level is their text, and it stays there. -/
theorem Grounded.drawsApart_iff (h : s.Grounded) {ids : List DeclId} (hids : ∀ id ∈ ids, id < s.size) {before : String}
    {q : Pen} :
    s.DrawsApart layout ids ⟨0, before⟩ q ↔
      q = ⟨0, before ++ textOf (ids.flatMap fun id => "" :: s.declLines layout s.size id)⟩ := by
  induction ids generalizing before with
  | nil =>
    constructor
    · rintro ⟨⟩
      simp [textOf]
    · rintro rfl
      have hnil : s.DrawsApart layout [] ⟨0, before⟩ ⟨0, before⟩ := .nil _
      simpa [textOf] using hnil
  | cons id ids ih =>
    simp only [List.mem_cons, forall_eq_or_imp] at hids
    have hdraw : ∀ r, s.Draws layout [id] (Pen.gap ⟨0, before⟩) r ↔
        r = ⟨0, before ++ textOf ("" :: s.declLines layout s.size id)⟩ := fun r => by
      rw [h.draws_iff hids.1, Pen.gap, Pen.lines_outermost]
      simp [textOf, String.append_assoc]
    have hsplit : before ++ textOf ((id :: ids).flatMap fun id => "" :: s.declLines layout s.size id) =
        before ++ textOf ("" :: s.declLines layout s.size id) ++
          textOf (ids.flatMap fun id => "" :: s.declLines layout s.size id) := by
      simp [textOf, String.append_assoc]
    rw [hsplit, ← ih hids.2]
    constructor
    · rintro (_ | ⟨hid, hrest⟩)
      rwa [(hdraw _).1 hid] at hrest
    · intro hrest
      exact .cons ((hdraw _).2 rfl) hrest

end Drawn

end ProtoRecovery.Schema
