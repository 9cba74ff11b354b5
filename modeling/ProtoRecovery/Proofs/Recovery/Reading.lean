import ProtoRecovery.Proofs.Recovery.Denotation
import ProtoRecovery.Proofs.Recovery.Remarks
/-!
# Which properties of a class count

The properties of a class and the constants in it are read side by side. `accepted` tells from the properties alone
which of them count: those that are to be read, but for one that tells whether the field before it is set. `Walk` is how
they are gone through, with nothing left to find out: every question has the answer that it has at the end.
-/

namespace ProtoRecovery.Recovery

open Schema (DeclId FieldType Message Choice)

variable {ρ : Type}

/-! ## Which properties count -/

section Reading
variable (env : Setting ρ) (s : State ρ)

/-- The type of a property. -/
def propertyType (p : Catalog.Property ρ) : ρ := s.answer (env.catalog.typeOf p)

/-- Whether a property has a getter that is not virtual, and is marked as generated or need not be. -/
def isRead (p : Catalog.Property ρ) : Bool :=
  p.getter.any (!·.isVirtual) &&
    (env.options.allProperties ||
      match s.answer (env.catalog.readAttributes p.attributes).run with
      | .ok attributes => hasAttribute env.catalog attributes nonUserCodeAttribute
      | .error _ => false)

/-- Whether a property can tell whether the field before it is set. -/
def tellsPresence (p : Catalog.Property ρ) : Bool :=
  p.setter.isNone && env.catalog.fullName (propertyType env s p) == presenceType

/-- Whether a property tells which field of a choice of the class is set. -/
def tellsCase [DecidableEq ρ] (t : ρ) (p : Catalog.Property ρ) : Bool :=
  s.answer (isCaseEnum env.catalog t (propertyType env s p))

/-- The properties that count. `matched` tells whether the one before them was matched to a constant, and `left` is how
many constants there are for them. -/
def accepted [DecidableEq ρ] (t : ρ) : (matched : Bool) → (left : Nat) → List (Catalog.Property ρ) →
    List (Catalog.Property ρ)
  | _, _, [] => []
  | matched, left, p :: rest =>
    if matched && tellsPresence env s p then accepted t false left rest
    else if !isRead env s p then accepted t false left rest
    else if tellsCase env s t p then p :: accepted t false left rest
    else p :: accepted t (decide (0 < left)) (left - 1) rest

/-- The constants of a class that fields may have their numbers from. -/
def constantsOf (t : ρ) : List (Catalog.Field ρ) :=
  (env.catalog.fields t).filter fun f => f.isPublic && f.isStatic && f.isLiteral

/-- The properties of a class that count. -/
def acceptedOf [DecidableEq ρ] (t : ρ) : List (Catalog.Property ρ) :=
  accepted env s t false (constantsOf env t).length
    ((s.answer (env.catalog.properties t)).filter fun p => !p.isInherited)

/-- Those of them that stand for choices. -/
def casesOf [DecidableEq ρ] (t : ρ) : List (Catalog.Property ρ) := (acceptedOf env s t).filter (tellsCase env s t)

/-- Those of them that stand for fields. -/
def valuesOf [DecidableEq ρ] (t : ρ) : List (Catalog.Property ρ) :=
  (acceptedOf env s t).filter fun p => !tellsCase env s t p

end Reading

/-- The number that a constant gives. -/
def numberOf? (f : Catalog.Field ρ) : Option Int := f.constant.bind (·.int32?)

/-- A field has the name and the type of a property, and a number. -/
structure IsFieldOf (env : Setting ρ) (s : State ρ) (pair : Catalog.Property ρ × Int) (f : Schema.Field) : Prop where
  name : f.name = Identifier.fieldName env.names pair.1.name
  number : f.number = pair.2
  type : Denotes env s (propertyType env s pair.1) f.type

/-- That there is no constant left for a property. -/
def missingRemark (type : String) (p : Catalog.Property ρ) : Diagnostic := ⟨type, p.name, .missingNumber⟩

/-- That the number for a property is another's. -/
def duplicateRemark (type : String) (pair : Catalog.Property ρ × Int) : Diagnostic :=
  ⟨type, pair.1.name, .duplicateNumber pair.2⟩

/-! ## Going through the properties -/

/-- What the properties so far have come to: the message as it is, and what has been said of the class. -/
structure Progress where
  draft : Message
  remarks : List Diagnostic

/-- How the properties of a class are gone through, told by what is known at the end. -/
inductive Walk [DecidableEq ρ] (env : Setting ρ) (s : State ρ) (t : ρ) : (matched : Bool) → List (Catalog.Field ρ) →
    List (Catalog.Property ρ) → Progress → Progress → Prop
  | finished {matched : Bool} {constants : List (Catalog.Field ρ)} {x : Progress} :
      Walk env s t matched constants [] x x
  | companion {constants : List (Catalog.Field ρ)} {p : Catalog.Property ρ} {rest : List (Catalog.Property ρ)}
      {x x' : Progress} (tells : tellsPresence env s p = true) (next : Walk env s t false constants rest x x') :
      Walk env s t true constants (p :: rest) x x'
  | passed {matched : Bool} {constants : List (Catalog.Field ρ)} {p : Catalog.Property ρ}
      {rest : List (Catalog.Property ρ)} {x x' : Progress} (own : (matched && tellsPresence env s p) = false)
      (unread : isRead env s p = false) (next : Walk env s t false constants rest x x') :
      Walk env s t matched constants (p :: rest) x x'
  | choice {matched : Bool} {constants : List (Catalog.Field ρ)} {p : Catalog.Property ρ}
      {rest : List (Catalog.Property ρ)} {m : Message} {r : List Diagnostic} {x' : Progress}
      (own : (matched && tellsPresence env s p) = false) (read : isRead env s p = true)
      (case : tellsCase env s t p = true)
      (next : Walk env s t false constants rest
        ⟨{ m with choices := m.choices ++ [choiceOf env p (propertyType env s p)] }, r⟩ x') :
      Walk env s t matched constants (p :: rest) ⟨m, r⟩ x'
  | missing {matched : Bool} {p : Catalog.Property ρ} {rest : List (Catalog.Property ρ)} {m : Message}
      {r : List Diagnostic} {x' : Progress} (own : (matched && tellsPresence env s p) = false)
      (read : isRead env s p = true) (value : tellsCase env s t p = false)
      (next : Walk env s t false [] rest ⟨m, r ++ [missingRemark (env.catalog.fullName t) p]⟩ x') :
      Walk env s t matched [] (p :: rest) ⟨m, r⟩ x'
  | duplicate {matched : Bool} {k : Catalog.Field ρ} {constants : List (Catalog.Field ρ)} {p : Catalog.Property ρ}
      {rest : List (Catalog.Property ρ)} {m : Message} {r : List Diagnostic} {x' : Progress} {n : Int}
      (own : (matched && tellsPresence env s p) = false) (read : isRead env s p = true)
      (value : tellsCase env s t p = false) (number : numberOf? k = some n) (taken : (m.field? n).isSome = true)
      (next : Walk env s t true constants rest
        ⟨m, r ++ [duplicateRemark (env.catalog.fullName t) (p, n)]⟩ x') :
      Walk env s t matched (k :: constants) (p :: rest) ⟨m, r⟩ x'
  | field {matched : Bool} {k : Catalog.Field ρ} {constants : List (Catalog.Field ρ)} {p : Catalog.Property ρ}
      {rest : List (Catalog.Property ρ)} {m : Message} {r : List Diagnostic} {x' : Progress} {n : Int}
      {f : Schema.Field} (own : (matched && tellsPresence env s p) = false) (read : isRead env s p = true)
      (value : tellsCase env s t p = false) (number : numberOf? k = some n) (fresh : ¬(m.field? n).isSome = true)
      (isField : IsFieldOf env s (p, n) f) (next : Walk env s t true constants rest ⟨m.insert f, r⟩ x') :
      Walk env s t matched (k :: constants) (p :: rest) ⟨m, r⟩ x'

section Walk
variable {env : Setting ρ} {s₀ s₁ s : State ρ} {t : ρ} {id : DeclId} {p : Catalog.Property ρ}

theorem isRead_of_gives {o : Option (List (Catalog.Attribute ρ))} (h : Gives (search (markedAttributes? env p)) s₀ o s₁)
    (hlater : Later s₁ s) : Later s₀ s ∧ isRead env s p = o.isSome := by
  have h := gives_markedAttributes.1 h
  unfold isRead
  split at h
  · rename_i hgetter
    obtain ⟨rfl, rfl⟩ := h
    exact ⟨hlater, by simp [hgetter]⟩
  · rename_i getter hgetter
    split at h
    · rename_i hvirtual
      obtain ⟨rfl, rfl⟩ := h
      exact ⟨hlater, by simp [hgetter, hvirtual]⟩
    · rename_i hvirtual
      obtain ⟨attributes, hread, rfl, rfl⟩ := h
      obtain ⟨hs, hsame⟩ := hlater.of_after (lasts_readAttributes _)
      refine ⟨hs, ?_⟩
      rw [hsame, hread, hgetter]
      cases env.options.allProperties || hasAttribute env.catalog attributes nonUserCodeAttribute with
      | true => simp [hvirtual]
      | false => simp [hvirtual]

theorem answer_hasPresence {rest : List (Catalog.Property ρ)} (h : p ∈ rest.head?) :
    s.answer (hasPresence env.catalog rest) = tellsPresence env s p := by
  cases rest with
  | nil => cases h
  | cons next rest =>
    obtain rfl : next = p := Option.some.inj h
    unfold hasPresence tellsPresence
    dsimp only
    cases next.setter with
    | none => rfl
    | some setter => rfl

variable [DecidableEq ρ]

/-- What a property tells, in terms of what is known at the end. -/
inductive TellsAt (env : Setting ρ) (s : State ρ) (t : ρ) (p : Catalog.Property ρ) (rest : List (Catalog.Property ρ)) :
    List (Catalog.Field ρ) → Told ρ → Prop
  | nothing {constants : List (Catalog.Field ρ)} (unread : isRead env s p = false) :
      TellsAt env s t p rest constants .nothing
  | choice {constants : List (Catalog.Field ρ)} (read : isRead env s p = true) (case : tellsCase env s t p = true) :
      TellsAt env s t p rest constants (.choice (choiceOf env p (propertyType env s p)))
  | unnumbered (read : isRead env s p = true) (value : tellsCase env s t p = false) :
      TellsAt env s t p rest [] .unnumbered
  | field {k : Catalog.Field ρ} {constants : List (Catalog.Field ρ)} {attributes : List (Catalog.Attribute ρ)} {n : Int}
      {isOptional : Bool} (read : isRead env s p = true) (value : tellsCase env s t p = false)
      (number : numberOf? k = some n) (presence : ∀ q ∈ rest.head?, isOptional = tellsPresence env s q) :
      TellsAt env s t p rest (k :: constants) (.field (propertyType env s p) attributes n isOptional)

/-- `Later` comes back from what follows the question, one answer after another, to the state before it. -/
theorem tellsAt_of_later {constants : List (Catalog.Field ρ)} {rest : List (Catalog.Property ρ)} {told : Told ρ}
    (h : Gives (search (tellProperty env t constants p rest)) s₀ told s₁) (hlater : Later s₁ s) :
    Later s₀ s ∧ TellsAt env s t p rest constants told := by
  obtain ⟨o, s₂, ho, h⟩ := gives_tellProperty.1 h
  cases o with
  | none =>
    obtain ⟨rfl, rfl⟩ := h
    obtain ⟨hs, hread⟩ := isRead_of_gives ho hlater
    exact ⟨hs, .nothing hread⟩
  | some attributes =>
    have hback : ∀ {b : Bool}, Later ((s₂.after (env.catalog.typeOf p)).after
        (isCaseEnum env.catalog t (s₂.answer (env.catalog.typeOf p)))) s →
        (s₂.after (env.catalog.typeOf p)).answer (isCaseEnum env.catalog t (s₂.answer (env.catalog.typeOf p))) = b →
        Later s₀ s ∧ isRead env s p = true ∧ s₂.answer (env.catalog.typeOf p) = propertyType env s p ∧
          tellsCase env s t p = b := by
      intro b hlater hb
      obtain ⟨hlater, hcase⟩ := hlater.of_after (lasts_isCaseEnum _ _)
      obtain ⟨hlater, htype⟩ := hlater.of_after (lasts_resolve p.type)
      obtain ⟨hlater, hread⟩ := isRead_of_gives ho hlater
      have htype : propertyType env s p = s₂.answer (env.catalog.typeOf p) := htype
      exact ⟨hlater, hread, htype.symm, by rw [tellsCase, htype, hcase, hb]⟩
    dsimp only at h
    split at h
    · rename_i hcase
      obtain ⟨rfl, rfl⟩ := h
      obtain ⟨hs, hread, htype, htells⟩ := hback hlater hcase
      rw [htype]
      exact ⟨hs, .choice hread htells⟩
    · rename_i hcase
      have hcase := Bool.eq_false_iff.2 hcase
      cases constants with
      | nil =>
        obtain ⟨rfl, rfl⟩ := h
        obtain ⟨hs, hread, -, htells⟩ := hback hlater hcase
        exact ⟨hs, .unnumbered hread htells⟩
      | cons k constants =>
        obtain ⟨number, hnumber, rfl, rfl⟩ := h
        obtain ⟨hlater, hpresence⟩ := hlater.of_after (lasts_hasPresence rest)
        obtain ⟨hs, hread, htype, htells⟩ := hback hlater hcase
        rw [htype] at hpresence ⊢
        exact ⟨hs, .field hread htells hnumber fun q hq => by rw [← hpresence, answer_hasPresence hq]⟩

/-- Going through properties from one state to another is a walk, told by what is known later. Whether the next property is
passed over is settled before it is reached, by a question that has the same answer at the end. -/
def Walks (env : Setting ρ) (s : State ρ) (t : ρ) (properties : List (Catalog.Property ρ)) (w : InProgress ρ)
    (s₀ : State ρ) (w' : InProgress ρ) (s₁ : State ρ) : Prop :=
  s₀.find? (env.catalog.fullName t) ≠ none → Later s₁ s →
    Later s₀ s ∧ ∀ matched, (∀ p ∈ properties.head?, w.skip = (matched && tellsPresence env s p)) →
      Walk env s t matched w.numbers properties ⟨w.message, s₀.remarksOn (env.catalog.fullName t)⟩
        ⟨w'.message, s₁.remarksOn (env.catalog.fullName t)⟩

/-- What a property tells is added, and the walk goes on from there. -/
theorem walks_told (hM : Roams env.catalog .growing) {depth : Nat} {rest : List (Catalog.Property ρ)}
    {w w₁ w' : InProgress ρ} {s₂ s₃ : State ρ} {told : Told ρ} (hskip : w.skip = false)
    (htold : Gives (search (tellProperty env t w.numbers p rest)) s₀ told s₂)
    (hadd : Gives (addTold env (callsWithin env depth) t id p w told) s₂ w₁ s₃) (hrest : Walks env s t rest w₁ s₃ w' s₁) :
    Walks env s t (p :: rest) w s₀ w' s₁ := by
  intro hnoted hlater
  obtain ⟨m, numbers, skip⟩ := w
  obtain rfl : skip = false := hskip
  obtain ⟨-, rfl⟩ := gives_search.1 htold
  obtain ⟨hnoted, hremarks⟩ := silentOn_after (tellProperty env t numbers p rest).run hnoted
  rw [← hremarks]
  have hadd := gives_addTold.1 hadd
  cases told with
  | nothing =>
    obtain ⟨rfl, rfl⟩ := hadd
    obtain ⟨hs, hwalk⟩ := hrest hnoted hlater
    obtain ⟨hback, htells⟩ := tellsAt_of_later htold hs
    cases htells with
    | nothing unread =>
      exact ⟨hback, fun _ hmatched => .passed (hmatched p rfl).symm unread (hwalk false fun _ _ => rfl)⟩
  | choice c =>
    obtain ⟨rfl, rfl⟩ := hadd
    obtain ⟨hs, hwalk⟩ := hrest hnoted hlater
    obtain ⟨hback, htells⟩ := tellsAt_of_later htold hs
    cases htells with
    | choice read case =>
      exact ⟨hback, fun _ hmatched => .choice (hmatched p rfl).symm read case (hwalk false fun _ _ => rfl)⟩
  | unnumbered =>
    obtain ⟨rfl, rfl⟩ := hadd
    obtain ⟨hs, hwalk⟩ := hrest hnoted hlater
    obtain ⟨hback, htells⟩ := tellsAt_of_later htold hs.of_diagnosed
    rw [remarksOn_diagnosed] at hwalk
    cases htells with
    | unnumbered read value =>
      exact ⟨hback, fun _ hmatched => .missing (hmatched p rfl).symm read value (hwalk false fun _ _ => rfl)⟩
  | field type attributes number isOptional =>
    dsimp only at hadd
    split at hadd
    · rename_i htaken
      obtain ⟨rfl, rfl⟩ := hadd
      obtain ⟨hs, hwalk⟩ := hrest hnoted hlater
      obtain ⟨hback, htells⟩ := tellsAt_of_later htold hs.of_diagnosed
      rw [remarksOn_diagnosed] at hwalk
      cases htells with
      | field read value hnumber hpresence =>
        exact ⟨hback, fun _ hmatched => .duplicate (hmatched p rfl).symm read value hnumber htaken (hwalk true hpresence)⟩
    · rename_i hfresh
      obtain ⟨found, hfound, rfl⟩ := hadd
      obtain ⟨hnoted, hremarks⟩ := (discreet_callsWithin env depth).fieldType hfound hnoted
      obtain ⟨hs, hwalk⟩ := hrest hnoted hlater
      obtain ⟨hs, hdenotes⟩ := denotes_callsWithin hM depth hfound hs
      obtain ⟨hback, htells⟩ := tellsAt_of_later htold hs
      rw [hremarks] at hwalk
      cases htells with
      | field read value hnumber hpresence =>
        exact ⟨hback, fun _ hmatched =>
          .field (hmatched p rfl).symm read value hnumber hfresh ⟨rfl, rfl, hdenotes⟩ (hwalk true hpresence)⟩

theorem walks_addProperties (hM : Roams env.catalog .growing) {depth : Nat} {properties : List (Catalog.Property ρ)}
    {w w' : InProgress ρ} (h : Gives (addProperties env (callsWithin env depth) t id properties w) s₀ w' s₁) :
    Walks env s t properties w s₀ w' s₁ := by
  refine gives_stepThrough (J := Walks env s t) (fun _ _ _ hlater => ⟨hlater, fun _ _ => .finished⟩) ?_ h
  intro p rest w s₀ w₁ s₂ w' s₁ hstep hrest
  have hstep := gives_addProperty.1 hstep
  split at hstep
  · rename_i hskip
    obtain ⟨rfl, rfl⟩ := hstep
    intro hnoted hlater
    obtain ⟨hs, hwalk⟩ := hrest hnoted hlater
    refine ⟨hs, fun matched hmatched => ?_⟩
    obtain ⟨rfl, htells⟩ : matched = true ∧ tellsPresence env s p = true := by
      simpa [hskip] using (hmatched p rfl).symm
    exact .companion htells (hwalk false fun _ _ => rfl)
  · rename_i hskip
    obtain ⟨told, s₃, htold, hadd⟩ := hstep
    exact walks_told hM (Bool.eq_false_iff.2 hskip) htold hadd hrest

end Walk

/-! ## What a walk accepts -/

section Accepted
variable [DecidableEq ρ] {env : Setting ρ} {s : State ρ} {t : ρ} {p : Catalog.Property ρ}
  {rest : List (Catalog.Property ρ)} {matched : Bool} {left : Nat}

theorem accepted_companion (h : tellsPresence env s p = true) :
    accepted env s t true left (p :: rest) = accepted env s t false left rest := by
  simp [accepted, h]

section Own
variable (own : (matched && tellsPresence env s p) = false)
include own

theorem accepted_passed (unread : isRead env s p = false) :
    accepted env s t matched left (p :: rest) = accepted env s t false left rest := by
  rw [accepted, own, unread]
  rfl

theorem accepted_choice (read : isRead env s p = true) (case : tellsCase env s t p = true) :
    accepted env s t matched left (p :: rest) = p :: accepted env s t false left rest := by
  rw [accepted, own, read, case]
  rfl

theorem accepted_value (read : isRead env s p = true) (value : tellsCase env s t p = false) :
    accepted env s t matched left (p :: rest) = p :: accepted env s t (decide (0 < left)) (left - 1) rest := by
  rw [accepted, own, read, value]
  rfl

end Own

variable {constants : List (Catalog.Field ρ)} {properties : List (Catalog.Property ρ)} {x x' : Progress}

theorem Walk.choices (h : Walk env s t matched constants properties x x') :
    x'.draft.choices = x.draft.choices ++
      ((accepted env s t matched constants.length properties).filter (tellsCase env s t)).map
        fun p => choiceOf env p (propertyType env s p) := by
  induction h with
  | finished => simp [accepted]
  | companion tells _ ih => rw [ih, accepted_companion tells]
  | passed own unread _ ih => rw [ih, accepted_passed own unread]
  | choice own read case _ ih => simp [ih, accepted_choice own read case, case]
  | missing own read value _ ih => simpa [accepted_value own read value, value] using ih
  | duplicate own read value _ _ _ ih => simpa [accepted_value own read value, value] using ih
  | field own read value _ _ _ _ ih => simpa [accepted_value own read value, value, Message.insert] using ih

end Accepted

end ProtoRecovery.Recovery
