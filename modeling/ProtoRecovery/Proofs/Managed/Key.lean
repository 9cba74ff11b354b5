import ProtoRecovery.Proofs.Managed.Pool
/-!
# References that share no key

A key spells a reference out, with its arguments in brackets. Where no name has a bracket in it the key tells
the whole reference. Among references that share no key every one stands for itself, however the pool grows.
-/

namespace ProtoRecovery.Managed

open Catalog (Pool Look)

/-! ## Names without brackets -/

/-- Whether a character is one that keys put around arguments. -/
def isBracket (c : Char) : Bool := c = '[' || c = ']'

/-- No bracket in a text. -/
def Unbracketed (text : String) : Prop := ∀ c ∈ text.toList, isBracket c = false

instance (text : String) : Decidable (Unbracketed text) := List.decidableBAll ..

namespace TypeRef

/-- No bracket in any name of a reference. -/
inductive Spelled : TypeRef → Prop
  | mk {name : String} {args : List TypeRef} (hname : Unbracketed name) (hargs : ∀ r ∈ args, Spelled r) :
    Spelled ⟨name, args⟩

theorem toList_key_cons (name : String) (arg : TypeRef) (rest : List TypeRef) :
    (key ⟨name, arg :: rest⟩).toList =
      name.toList ++ '[' :: '[' :: (arg.key.toList ++ ']' :: ((keyRest rest).toList ++ [']'])) := by
  simp [key, String.toList_append]

theorem toList_keyRest_cons (arg : TypeRef) (rest : List TypeRef) :
    (keyRest (arg :: rest)).toList = ',' :: '[' :: (arg.key.toList ++ ']' :: (keyRest rest).toList) := by
  simp [keyRest, String.toList_append]

end TypeRef

/-- What may follow a key inside another: nothing, or the bracket that ends an argument. -/
def Closes (x : List Char) : Prop := x = [] ∨ ∃ y, x = ']' :: y

/-- What may follow a name. -/
def Breaks (x : List Char) : Prop := x = [] ∨ ∃ c y, x = c :: y ∧ isBracket c = true

theorem Closes.breaks {x : List Char} : Closes x → Breaks x
  | .inl h => .inl h
  | .inr ⟨y, h⟩ => .inr ⟨']', y, h, rfl⟩

theorem takeWhile_append_of_breaks {cs x : List Char} (hc : ∀ c ∈ cs, isBracket c = false) (hx : Breaks x) :
    (cs ++ x).takeWhile (!isBracket ·) = cs := by
  rw [List.takeWhile_append_of_pos fun c h => by simp [hc c h]]
  rcases hx with rfl | ⟨c, y, rfl, h⟩
  · simp
  · simp [h]

/-- A name ends where the first bracket stands. -/
theorem name_append_inj {n k : String} {x y : List Char} (hn : Unbracketed n) (hk : Unbracketed k)
    (hx : Breaks x) (hy : Breaks y) (h : n.toList ++ x = k.toList ++ y) : n = k ∧ x = y := by
  have heq : n.toList = k.toList := by
    rw [← takeWhile_append_of_breaks hn hx, h, takeWhile_append_of_breaks hk hy]
  refine ⟨String.toList_inj.1 heq, ?_⟩
  rw [heq] at h
  exact List.append_cancel_left h

mutual

/-- Where no name has a bracket in it, a key ends where it must. -/
theorem TypeRef.key_append_inj : {r t : TypeRef} → r.Spelled → t.Spelled → {x y : List Char} →
    Closes x → Closes y → r.key.toList ++ x = t.key.toList ++ y → r = t ∧ x = y
  | ⟨n, []⟩, ⟨k, []⟩, .mk hn _, .mk hk _, _, _, hx, hy, h => by
    obtain ⟨rfl, rfl⟩ := name_append_inj hn hk hx.breaks hy.breaks h
    exact ⟨rfl, rfl⟩
  | ⟨n, []⟩, ⟨k, arg :: rest⟩, .mk hn _, .mk hk _, x, y, hx, _, h => by
    rw [toList_key_cons, List.append_assoc] at h
    obtain ⟨-, rfl⟩ := name_append_inj hn hk hx.breaks (.inr ⟨_, _, rfl, rfl⟩) h
    -- One key ends with its name where the other goes on with a bracket that opens; nothing such follows a key.
    rcases hx with h | ⟨_, h⟩ <;> cases h
  | ⟨n, arg :: rest⟩, ⟨k, []⟩, .mk hn _, .mk hk _, x, y, _, hy, h => by
    rw [toList_key_cons, List.append_assoc] at h
    obtain ⟨-, rfl⟩ := name_append_inj hn hk (.inr ⟨_, _, rfl, rfl⟩) hy.breaks h
    rcases hy with h | ⟨_, h⟩ <;> cases h
  | ⟨n, a :: as⟩, ⟨k, b :: bs⟩, .mk hn ha, .mk hk hb, x, y, hx, hy, h => by
    simp only [toList_key_cons, List.append_assoc, List.cons_append, List.nil_append] at h
    -- Names are the same, then the first arguments, then the others.
    obtain ⟨rfl, hargs⟩ := name_append_inj hn hk (.inr ⟨_, _, rfl, rfl⟩) (.inr ⟨_, _, rfl, rfl⟩) h
    simp only [List.cons.injEq, true_and] at hargs
    obtain ⟨rfl, hrest⟩ :=
      key_append_inj (ha a (by simp)) (hb b (by simp)) (.inr ⟨_, rfl⟩) (.inr ⟨_, rfl⟩) hargs
    obtain ⟨rfl, hend⟩ := keyRest_append_inj (fun r hr => ha r (List.mem_cons_of_mem _ hr))
      (fun r hr => hb r (List.mem_cons_of_mem _ hr)) (List.cons.inj hrest).2
    exact ⟨rfl, hend⟩

/-- Further arguments end at the bracket that ends the whole. -/
theorem TypeRef.keyRest_append_inj : {rs ts : List TypeRef} → (∀ r ∈ rs, r.Spelled) → (∀ t ∈ ts, t.Spelled) →
    {x y : List Char} → (keyRest rs).toList ++ ']' :: x = (keyRest ts).toList ++ ']' :: y → rs = ts ∧ x = y
  | [], [], _, _, _, _, h => ⟨rfl, by simpa [keyRest] using h⟩
  | [], b :: bs, _, _, _, _, h => by
    rw [toList_keyRest_cons] at h
    simp [keyRest] at h
  | a :: as, [], _, _, _, _, h => by
    rw [toList_keyRest_cons] at h
    simp [keyRest] at h
  | a :: as, b :: bs, ha, hb, x, y, h => by
    rw [toList_keyRest_cons, toList_keyRest_cons] at h
    simp only [List.cons_append, List.append_assoc, List.cons.injEq, true_and] at h
    obtain ⟨rfl, hrest⟩ :=
      key_append_inj (ha a (by simp)) (hb b (by simp)) (.inr ⟨_, rfl⟩) (.inr ⟨_, rfl⟩) h
    obtain ⟨rfl, hend⟩ := keyRest_append_inj (fun r hr => ha r (List.mem_cons_of_mem _ hr))
      (fun r hr => hb r (List.mem_cons_of_mem _ hr)) (List.cons.inj hrest).2
    exact ⟨rfl, hend⟩

end

/-- A key tells the reference it belongs to. -/
theorem TypeRef.Spelled.eq_of_key {r t : TypeRef} (hr : r.Spelled) (ht : t.Spelled) (h : r.key = t.key) :
    r = t :=
  (key_append_inj hr ht (.inl rfl) (.inl rfl) (by rw [h])).1

/-- One reference is in another, or is that other. -/
inductive TypeRef.Within (r : TypeRef) : TypeRef → Prop
  | refl : Within r r
  | arg {a t : TypeRef} (h : a ∈ t.args) (hr : Within r a) : Within r t

theorem TypeRef.Within.trans {x r t : TypeRef} (h : x.Within r) (hr : r.Within t) : x.Within t := by
  induction hr with
  | refl => exact h
  | arg ha _ ih => exact .arg ha ih

theorem TypeRef.Spelled.within {x r : TypeRef} (hr : r.Spelled) (h : x.Within r) : x.Spelled := by
  induction h with
  | refl => exact hr
  | arg ha _ ih =>
    cases hr with
    | mk _ hargs => exact ih (hargs _ ha)

/-! ## All that is in a reference -/

namespace TypeRef

mutual

/-- A reference and all that is in it. -/
def parts : TypeRef → List TypeRef
  | ⟨name, args⟩ => ⟨name, args⟩ :: partsAll args

/-- All that is in several references. -/
def partsAll : List TypeRef → List TypeRef
  | [] => []
  | r :: rest => r.parts ++ partsAll rest

end

theorem mem_partsAll {x r : TypeRef} {rs : List TypeRef} (hr : r ∈ rs) (hx : x ∈ r.parts) : x ∈ partsAll rs := by
  induction rs with
  | nil => simp at hr
  | cons y rest ih =>
    rw [partsAll, List.mem_append]
    rcases List.mem_cons.1 hr with rfl | hr
    · exact .inl hx
    · exact .inr (ih hr)

theorem mem_parts {x r : TypeRef} (h : x.Within r) : x ∈ r.parts := by
  induction h with
  | refl =>
    obtain ⟨name, args⟩ := x
    rw [parts]
    exact List.mem_cons_self
  | @arg a t ha _ ih =>
    obtain ⟨name, args⟩ := t
    rw [parts]
    exact List.mem_cons_of_mem _ (mem_partsAll ha ih)

mutual

theorem spelled_of_parts : (r : TypeRef) → (∀ x ∈ r.parts, Unbracketed x.name) → r.Spelled
  | ⟨name, args⟩, h => by
    rw [parts, List.forall_mem_cons] at h
    exact .mk h.1 (spelled_of_partsAll args h.2)

theorem spelled_of_partsAll : (rs : List TypeRef) → (∀ x ∈ partsAll rs, Unbracketed x.name) → ∀ r ∈ rs, r.Spelled
  | [], _ => by simp
  | r :: rest, h => by
    rw [partsAll, List.forall_mem_append] at h
    exact List.forall_mem_cons.2 ⟨spelled_of_parts r h.1, spelled_of_partsAll rest h.2⟩

end

mutual

theorem unbracketed_of_mem_parts : (r : TypeRef) → r.Spelled → ∀ x ∈ r.parts, Unbracketed x.name
  | ⟨name, args⟩, h => by
    obtain ⟨hname, hargs⟩ := h
    rw [parts, List.forall_mem_cons]
    exact ⟨hname, unbracketed_of_mem_partsAll args hargs⟩

theorem unbracketed_of_mem_partsAll : (rs : List TypeRef) → (∀ r ∈ rs, r.Spelled) → ∀ x ∈ partsAll rs, Unbracketed x.name
  | [], _ => by simp [partsAll]
  | r :: rest, h => by
    rw [List.forall_mem_cons] at h
    rw [partsAll, List.forall_mem_append]
    exact ⟨unbracketed_of_mem_parts r h.1, unbracketed_of_mem_partsAll rest h.2⟩

end

instance (r : TypeRef) : Decidable r.Spelled :=
  decidable_of_iff (∀ x ∈ r.parts, Unbracketed x.name) ⟨spelled_of_parts r, unbracketed_of_mem_parts r⟩

end TypeRef

/-! ## References that stand for themselves -/

/-- No two of some references share a key. -/
def Apart (used : TypeRef → Prop) : Prop := ∀ r t, used r → used t → r.key = t.key → r = t

/-- A pool in which some references stand for themselves, if they are there. -/
def Own (used : TypeRef → Prop) (pool : Pool TypeRef) : Prop :=
  ∀ r first, used r → pool.lookup r.key = some first → first = r

variable {α β : Type} {lib : Library} {used : TypeRef → Prop}

theorem own_of_keys {rs : List TypeRef} (h : Apart used) (hrs : ∀ r ∈ rs, used r) :
    Own used (rs.map fun r => (r.key, r)) := by
  intro r first hr hfirst
  obtain ⟨before, after, he, -⟩ := List.lookup_eq_some_iff.1 hfirst
  have hmem : (r.key, first) ∈ rs.map fun r => (r.key, r) := he ▸ by simp
  obtain ⟨t, ht, hpair⟩ := List.mem_map.1 hmem
  obtain ⟨hkey, rfl⟩ := Prod.mk.inj hpair
  exact h t r (hrs t ht) hr hkey

/-- A question that has such an answer from every pool of a kind, and leaves a pool of that kind. -/
def Answers (kind : Pool TypeRef → Prop) (q : Look TypeRef α) (P : α → Prop) : Prop :=
  ∀ pool, kind pool → kind (q.run pool).2 ∧ P (q.run pool).1

section Answers
variable {kind : Pool TypeRef → Prop} {P : α → Prop} {Q : β → Prop}

theorem answers_pure {a : α} (h : P a) : Answers kind (pure a) P := fun _ hp => ⟨hp, h⟩

theorem answers_bind {q : Look TypeRef α} {f : α → Look TypeRef β} (hq : Answers kind q P)
    (hf : ∀ a, P a → Answers kind (f a) Q) : Answers kind (q >>= f) Q := by
  intro pool hp
  obtain ⟨hp, ha⟩ := hq pool hp
  exact hf _ ha _ hp

end Answers

/-- References that stand for themselves in every pool of a kind, and leave a pool of that kind. -/
def Stand (lib : Library) (kind : Pool TypeRef → Prop) (used : TypeRef → Prop) : Prop :=
  ∀ r, used r → Answers kind (lib.catalog.resolve r) (· = r)

section Stand
variable {kind : Pool TypeRef → Prop} (h : Stand lib kind used)
include h

theorem Stand.resolveAll {rs : List TypeRef} (hrs : ∀ r ∈ rs, used r) :
    Answers kind (lib.catalog.resolveAll rs) (· = rs) := by
  induction rs with
  | nil => exact answers_pure rfl
  | cons r rest ih =>
    refine answers_bind (h r (hrs r (by simp))) fun t ht => ?_
    refine answers_bind (ih fun x hx => hrs x (by simp [hx])) fun ts hts => answers_pure ?_
    rw [ht, hts]

theorem Stand.resolveTypes {as : List (Catalog.Attribute TypeRef)} (has : ∀ a ∈ as, used a.type) :
    Answers kind (lib.catalog.resolveTypes as) (· = as) := by
  induction as with
  | nil => exact answers_pure rfl
  | cons a rest ih =>
    refine answers_bind (h a.type (has a (by simp))) fun t ht => ?_
    refine answers_bind (ih fun x hx => has x (by simp [hx])) fun ts hts => answers_pure ?_
    rw [ht, hts]

theorem Stand.readAttributes {as : List (Catalog.Attribute TypeRef)} (has : ∀ a ∈ as, used a.type) :
    Answers kind (lib.catalog.readAttributes (.ok as)).run (· = .ok as) := by
  show Answers kind (Except.ok <$> lib.catalog.resolveTypes as) (· = .ok as)
  intro pool hp
  obtain ⟨hp, has⟩ := h.resolveTypes has pool hp
  exact ⟨hp, congrArg Except.ok has⟩

end Stand

section Apart
variable (h : Apart used)
include h

theorem answers_resolve {r : TypeRef} (hr : used r) : Answers (Own used) (lib.catalog.resolve r) (· = r) := by
  intro pool hp
  cases hfound : pool.lookup r.key with
  | some first =>
    rw [resolve_of_found hfound]
    exact ⟨hp, hp r first hr hfound⟩
  | none =>
    rw [resolve_of_new hfound]
    refine ⟨?_, rfl⟩
    intro t first ht hfirst
    rw [List.lookup_cons] at hfirst
    split at hfirst
    · rename_i hk
      rw [← Option.some.inj hfirst]
      exact h r t hr ht (eq_of_beq hk).symm
    · exact hp t first ht hfirst

theorem Apart.stand : Stand lib (Own used) used := fun _ hr => answers_resolve h hr

theorem answers_resolveAll {rs : List TypeRef} (hrs : ∀ r ∈ rs, used r) :
    Answers (Own used) (lib.catalog.resolveAll rs) (· = rs) := h.stand.resolveAll hrs

theorem answers_readAttributes {as : List (Catalog.Attribute TypeRef)} (has : ∀ a ∈ as, used a.type) :
    Answers (Own used) (lib.catalog.readAttributes (.ok as)).run (· = .ok as) := h.stand.readAttributes has

end Apart

/-! ## Members of a type -/

section Members
variable {kind : Pool TypeRef → Prop} {along : TypeRef → Prop} (h : Stand lib kind used)
  (hbase : ∀ r base, along r → lib.simpleCatalog.base? r = some base → used base ∧ along base)
include h hbase

theorem answers_basesOf (limit : Nat) {r : TypeRef} (hr : along r) :
    Answers kind (lib.basesOf limit r) fun _ => True := by
  induction limit generalizing r with
  | zero => exact answers_pure trivial
  | succ limit ih =>
    have hone : Answers kind (lib.simpleCatalog.baseOf? r) (∀ base ∈ ·, along base) := by
      unfold Catalog.baseOf?
      cases hb : lib.simpleCatalog.base? r with
      | none => exact answers_pure (by simp)
      | some base =>
        obtain ⟨hused, halong⟩ := hbase r base hr hb
        have hresolve : Answers kind (lib.simpleCatalog.resolve base) (· = base) := h base hused
        exact answers_bind hresolve fun x hx => answers_pure (by simpa [hx] using halong)
    refine answers_bind hone fun o ho => ?_
    cases o with
    | none => exact answers_pure trivial
    | some base =>
      dsimp only
      split
      · exact answers_pure trivial
      · exact answers_bind (ih (ho base rfl)) fun _ _ => answers_pure trivial

variable (along) in
/-- What a type has of itself: all that its bases give is inherited. -/
theorem answers_collect {members : Bool → Definition → List α} {isInherited : α → Bool} {d : Definition}
    {r : TypeRef} (hmembers : ∀ b d, ∀ x ∈ members b d, isInherited x = b) (hr : along r)
    (hd : lib.definitionOf? r = some d) :
    Answers kind (lib.collect members r) fun xs => xs.filter (fun x => !isInherited x) = members false d := by
  refine answers_bind (answers_basesOf h hbase _ hr) fun bases _ => answers_pure ?_
  have hown : ∀ x ∈ members false d, (!isInherited x) = true := by
    intro x hx
    rw [hmembers false d x hx]
    rfl
  have hbases : ∀ x ∈ bases.flatMap (members true), ¬(!isInherited x) = true := by
    intro x hx
    obtain ⟨b, -, hx⟩ := List.mem_flatMap.1 hx
    simp [hmembers true b x hx]
  rw [hd, List.filter_append, Option.map_some, Option.getD_some, List.filter_eq_self.2 hown,
    List.filter_eq_nil_iff.2 hbases, List.append_nil]

end Members

theorem isInherited_propertiesOf (b : Bool) (d : Definition) : ∀ p ∈ Library.propertiesOf b d, p.isInherited = b := by
  intro p hp
  obtain ⟨_, -, rfl⟩ := List.mem_map.1 hp
  rfl

theorem isInherited_methodsOf (b : Bool) (d : Definition) : ∀ m ∈ Library.methodsOf b d, m.isInherited = b := by
  intro m hm
  obtain ⟨_, -, rfl⟩ := List.mem_map.1 hm
  rfl

theorem answers_properties (h : Apart used) (hbase : ∀ e ∈ lib.entries, ∀ base ∈ e.definition.baseType, used base)
    {r : TypeRef} {d : Definition} (hd : lib.definitionOf? r = some d) :
    Answers (Own used) (lib.catalog.properties r) fun ps =>
      ps.filter (fun p => !p.isInherited) = Library.propertiesOf false d := by
  refine answers_collect (fun _ => True) h.stand ?_ isInherited_propertiesOf trivial hd
  intro r base _ hb
  have hb : ((lib.get? r.name).map (·.definition)).bind (·.baseType) = some base := hb
  simp only [Option.bind_eq_some_iff, Option.map_eq_some_iff] at hb
  obtain ⟨-, ⟨e, he, rfl⟩, hb⟩ := hb
  exact ⟨hbase e (List.mem_of_find?_eq_some he) base hb, trivial⟩

end ProtoRecovery.Managed
