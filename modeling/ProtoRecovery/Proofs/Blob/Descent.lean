import ProtoRecovery.Proofs.Blob.Containment
/-!
# Reading values ends

Whatever is read inside a value starts with fewer bytes than the value. So reading values is a recursion on how many
bytes are left; it has one solution, which the reader with a bound on depth computes, and the bound is never seen.
-/

namespace ProtoRecovery.Blob

variable {α β : Type} {resolver : EnumResolver}

/-! ## The recursion on values -/

/-- A reader goes forward from everywhere. -/
def Forward (r : Read α) : Prop := ∀ c : Cursor, c.Precedes (r.run.run c).2

/-- A reader takes a byte at least, if it succeeds. -/
def Consumes (r : Read α) : Prop :=
  ∀ (c : Cursor) (a : α) (c' : Cursor), r.run.run c = (.ok a, c') → c'.rest.length < c.rest.length

/-- Two readers do the same wherever fewer bytes are left. -/
def AgreeBelow (n : Nat) (r r' : Read α) : Prop := ∀ c : Cursor, c.rest.length < n → r.run.run c = r'.run.run c

theorem forward_iff {r : Read α} : Forward r ↔ ∀ size, Contained size (fun _ => True) r :=
  ⟨fun h _ c _ => ⟨h c, fun _ _ => trivial⟩, fun h c => (h _ c rfl).1⟩

theorem forward_pure (a : α) : Forward (pure a) := fun c => .refl c

theorem forward_u8 : Forward u8 :=
  forward_iff.2 fun _ => contained_u8 fun _ _ _ => trivial

theorem forward_taggedWith {inner : UInt8 → Nat → Read AttributeValue}
    (hinner : ∀ tag offset, Forward (inner tag offset)) : Forward (taggedWith inner) :=
  forward_iff.2 fun size => contained_taggedWith (fun _ _ _ => trivial) fun tag offset _ =>
    forward_iff.1 (hinner tag offset) size

theorem forward_value (depth : Nat) (tag : UInt8) (offset : Nat) : Forward (value resolver depth tag offset) :=
  forward_iff.2 fun _ => contained_value (fun _ _ => trivial) depth (fun _ => trivial) tag

theorem consumes_take {count : Nat} (hcount : 0 < count) (what : String) : Consumes (take count what) := by
  intro c bytes c' h
  by_cases hshort : c.rest.length < count
  · rw [run_take_short hshort] at h
    cases h
  · rw [run_take (Nat.le_of_not_lt hshort)] at h
    cases h
    simp only [List.length_drop]
    omega

theorem consumes_bind {r : Read α} {f : α → Read β} (hr : Consumes r) (hf : ∀ a, Forward (f a)) :
    Consumes (r >>= f) := by
  intro c b c' h
  obtain ⟨a, middle, hrun, h⟩ := exists_of_run_bind h
  have hforward := hf a middle
  rw [h] at hforward
  exact Nat.lt_of_le_of_lt hforward.length_le (hr c a middle hrun)

theorem consumes_map {r : Read α} (f : α → β) (hr : Consumes r) : Consumes (f <$> r) :=
  consumes_bind hr fun a => forward_pure (f a)

theorem consumes_u8 : Consumes u8 :=
  consumes_map UInt8.ofNat (consumes_map littleEndian (consumes_take Nat.one_pos "u8"))

theorem consumes_compressedI32 : Consumes compressedI32 := by
  obtain ⟨f, heq, hf⟩ := exists_compressedU32_eq
  refine consumes_map unfoldSign ?_
  rw [heq]
  exact consumes_bind consumes_u8 fun lead => forward_iff.2 fun _ =>
    hf (fun _ _ _ => trivial) lead

theorem consumes_enumTag : Consumes (enumTag resolver) := by
  refine consumes_bind consumes_compressedI32 fun index => ?_
  cases resolver index with
  | ok tag => exact forward_pure tag
  | error e => exact fun c => .refl c

section AgreeBelow
variable {n : Nat}

theorem agreeBelow_refl (r : Read α) : AgreeBelow n r r := fun _ _ => rfl

theorem AgreeBelow.symm {r r' : Read α} (h : AgreeBelow n r r') : AgreeBelow n r' r := fun c hc => (h c hc).symm

theorem AgreeBelow.mono {m : Nat} {r r' : Read α} (h : AgreeBelow n r r') (hm : m ≤ n) : AgreeBelow m r r' :=
  fun c hc => h c (Nat.lt_of_lt_of_le hc hm)

theorem agreeBelow_bind {r r' : Read α} {f f' : α → Read β} (hr : AgreeBelow n r r') (hforward : Forward r)
    (hf : ∀ a, AgreeBelow n (f a) (f' a)) : AgreeBelow n (r >>= f) (r' >>= f') := by
  intro c hc
  refine run_bind_congr (hr c hc) fun a middle hrun => ?_
  have hmiddle := hforward c
  rw [hrun] at hmiddle
  exact hf a middle (Nat.lt_of_le_of_lt hmiddle.length_le hc)

/-- After a byte was taken there are fewer of them. -/
theorem agreeBelow_of_consumes {r : Read α} {f f' : α → Read β} (hr : Consumes r)
    (hf : ∀ a, AgreeBelow n (f a) (f' a)) : AgreeBelow (n + 1) (r >>= f) (r >>= f') := by
  intro c hc
  refine run_bind_congr rfl fun a middle hrun => ?_
  have hfewer := hr c a middle hrun
  exact hf a middle (by omega)

theorem agreeBelow_map {r r' : Read α} (f : α → β) (hr : AgreeBelow n r r') : AgreeBelow n (f <$> r) (f <$> r') := by
  intro c hc
  rw [← bind_pure_comp, ← bind_pure_comp]
  exact run_bind_congr (hr c hc) fun _ _ _ => rfl

theorem agreeBelow_offset {f f' : Nat → Read α} (h : ∀ k, AgreeBelow n (f k) (f' k)) :
    AgreeBelow n (offset >>= f) (offset >>= f') := fun c hc => h c.offset c hc

theorem agreeBelow_remaining {f f' : Nat → Read α} (h : ∀ k, AgreeBelow n (f k) (f' k)) :
    AgreeBelow n (remaining >>= f) (remaining >>= f') := fun c hc => h c.rest.length c hc

theorem agreeBelow_ite {p : Prop} [Decidable p] {r r' s s' : Read α} (hr : AgreeBelow n r r') (hs : AgreeBelow n s s') :
    AgreeBelow n (if p then r else s) (if p then r' else s') := by
  split
  · exact hr
  · exact hs

theorem agreeBelow_times {r r' : Read α} (hr : AgreeBelow n r r') (hforward : Forward r) (count : Nat) :
    AgreeBelow n (times r count) (times r' count) := by
  induction count with
  | zero => exact agreeBelow_refl _
  | succ count ih => exact agreeBelow_bind hr hforward fun a => agreeBelow_map (a :: ·) ih

/-! ### Readers of values inside a value -/

variable {inner inner' : UInt8 → Nat → Read AttributeValue} {tagged' : Read AttributeValue}

theorem agreeBelow_taggedWith (hinner : ∀ tag offset, AgreeBelow n (inner tag offset) (inner' tag offset)) :
    AgreeBelow (n + 1) (taggedWith inner) (taggedWith inner') :=
  agreeBelow_offset fun offset => agreeBelow_of_consumes consumes_u8 fun tag => hinner tag offset

/-- The length of an array takes a byte, so the items have fewer. -/
theorem agreeBelow_arrayValue (resolver : EnumResolver) (hforward : ∀ tag offset, Forward (inner tag offset))
    (hinner : ∀ tag offset, AgreeBelow n (inner tag offset) (inner' tag offset))
    (htagged : AgreeBelow n (taggedWith inner) tagged') :
    AgreeBelow (n + 1) (arrayValue resolver inner (taggedWith inner)) (arrayValue resolver inner' tagged') := by
  have htag : Forward (enumTag resolver) := forward_iff.2 fun _ => contained_enumTag fun _ _ => trivial
  have hbool : Forward bool := forward_iff.2 fun size => contained_map _ (forward_iff.1 forward_u8 size)
  rw [arrayValue_eq, arrayValue_eq]
  refine agreeBelow_offset fun start => agreeBelow_of_consumes consumes_compressedI32 fun length => ?_
  refine agreeBelow_ite (agreeBelow_refl _) (agreeBelow_ite (agreeBelow_refl _) ?_)
  refine agreeBelow_remaining fun left => agreeBelow_ite (agreeBelow_refl _) ?_
  refine agreeBelow_offset fun elementOffset => agreeBelow_bind (agreeBelow_refl u8) forward_u8 fun declared => ?_
  have hitems : ∀ element, AgreeBelow n (arrayItems inner (taggedWith inner) length elementOffset element)
      (arrayItems inner' tagged' length elementOffset element) := by
    intro element
    refine agreeBelow_bind (agreeBelow_refl bool) hbool fun carry => ?_
    refine agreeBelow_ite (agreeBelow_refl _) (agreeBelow_map some ?_)
    cases carry with
    | false => exact agreeBelow_times (hinner element elementOffset) (hforward element elementOffset) _
    | true => exact agreeBelow_times htagged (forward_taggedWith hforward) _
  refine agreeBelow_ite (agreeBelow_bind (agreeBelow_refl _) htag hitems) ?_
  exact agreeBelow_bind (agreeBelow_refl _) (forward_pure declared) hitems

theorem agreeBelow_valueWith (resolver : EnumResolver) (hforward : ∀ tag offset, Forward (inner tag offset))
    (hinner : ∀ tag offset, AgreeBelow n (inner tag offset) (inner' tag offset))
    (htagged : AgreeBelow n (taggedWith inner) tagged') (tag : UInt8) (offset : Nat) :
    AgreeBelow (n + 1) (valueWith resolver inner (taggedWith inner) tag offset)
      (valueWith resolver inner' tagged' tag offset) := by
  unfold valueWith
  cases Tag.ofByte? tag with
  | none => exact agreeBelow_refl _
  | some t =>
    cases t with
    | enum => exact agreeBelow_of_consumes consumes_enumTag fun tag => hinner tag offset
    | array => exact agreeBelow_map _ (agreeBelow_arrayValue resolver hforward hinner htagged)
    | _ => exact agreeBelow_refl _

/-- What agrees on the values inside agrees one level up. -/
theorem agreeBelow_level (resolver : EnumResolver) (hforward : ∀ tag offset, Forward (inner tag offset))
    (hinner : ∀ tag offset, AgreeBelow n (inner tag offset) (inner' tag offset)) (tag : UInt8) (offset : Nat) :
    AgreeBelow (n + 1) (valueWith resolver inner (taggedWith inner) tag offset)
      (valueWith resolver inner' (taggedWith inner') tag offset) :=
  agreeBelow_valueWith resolver hforward hinner ((agreeBelow_taggedWith hinner).mono (Nat.le_succ n)) tag offset

end AgreeBelow

/-! ## The bound on depth -/

/-- A depth that the bytes do not reach is as good as another. -/
theorem agreeBelow_value {n depth depth' : Nat} (h : n ≤ depth) (h' : n ≤ depth') (tag : UInt8) (offset : Nat) :
    AgreeBelow n (value resolver depth tag offset) (value resolver depth' tag offset) := by
  induction n generalizing depth depth' tag offset with
  | zero => exact fun c hc => absurd hc (Nat.not_lt_zero _)
  | succ n ih =>
    obtain ⟨depth, rfl⟩ := Nat.exists_eq_add_of_lt h
    obtain ⟨depth', rfl⟩ := Nat.exists_eq_add_of_lt h'
    have hinner := ih (Nat.le_add_right n depth) (Nat.le_add_right n depth')
    exact agreeBelow_level resolver (forward_value _) hinner tag offset

/-- A value after its tag, with as much depth as its bytes can need. -/
def wholeValue (resolver : EnumResolver) (tag : UInt8) (offset : Nat) : Read AttributeValue := do
  value resolver ((← remaining) + 1) tag offset

theorem run_wholeValue (tag : UInt8) (offset : Nat) (c : Cursor) :
    (wholeValue resolver tag offset).run.run c = (value resolver (c.rest.length + 1) tag offset).run.run c :=
  run_remaining_bind (fun n => value resolver (n + 1) tag offset) c

theorem forward_wholeValue (tag : UInt8) (offset : Nat) : Forward (wholeValue resolver tag offset) := by
  intro c
  rw [run_wholeValue]
  exact forward_value (c.rest.length + 1) tag offset c

theorem agreeBelow_wholeValue {n depth : Nat} (h : n ≤ depth) (tag : UInt8) (offset : Nat) :
    AgreeBelow n (wholeValue resolver tag offset) (value resolver depth tag offset) := by
  intro c hc
  rw [run_wholeValue]
  exact agreeBelow_value (Nat.le_refl _) (Nat.le_trans hc h) tag offset c (Nat.lt_succ_self _)

/-- Two readers that do the same below every number of bytes are one. -/
theorem eq_of_agreeBelow {r r' : Read α} (h : ∀ n, AgreeBelow n r r') : r = r' :=
  funext fun c => h _ c (Nat.lt_succ_self _)

theorem wholeValue_eq :
    wholeValue resolver = valueWith resolver (wholeValue resolver) (taggedWith (wholeValue resolver)) := by
  funext tag offset
  refine eq_of_agreeBelow fun n c hc => ?_
  -- One level over values of depth `n` is a value of depth `n + 1`.
  have hlevel : AgreeBelow (n + 1) _ (value resolver (n + 1) tag offset) :=
    agreeBelow_level resolver forward_wholeValue (agreeBelow_wholeValue (Nat.le_refl n)) tag offset
  rw [hlevel c (Nat.lt_succ_of_lt hc)]
  exact agreeBelow_wholeValue (Nat.le_succ n) tag offset c hc

theorem taggedValue_eq : taggedValue resolver = taggedWith (wholeValue resolver) := by
  refine eq_of_agreeBelow fun n c _ => ?_
  have hvalue : ∀ tag, AgreeBelow (c.rest.length + 1) (value resolver (c.rest.length + 1) tag c.offset)
      (wholeValue resolver tag c.offset) := fun tag => (agreeBelow_wholeValue (Nat.le_refl _) tag c.offset).symm
  have hrun : (taggedValue resolver).run.run c =
      (u8 >>= fun tag => value resolver (c.rest.length + 1) tag c.offset).run.run c :=
    run_get_bind (fun c => u8 >>= fun tag => value resolver (c.rest.length + 1) tag c.offset) c
  rw [hrun, taggedWith, run_offset_bind]
  exact agreeBelow_bind (agreeBelow_refl u8) forward_u8 hvalue c (Nat.lt_succ_self _)

/-- The recursion on values has no other solution. -/
theorem eq_wholeValue {value' : UInt8 → Nat → Read AttributeValue}
    (h : value' = valueWith resolver value' (taggedWith value')) : value' = wholeValue resolver := by
  have hagree : ∀ n tag offset, AgreeBelow n (wholeValue resolver tag offset) (value' tag offset) := by
    intro n
    induction n with
    | zero => exact fun _ _ c hc => absurd hc (Nat.not_lt_zero _)
    | succ n ih =>
      intro tag offset
      rw [h, wholeValue_eq]
      exact agreeBelow_level resolver forward_wholeValue ih tag offset
  funext tag offset
  exact (eq_of_agreeBelow fun n => hagree n tag offset).symm

/-! ## Every value inside starts with fewer bytes -/

/-- A reader where fewer than `n` bytes are left, and another one elsewhere. -/
def below (n : Nat) (r stuck : Read α) : Read α := do if (← remaining) < n then r else stuck

theorem agreeBelow_below (n : Nat) (r stuck : Read α) : AgreeBelow n r (below n r stuck) := by
  intro c hc
  rw [below, run_remaining_bind, if_pos hc]

/-- `value` reads values by recursion on how many bytes are left. -/
structure Descends (resolver : EnumResolver) (value : UInt8 → Nat → Read AttributeValue) : Prop where
  /-- It is what the recursion says, with no bound on depth. -/
  unfolds : value = valueWith resolver value (taggedWith value)
  /-- Nothing else is. -/
  unique : ∀ value', value' = valueWith resolver value' (taggedWith value') → value' = value
  /-- No value inside a value starts with as many bytes or more: it does not matter what is done with such a one. -/
  value_below : ∀ (stuck : UInt8 → Nat → Read AttributeValue) (stuckTagged : Read AttributeValue) (tag : UInt8)
    (offset : Nat) (c : Cursor), (value tag offset).run.run c =
      (valueWith resolver (fun tag offset => below c.rest.length (value tag offset) (stuck tag offset))
        (below c.rest.length (taggedWith value) stuckTagged) tag offset).run.run c
  /-- Nor does a value inside an array. -/
  array_below : ∀ (stuck : UInt8 → Nat → Read AttributeValue) (stuckTagged : Read AttributeValue) (c : Cursor),
    (arrayValue resolver value (taggedWith value)).run.run c =
      (arrayValue resolver (fun tag offset => below c.rest.length (value tag offset) (stuck tag offset))
        (below c.rest.length (taggedWith value) stuckTagged)).run.run c
  /-- Nor does a value behind its tag. -/
  tagged_below : ∀ (stuck : UInt8 → Nat → Read AttributeValue) (c : Cursor), (taggedWith value).run.run c =
    (taggedWith fun tag offset => below c.rest.length (value tag offset) (stuck tag offset)).run.run c

theorem descends_wholeValue : Descends resolver (wholeValue resolver) where
  unfolds := wholeValue_eq
  unique _ := eq_wholeValue
  value_below stuck stuckTagged tag offset c := by
    have hlevel := agreeBelow_valueWith resolver forward_wholeValue
      (fun tag offset => agreeBelow_below c.rest.length (wholeValue resolver tag offset) (stuck tag offset))
      (agreeBelow_below c.rest.length _ stuckTagged) tag offset c (Nat.lt_succ_self _)
    rwa [← wholeValue_eq] at hlevel
  array_below stuck stuckTagged c :=
    agreeBelow_arrayValue resolver forward_wholeValue (fun tag offset => agreeBelow_below _ _ (stuck tag offset))
      (agreeBelow_below _ _ stuckTagged) c (Nat.lt_succ_self _)
  tagged_below stuck c :=
    agreeBelow_taggedWith (fun tag offset => agreeBelow_below _ _ (stuck tag offset)) c (Nat.lt_succ_self _)

/-- Values are read by a recursion in which every value inside another starts with fewer bytes; no byte is read that is
not in the blob; and there is a result, or an error of the resolver, or one with an offset in the blob. -/
theorem decode_ends_in_blob (resolver : EnumResolver) (bytes : List UInt8) :
    (∃ value, Descends resolver value ∧ taggedValue resolver = taggedWith value) ∧
      (Cursor.ofBytes bytes).Precedes ((blob resolver).run.run (.ofBytes bytes)).2 ∧
      ((∃ as, decode resolver bytes = .ok as) ∨
        ∃ e, decode resolver bytes = .error e ∧ Fault resolver bytes.length e) := by
  refine ⟨⟨wholeValue resolver, descends_wholeValue, taggedValue_eq⟩, precedes_blob resolver bytes, ?_⟩
  cases h : decode resolver bytes with
  | ok as => exact .inl ⟨as, rfl⟩
  | error e => exact .inr ⟨e, rfl, fault_of_decode h⟩

end ProtoRecovery.Blob
