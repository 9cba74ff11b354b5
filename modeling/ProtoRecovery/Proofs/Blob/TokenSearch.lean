import Mathlib.Data.List.Basic
import ProtoRecovery.Blob.TokenTable
/-!
# Finding a token

A token is searched for by halving a window of a table. Where the tokens of the table ascend, the place that is left is
the only one where the token can be, so the search finds what looking at one place after the other would find. The
window has to lie inside the table: where it sticks out, nothing is found even if a part of it holds the token.
-/

namespace ProtoRecovery.Blob

variable {tokens : List UInt32} {token : UInt32}

/-- Among tokens that ascend the larger one stands later. -/
theorem lt_iff_of_ascending (ascending : tokens.Pairwise (· < ·)) {i j : Nat} {a b : UInt32}
    (ha : tokens[i]? = some a) (hb : tokens[j]? = some b) : a < b ↔ i < j := by
  obtain ⟨hi, rfl⟩ := List.getElem?_eq_some_iff.1 ha
  obtain ⟨hj, rfl⟩ := List.getElem?_eq_some_iff.1 hb
  have hlt := List.pairwise_iff_getElem.1 ascending
  constructor
  · intro hab
    by_contra hij
    rcases Nat.lt_or_eq_of_le (Nat.le_of_not_lt hij) with hji | rfl
    · exact absurd (hlt j i hj hi hji) (UInt32.not_lt.2 (UInt32.le_of_lt hab))
    · exact absurd hab (UInt32.lt_irrefl _)
  · exact hlt i j hi hj

/-- One halving: the upper half is left out just when the token stands before it. A place past the table is above
every token. -/
theorem above_iff (ascending : tokens.Pairwise (· < ·)) {i : Nat} (hi : tokens[i]? = some token) (middle : Nat) :
    (tokens[middle]?).all (token < ·) = true ↔ i < middle := by
  cases hmiddle : tokens[middle]? with
  | none =>
    have := (List.getElem?_eq_some_iff.1 hi).1
    have := List.getElem?_eq_none_iff.1 hmiddle
    simp only [Option.all_none, true_iff]
    omega
  | some b => simpa using lt_iff_of_ascending ascending hi hmiddle

/-- A window that holds the token is halved down to its place. -/
theorem narrow_eq (ascending : tokens.Pairwise (· < ·)) {i base size : Nat} (hi : tokens[i]? = some token)
    (hbase : base ≤ i) (hsize : i < base + size) : narrow tokens token base size = i := by
  fun_induction narrow tokens token base size with
  | case1 base size hone => omega
  | case2 base size hmany half above ih =>
    have habove : above = true ↔ i < base + half := above_iff ascending hi (base + half)
    by_cases h : i < base + half
    · rw [dif_pos (habove.2 h)] at ih
      rw [if_pos (habove.2 h)]
      apply ih <;> omega
    · rw [dif_neg (mt habove.1 h)] at ih
      rw [if_neg (mt habove.1 h)]
      apply ih <;> omega

theorem search_eq_some_iff (ascending : tokens.Pairwise (· < ·)) {i : Nat} :
    search tokens token = some i ↔ tokens[i]? = some token := by
  unfold search
  constructor
  · intro h
    dsimp only at h
    split at h
    · next hplace =>
      obtain rfl := Option.some.inj h
      exact hplace
    · cases h
  · intro hi
    have hlength : i < tokens.length := (List.getElem?_eq_some_iff.1 hi).1
    have hplace : narrow tokens token 0 tokens.length = i := narrow_eq ascending hi (Nat.zero_le i) (by omega)
    simp only [hplace, if_pos hi]

/-- A window that lies inside a table and the place in it where a token stands. -/
def HeldAt (tokens : List UInt32) (token : UInt32) (start count i : Nat) : Prop :=
  start + count ≤ tokens.length ∧ start ≤ i ∧ i < start + count ∧ tokens[i]? = some token

theorem findToken_eq_some_iff (ascending : tokens.Pairwise (· < ·)) {start count i : Nat} :
    findToken tokens token start count = some i ↔ HeldAt tokens token start count i := by
  unfold findToken HeldAt
  have hwindow : ((tokens.drop start).take count).Pairwise (· < ·) :=
    (ascending.sublist (List.drop_sublist _ _)).sublist (List.take_sublist _ _)
  by_cases hinside : start + count ≤ tokens.length
  · rw [if_pos hinside, Option.map_eq_some_iff]
    simp only [search_eq_some_iff hwindow, hinside, true_and]
    constructor
    · rintro ⟨k, hk, rfl⟩
      have hlt : k < count := by
        have := (List.getElem?_eq_some_iff.1 hk).1
        simp only [List.length_take, List.length_drop] at this
        omega
      rw [List.getElem?_take_of_lt hlt, List.getElem?_drop] at hk
      exact ⟨by omega, by omega, hk⟩
    · rintro ⟨hle, hlt, hi⟩
      refine ⟨i - start, ?_, by omega⟩
      rw [List.getElem?_take_of_lt (by omega), List.getElem?_drop, Nat.add_sub_cancel' hle, hi]
  · simp [hinside]

/-- Looks for a token at one place of a window after the other. -/
def scan (tokens : List UInt32) (token : UInt32) (start count : Nat) : Option Nat :=
  if start + count ≤ tokens.length then (List.range' start count).find? (tokens[·]? = some token) else none

theorem scan_eq_some_iff (ascending : tokens.Pairwise (· < ·)) {start count i : Nat} :
    scan tokens token start count = some i ↔ HeldAt tokens token start count i := by
  unfold scan HeldAt
  by_cases hinside : start + count ≤ tokens.length
  · rw [if_pos hinside]
    constructor
    · intro h
      have hi : tokens[i]? = some token := by simpa using List.find?_some h
      have hrange := List.mem_range'_1.1 (List.mem_of_find?_eq_some h)
      exact ⟨hinside, hrange.1, hrange.2, hi⟩
    · rintro ⟨-, hle, hlt, hi⟩
      -- The token stands nowhere else, so the first place that holds it is this one.
      cases h : (List.range' start count).find? (tokens[·]? = some token) with
      | none =>
        have := List.find?_eq_none.1 h i (List.mem_range'_1.2 ⟨hle, hlt⟩)
        simp [hi] at this
      | some j =>
        have hj : tokens[j]? = some token := by simpa using List.find?_some h
        have hij := lt_iff_of_ascending ascending hi hj
        have hji := lt_iff_of_ascending ascending hj hi
        simp only [UInt32.lt_irrefl, false_iff] at hij hji
        rw [show j = i by omega]
  · simp [hinside]

/-- In a table whose tokens ascend, the search finds just what looking at one place after the other finds: the place of
the token, if the window lies inside the table and the token stands in the window, and otherwise nothing. Positions
are exact, so a window whose end is no 64-bit number ends past every table that has a 64-bit length. -/
theorem findToken_eq_scan (ascending : tokens.Pairwise (· < ·)) (token : UInt32) (start count : Nat) :
    findToken tokens token start count = scan tokens token start count ∧
      (∀ i, findToken tokens token start count = some i ↔
        start + count ≤ tokens.length ∧ start ≤ i ∧ i < start + count ∧ tokens[i]? = some token) ∧
      (findToken tokens token start count = none ↔
        tokens.length < start + count ∨ ∀ i, start ≤ i → i < start + count → tokens[i]? ≠ some token) ∧
      (tokens.length < UInt64.size → UInt64.size ≤ start + count → findToken tokens token start count = none) := by
  have hfound : ∀ i, findToken tokens token start count = some i ↔ HeldAt tokens token start count i :=
    fun i => findToken_eq_some_iff ascending
  have hnone : findToken tokens token start count = none ↔
      tokens.length < start + count ∨ ∀ i, start ≤ i → i < start + count → tokens[i]? ≠ some token := by
    rw [Option.eq_none_iff_forall_ne_some]
    simp only [ne_eq, hfound, HeldAt, not_and]
    constructor
    · intro h
      by_cases hinside : start + count ≤ tokens.length
      · exact .inr fun i => h i hinside
      · exact .inl (Nat.lt_of_not_le hinside)
    · rintro (hpast | h) i hinside
      · omega
      · exact h i
  refine ⟨?_, hfound, hnone, fun hfits hpast => hnone.2 (.inl (by omega))⟩
  apply Option.ext
  intro i
  rw [hfound, scan_eq_some_iff ascending]

/-- The last token of a table, in the window of its last two; a window that sticks out has none of its tokens. -/
theorem findToken_eq_scan_last :
    [3, 7, 9, 20, 21].Pairwise (fun a b : UInt32 => a < b) ∧ findToken [3, 7, 9, 20, 21] 21 3 2 = some 4 ∧
      findToken [3, 7, 9, 20, 21] 21 4 10 = none ∧ findToken [3, 7, 9, 20, 21] 21 4 (UInt64.size - 1) = none := by
  have ascending : [3, 7, 9, 20, 21].Pairwise (fun a b : UInt32 => a < b) := by decide
  refine ⟨ascending, ?_, ?_, ?_⟩
  · exact ((findToken_eq_scan ascending 21 3 2).2.1 4).2 (by decide)
  · exact (findToken_eq_scan ascending 21 4 10).2.2.1.2 (.inl (by decide))
  · exact (findToken_eq_scan ascending 21 4 (UInt64.size - 1)).2.2.2 (by decide) (by decide)

end ProtoRecovery.Blob
