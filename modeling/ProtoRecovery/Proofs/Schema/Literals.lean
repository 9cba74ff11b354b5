import ProtoRecovery.Proofs.Text.Utf8
import ProtoRecovery.Schema.Text
/-!
# String literals read back

What a literal stands for are bytes: an escape is one of them, and any other character those of its UTF-8 form.
`literalValue?` reads the inside of a literal so, and refuses what may not stand there. Each character is escaped in one
of three ways, and each way is read back alone, whatever comes behind it.
-/

namespace ProtoRecovery.Schema

/-! ## Reading literals -/

/-- The control characters of ASCII. -/
def isControl (c : Char) : Bool := c.toNat < 0x20 || c.toNat == 0x7F

/-- The byte that a backslash and one character stand for. -/
def shortEscape? (c : Char) : Option UInt8 :=
  if c = '\\' then some 0x5C
  else if c = '"' then some 0x22
  else if c = 'n' then some 0x0A
  else if c = 'r' then some 0x0D
  else if c = 't' then some 0x09
  else none

/-- A character that stands for itself. -/
def isPlain (c : Char) : Bool := c != '\\' && c != '"' && !isControl c

/-- The bytes that the inside of a literal stands for. -/
def literalBytes? : List Char → Option (List UInt8)
  | [] => some []
  | '\\' :: 'x' :: high :: low :: rest => do
    let h ← Text.hexValue? high
    let l ← Text.hexValue? low
    (literalBytes? rest).map (UInt8.ofNat (h * 16 + l) :: ·)
  | '\\' :: c :: rest => do
    let b ← shortEscape? c
    (literalBytes? rest).map (b :: ·)
  | c :: rest => if isPlain c then (literalBytes? rest).map (String.utf8EncodeChar c ++ ·) else none

/-- The text that the inside of a literal stands for. -/
def literalValue? (inside : String) : Option String :=
  (literalBytes? inside.toList).bind fun bytes => (Text.decodeUtf8 bytes).toOption

/-- How many backslashes a text ends in. -/
def backslashes (cs : List Char) : Nat := (cs.reverse.takeWhile (· == '\\')).length

/-! ## One character -/

theorem hexValue?_hexDigit : ∀ d < 16, Text.hexValue? (Text.hexDigit d) = some d := by decide +kernel

theorem hex_two : ∀ n < 0x80, (Text.hex 2 n).toList = [Text.hexDigit (n / 16), Text.hexDigit (n % 16)] := by
  decide +kernel

theorem isPlain_hexDigit : ∀ d < 16, isPlain (Text.hexDigit d) = true := by decide +kernel

theorem utf8EncodeChar_ascii {c : Char} (h : c.toNat < 0x80) : String.utf8EncodeChar c = [UInt8.ofNat c.toNat] := by
  have hval : c.val.toNat = c.toNat := rfl
  unfold String.utf8EncodeChar
  dsimp only
  rw [hval, if_pos (by omega)]

/-- How a character can be escaped: by a backslash and one character, by its number, or not at all. -/
theorem escapeChar_cases (c : Char) :
    (∃ e b, shortEscape? e = some b ∧ escapeChar c = ['\\', e] ∧ String.utf8EncodeChar c = [b]) ∨
      (∃ h < 16, ∃ l < 16, escapeChar c = ['\\', 'x', Text.hexDigit h, Text.hexDigit l] ∧
        String.utf8EncodeChar c = [UInt8.ofNat (h * 16 + l)]) ∨
      (isPlain c = true ∧ escapeChar c = [c]) := by
  by_cases hback : c = '\\'
  · subst hback
    exact .inl ⟨'\\', 0x5C, by decide +kernel⟩
  by_cases hquote : c = '"'
  · subst hquote
    exact .inl ⟨'"', 0x22, by decide +kernel⟩
  by_cases hline : c = '\n'
  · subst hline
    exact .inl ⟨'n', 0x0A, by decide +kernel⟩
  by_cases hreturn : c = '\r'
  · subst hreturn
    exact .inl ⟨'r', 0x0D, by decide +kernel⟩
  by_cases htab : c = '\t'
  · subst htab
    exact .inl ⟨'t', 0x09, by decide +kernel⟩
  by_cases hcontrol : c.toNat < 0x20 ∨ c.toNat = 0x7F
  · have hlt : c.toNat < 0x80 := by omega
    refine .inr (.inl ⟨c.toNat / 16, by omega, c.toNat % 16, by omega, ?_, ?_⟩)
    · simp [escapeChar, hback, hquote, hline, hreturn, htab, hcontrol, hex_two c.toNat hlt]
    · rw [utf8EncodeChar_ascii hlt, Nat.div_add_mod']
  · refine .inr (.inr ⟨?_, ?_⟩)
    · simpa [isPlain, isControl, hback, hquote] using hcontrol
    · simp [escapeChar, hback, hquote, hline, hreturn, htab, hcontrol]

theorem mem_of_shortEscape? {e : Char} {b : UInt8} (h : shortEscape? e = some b) : e ∈ ['\\', '"', 'n', 'r', 't'] := by
  unfold shortEscape? at h
  split_ifs at h <;> simp_all

/-- No control character comes of escaping. -/
theorem isControl_escapeChar {c x : Char} (hx : x ∈ escapeChar c) : isControl x = false := by
  have hplain : ∀ y, isPlain y = true → isControl y = false := fun y hy => by
    simp only [isPlain, Bool.and_eq_true, Bool.not_eq_true'] at hy
    exact hy.2
  rcases escapeChar_cases c with ⟨e, b, he, hc, -⟩ | ⟨h, hh, l, hl, hc, -⟩ | ⟨hc, hself⟩
  · have hshort : ∀ y ∈ ['\\', '"', 'n', 'r', 't'], isControl y = false := by simp [isControl]
    rw [hc, List.mem_cons, List.mem_singleton] at hx
    rcases hx with rfl | rfl
    · rfl
    · exact hshort x (mem_of_shortEscape? he)
  · simp only [hc, List.mem_cons, List.not_mem_nil, or_false] at hx
    rcases hx with rfl | rfl | rfl | rfl
    · rfl
    · rfl
    · exact hplain _ (isPlain_hexDigit h hh)
    · exact hplain _ (isPlain_hexDigit l hl)
  · rw [hself, List.mem_singleton] at hx
    exact hx ▸ hplain c hc

/-- A character is read back from its escape alone, whatever follows. -/
theorem literalBytes?_escapeChar (c : Char) (rest : List Char) :
    literalBytes? (escapeChar c ++ rest) = (literalBytes? rest).map (String.utf8EncodeChar c ++ ·) := by
  rcases escapeChar_cases c with ⟨e, b, he, hc, hbytes⟩ | ⟨h, hh, l, hl, hc, hbytes⟩ | ⟨hplain, hself⟩
  · have hnumber : e ≠ 'x' := by
      rintro rfl
      simp [shortEscape?] at he
    rw [hc, hbytes]
    simp [literalBytes?, hnumber, he]
  · rw [hc, hbytes]
    simp [literalBytes?, hexValue?_hexDigit h hh, hexValue?_hexDigit l hl]
  · have hback : c ≠ '\\' := by
      rintro rfl
      simp [isPlain] at hplain
    rw [hself]
    simp [literalBytes?, hback, hplain]

/-! ## Backslashes in front of quotes -/

theorem backslashes_append (a b : List Char) :
    backslashes (a ++ b) = if backslashes b = b.length then b.length + backslashes a else backslashes b := by
  unfold backslashes
  rw [List.reverse_append, List.takeWhile_append, List.length_reverse]
  split <;> simp

/-- An even number of backslashes further in front makes no difference. -/
theorem odd_backslashes_append {a b : List Char} (ha : Even (backslashes a)) (hb : Odd (backslashes b)) :
    Odd (backslashes (a ++ b)) := by
  rw [backslashes_append]
  split
  · next hall =>
    rw [hall] at hb
    exact hb.add_even ha
  · exact hb

theorem even_backslashes_escapeChar (c : Char) : Even (backslashes (escapeChar c)) := by
  rcases escapeChar_cases c with ⟨e, b, he, hc, -⟩ | ⟨h, hh, l, hl, hc, -⟩ | ⟨hplain, hself⟩
  · have hshort : ∀ y ∈ ['\\', '"', 'n', 'r', 't'], Even (backslashes ['\\', y]) := by
      simp [backslashes]
    rw [hc]
    exact hshort e (mem_of_shortEscape? he)
  · have hdigit : (Text.hexDigit l == '\\') = false := by
      have := isPlain_hexDigit l hl
      simp_all [isPlain]
    rw [hc]
    simp [backslashes, hdigit]
  · have hback : (c == '\\') = false := by simp_all [isPlain]
    rw [hself]
    simp [backslashes, hback]

/-- The one way in which escaping makes a quote. -/
theorem eq_of_quote_mem_escapeChar {c : Char} {before after : List Char} (h : escapeChar c = before ++ '"' :: after) :
    before = ['\\'] := by
  have hquote : '"' ∈ escapeChar c := by simp [h]
  -- A quote never stands for itself, so it is neither a digit nor a character that was left alone.
  have hplain : ∀ x, isPlain x = true → '"' ≠ x := by
    rintro x hx rfl
    simp [isPlain] at hx
  rcases escapeChar_cases c with ⟨e, b, he, hc, -⟩ | ⟨d, hd, l, hl, hc, -⟩ | ⟨hp, hself⟩
  · rw [hc] at h
    rcases before with - | ⟨x, - | ⟨y, before⟩⟩
    · simp at h
    · simp only [List.cons_append, List.cons.injEq] at h
      rw [h.1]
    · simp at h
  · simp [hc, hplain _ (isPlain_hexDigit d hd), hplain _ (isPlain_hexDigit l hl)] at hquote
  · simp [hself, hplain c hp] at hquote

theorem odd_backslashes_before_quote {cs before after : List Char}
    (h : cs.flatMap escapeChar = before ++ '"' :: after) : Odd (backslashes before) := by
  induction cs generalizing before with
  | nil => simp at h
  | cons c cs ih =>
    rw [List.flatMap_cons] at h
    rcases List.append_eq_append_iff.1 h with ⟨more, rfl, hmore⟩ | ⟨part, hc, hpart⟩
    · exact odd_backslashes_append (even_backslashes_escapeChar c) (ih hmore)
    · cases part with
      | nil =>
        -- The quote would be the first character of the next escape.
        have hnone : Odd (backslashes []) := ih (by simpa using hpart.symm)
        simp [backslashes] at hnone
      | cons q part =>
        obtain ⟨rfl, -⟩ := List.cons_eq_cons.1 hpart
        rw [eq_of_quote_mem_escapeChar hc]
        decide

/-! ## Whole literals -/

theorem literalBytes?_flatMap (cs : List Char) :
    literalBytes? (cs.flatMap escapeChar) = some (cs.flatMap String.utf8EncodeChar) := by
  induction cs with
  | nil => rfl
  | cons c cs ih => rw [List.flatMap_cons, literalBytes?_escapeChar, ih, Option.map_some, List.flatMap_cons]

theorem literalValue?_escape (s : String) : literalValue? (escape s) = some s := by
  rw [literalValue?, escape, String.toList_ofList, literalBytes?_flatMap, ← Text.encodeUtf8_eq, Option.bind_some,
    Text.decodeUtf8_encodeUtf8]
  rfl

theorem escape_injective : Function.Injective escape := fun a b h => by
  rw [← Option.some_inj, ← literalValue?_escape a, h, literalValue?_escape b]

/-- An escaped text has no control characters, each quote in it comes after an odd number of backslashes, and read as
the inside of a literal it is the text. -/
theorem escape_reversible (s : String) :
    (∀ c ∈ (escape s).toList, isControl c = false) ∧
      (∀ before after, (escape s).toList = before ++ '"' :: after → Odd (backslashes before)) ∧
      literalValue? (escape s) = some s := by
  have hchars : (escape s).toList = s.toList.flatMap escapeChar := String.toList_ofList
  refine ⟨fun c hc => ?_, fun before after h => ?_, literalValue?_escape s⟩
  · rw [hchars] at hc
    obtain ⟨x, -, hx⟩ := List.mem_flatMap.1 hc
    exact isControl_escapeChar hx
  · exact odd_backslashes_before_quote (hchars ▸ h)

/-- Backslashes and quotes in a row, and a control character with a digit behind it. -/
def mixedText : String := "\\\"\x01fé\\\\\""

theorem escape_mixedText : (escape mixedText).toList = "\\\\\\\"\\x01fé\\\\\\\\\\".toList ++ ['"'] := by decide +kernel

/-- Five backslashes stand in front of the last quote. -/
theorem escape_reversible_mixedText :
    (∀ c ∈ (escape mixedText).toList, isControl c = false) ∧
      Odd (backslashes "\\\\\\\"\\x01fé\\\\\\\\\\".toList) ∧ literalValue? (escape mixedText) = some mixedText := by
  obtain ⟨hcontrol, hquotes, hvalue⟩ := escape_reversible mixedText
  exact ⟨hcontrol, hquotes _ _ escape_mixedText, hvalue⟩

end ProtoRecovery.Schema
