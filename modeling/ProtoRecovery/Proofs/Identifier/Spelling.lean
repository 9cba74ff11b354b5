import Mathlib
import ProtoRecovery.Identifier.Dictionary
import ProtoRecovery.Schema.Descriptor
/-!
# Names spelled back and forth

Properties run their words together, fields join them by underscores. Going from a property to a field and from there
to the entry message of a map gives the property again, so no two properties share a field name or an entry name; and
what was made of words in the first place comes back from the property.
-/

namespace ProtoRecovery.Identifier

/-- A name as properties have it: a capital first, and no underscores. -/
structure IsJoined (name : String) : Prop where
  capital : ∃ c rest, name.toList = c :: rest ∧ c.isUpper = true
  whole : '_' ∉ name.toList

/-- A word as names of fields have it: a small letter, and then small letters and digits. -/
def isWord (word : String) : Bool :=
  match word.toList with
  | [] => false
  | c :: rest => c.isLower && rest.all fun x => x.isLower || x.isDigit

/-! ## Single characters -/

theorem toUpper_of_isUpper {c : Char} (h : c.isUpper = true) : c.toUpper = c :=
  Char.toUpper_eq_of_not_isLower (Char.not_isLower_of_isUpper h)

theorem toUpper_toLower_of_isUpper {c : Char} (h : c.isUpper = true) : c.toLower.toUpper = c := by
  rw [Char.toUpper_toLower_eq_toUpper, toUpper_of_isUpper h]

theorem toLower_toUpper_of_isLower {c : Char} (h : c.isLower = true) : c.toUpper.toLower = c := by
  rw [Char.toLower_toUpper_eq_toLower, Char.toLower_eq_of_not_isUpper (Char.not_isUpper_of_isLower h)]

theorem isUpper_toUpper_of_isLower {c : Char} (h : c.isLower = true) : c.toUpper.isUpper = true := by
  simp [Char.isAlpha, h]

/-- Capitals and small letters are among the ASCII characters. -/
theorem lower_of_isUpper {c : Char} (h : c.isUpper = true) : Text.lower c = [c.toLower] := by
  have hrange : c.toNat < 0x80 := by
    simp [Char.isUpper, UInt32.le_iff_toNat_le] at h
    omega
  rw [Text.lower, if_pos hrange]

theorem isUpper_of_isDigit {c : Char} (h : c.isDigit = true) : c.isUpper = false := by
  simp [Char.isDigit, Char.isUpper, UInt32.le_iff_toNat_le] at h ⊢
  omega

theorem ne_underscore_of_isLower {c : Char} (h : c.isLower = true) : c ≠ '_' := by
  rintro rfl
  simp at h

theorem toLower_ne_underscore {c : Char} (h : c.isUpper = true) : c.toLower ≠ '_' := by
  apply ne_underscore_of_isLower
  simp [Char.isAlpha, h]

/-! ## From a property to its field and back -/

/-- Where there are no underscores, only capitals start words, and joining the words finds them all. -/
theorem joinWordsFrom_lowerTail {cs : List Char} (h : '_' ∉ cs) : joinWordsFrom false (lowerTail cs) = cs := by
  induction cs with
  | nil => rfl
  | cons c cs ih =>
    simp only [List.mem_cons, not_or] at h
    by_cases hc : c.isUpper = true
    · simp [lowerTail, joinWordsFrom, hc, toLower_ne_underscore hc, toUpper_toLower_of_isUpper hc, ih h.2]
    · simp [lowerTail, joinWordsFrom, hc, Ne.symm h.1, ih h.2]

theorem joinWordsFrom_whole {cs : List Char} (h : '_' ∉ cs) (rest : List Char) :
    joinWordsFrom false (cs ++ rest) = cs ++ joinWordsFrom false rest := by
  induction cs with
  | nil => rfl
  | cons c cs ih =>
    simp only [List.mem_cons, not_or] at h
    simp [joinWordsFrom, Ne.symm h.1, ih h.2]

theorem joinWords_lowerWords {p : String} (h : IsJoined p) : joinWords (lowerWords p) = p := by
  obtain ⟨c, rest, hp, hc⟩ := h.capital
  have hrest : '_' ∉ rest := fun hmem => h.whole (by simp [hp, hmem])
  have hchars : (lowerWords p).toList = c.toLower :: lowerTail rest := by
    simp [lowerWords, lowerWordsChars, hp, lower_of_isUpper hc]
  rw [joinWords, hchars]
  simp only [joinWordsFrom, if_neg (toLower_ne_underscore hc), if_true, toUpper_toLower_of_isUpper hc,
    joinWordsFrom_lowerTail hrest]
  rw [← hp, String.ofList_toList]

/-- Joining words leaves a joined name as it is. -/
theorem joinWords_of_isJoined {p : String} (h : IsJoined p) : joinWords p = p := by
  obtain ⟨c, rest, hp, hc⟩ := h.capital
  have hfirst : c ≠ '_' := by
    rintro rfl
    simp at hc
  have hrest : '_' ∉ rest := fun hmem => h.whole (by simp [hp, hmem])
  have hjoin := joinWordsFrom_whole hrest []
  rw [List.append_nil, joinWordsFrom, List.append_nil] at hjoin
  rw [joinWords, hp]
  simp only [joinWordsFrom, if_neg hfirst, if_true, toUpper_of_isUpper hc, hjoin]
  rw [← hp, String.ofList_toList]

/-- The field of a property that no dictionary knows, obfuscated or not, gives the property again. -/
theorem joinWords_fieldName {names : Option Dictionary} {p : String} (h : IsJoined p) (hnew : known? names p = none) :
    joinWords (fieldName names p) = p := by
  by_cases hob : isObfuscated p = true
  · simp [fieldName, fixed?, hnew, hob, joinWords_of_isJoined h]
  · simp [fieldName, fixed?, hnew, hob, joinWords_lowerWords h]

/-- An entry is named for the joined words of its field. -/
theorem apart_of_joinWords_ne {a b : String} (h : joinWords a ≠ joinWords b) :
    a ≠ b ∧ Schema.entryName a ≠ Schema.entryName b := by
  refine ⟨fun hab => h (congrArg joinWords hab), fun hab => h ?_⟩
  simpa [Schema.entryName, String.ext_iff] using hab

/-! ## From words to a property and back -/

theorem lowerTail_small {cs : List Char} (h : ∀ x ∈ cs, x.isUpper = false) (rest : List Char) :
    lowerTail (cs ++ rest) = cs ++ lowerTail rest := by
  induction cs with
  | nil => rfl
  | cons c cs ih =>
    simp only [List.mem_cons, forall_eq_or_imp] at h
    simp [lowerTail, h.1, ih h.2]

/-- The characters of a word. -/
theorem exists_of_isWord {word : String} (h : isWord word = true) :
    ∃ c rest, word.toList = c :: rest ∧ c.isLower = true ∧ '_' ∉ rest ∧ ∀ x ∈ rest, x.isUpper = false := by
  unfold isWord at h
  split at h
  · cases h
  · next c rest hchars =>
    simp only [Bool.and_eq_true, List.all_eq_true, Bool.or_eq_true] at h
    refine ⟨c, rest, hchars, h.1, fun hmem => ?_, fun x hx => ?_⟩
    · rcases h.2 _ hmem with hx | hx <;> simp at hx
    · rcases h.2 x hx with hx | hx
      · simpa using Char.not_isUpper_of_isLower hx
      · exact isUpper_of_isDigit hx

/-- The words after the first, each behind an underscore. -/
def furtherWords (words : List String) : List Char := words.flatMap fun w => '_' :: w.toList

theorem toList_intercalate_words (word : String) (words : List String) :
    ("_".intercalate (word :: words)).toList = word.toList ++ furtherWords words := by
  induction words generalizing word with
  | nil => simp [furtherWords]
  | cons next words ih =>
    rw [String.toList_intercalate, List.map_cons, List.map_cons, List.intercalate_cons_cons, ← List.map_cons,
      ← String.toList_intercalate, ih]
    simp [furtherWords]

/-- Each further word becomes one that starts with a capital, and that capital starts the word again. -/
theorem lowerTail_joinWordsFrom {words : List String} (h : ∀ w ∈ words, isWord w = true) :
    lowerTail (joinWordsFrom false (furtherWords words)) = furtherWords words := by
  induction words with
  | nil => rfl
  | cons word words ih =>
    simp only [List.mem_cons, forall_eq_or_imp] at h
    obtain ⟨c, rest, hword, hc, hrest, hsmall⟩ := exists_of_isWord h.1
    have hfurther : furtherWords (word :: words) = '_' :: c :: (rest ++ furtherWords words) := by
      simp [furtherWords, hword]
    rw [hfurther]
    simp [joinWordsFrom, ne_underscore_of_isLower hc, joinWordsFrom_whole hrest, lowerTail,
      isUpper_toUpper_of_isLower hc, toLower_toUpper_of_isLower hc, lowerTail_small hsmall, ih h.2]

theorem lowerWords_joinWords {words : List String} (hne : words ≠ []) (h : ∀ w ∈ words, isWord w = true) :
    lowerWords (joinWords ("_".intercalate words)) = "_".intercalate words := by
  obtain ⟨word, words, rfl⟩ := List.exists_cons_of_ne_nil hne
  simp only [List.mem_cons, forall_eq_or_imp] at h
  obtain ⟨c, rest, hword, hc, hrest, hsmall⟩ := exists_of_isWord h.1
  have hchars := toList_intercalate_words word words
  rw [hword, List.cons_append] at hchars
  have hjoined : (joinWords ("_".intercalate (word :: words))).toList =
      c.toUpper :: (rest ++ joinWordsFrom false (furtherWords words)) := by
    simp [joinWords, hchars, joinWordsFrom, ne_underscore_of_isLower hc, joinWordsFrom_whole hrest]
  apply String.toList_inj.1
  rw [hchars, lowerWords, hjoined]
  simp [lowerWordsChars, lower_of_isUpper (isUpper_toUpper_of_isLower hc), toLower_toUpper_of_isLower hc,
    lowerTail_small hsmall, lowerTail_joinWordsFrom h.2]

/-! ## Capitals -/

theorem upperTail_eq {cs : List Char} (h : ∀ c ∈ cs, c.toNat < 0x80) : upperTail cs = (lowerTail cs).map Char.toUpper := by
  induction cs with
  | nil => rfl
  | cons c cs ih =>
    simp only [List.mem_cons, forall_eq_or_imp] at h
    by_cases hc : c.isUpper = true
    · simp [upperTail, lowerTail, hc, ih h.2, toUpper_of_isUpper hc]
    · simp [upperTail, lowerTail, hc, ih h.2, Text.upper, h.1]

theorem upperWords_eq {p : String} (h : ∀ c ∈ p.toList, c.toNat < 0x80) :
    upperWords p = (lowerWords p).map Char.toUpper := by
  apply String.toList_inj.1
  rw [String.toList_map, upperWords, lowerWords, String.toList_ofList, String.toList_ofList]
  cases hp : p.toList with
  | nil => rfl
  | cons c cs =>
    simp only [hp, List.mem_cons, forall_eq_or_imp] at h
    simp [upperWordsChars, lowerWordsChars, Text.upper, Text.lower, h.1, upperTail_eq h.2]

/-! ## All of it -/

/-- Fields and properties spell each other back: a property comes back from its field, so different properties have
fields and map entries of different names, and a field made of words comes back from its property. In capitals a name
is what it is in small letters. -/
theorem spellings_inverse :
    (∀ p, IsJoined p → joinWords (lowerWords p) = p) ∧
    (∀ p q, IsJoined p → IsJoined q → p ≠ q →
      lowerWords p ≠ lowerWords q ∧ Schema.entryName (lowerWords p) ≠ Schema.entryName (lowerWords q) ∧
      ∀ names, known? names p = none → known? names q = none → fieldName names p ≠ fieldName names q ∧
        Schema.entryName (fieldName names p) ≠ Schema.entryName (fieldName names q)) ∧
    (∀ words : List String, words ≠ [] → (∀ w ∈ words, isWord w = true) →
      lowerWords (joinWords ("_".intercalate words)) = "_".intercalate words) ∧
    (∀ p : String, (∀ c ∈ p.toList, c.toNat < 0x80) → upperWords p = (lowerWords p).map Char.toUpper) := by
  refine ⟨fun p => joinWords_lowerWords, fun p q hp hq hne => ?_, fun words => lowerWords_joinWords,
    fun p => upperWords_eq⟩
  have hwords : joinWords (lowerWords p) ≠ joinWords (lowerWords q) := by
    rwa [joinWords_lowerWords hp, joinWords_lowerWords hq]
  refine ⟨(apart_of_joinWords_ne hwords).1, (apart_of_joinWords_ne hwords).2, fun names hnewp hnewq => ?_⟩
  apply apart_of_joinWords_ne
  rwa [joinWords_fieldName hp hnewp, joinWords_fieldName hq hnewq]

/-- Names that differ in one capital, words with digits, and a name with both capitals and an underscore. -/
theorem spellings_inverse_samples :
    IsJoined "HTTPÜber2Id" ∧ IsJoined "HttpÜber2Id" ∧ lowerWords "HTTPÜber2Id" = "h_t_t_pÜber2_id" ∧
      joinWords (lowerWords "HTTPÜber2Id") = "HTTPÜber2Id" ∧
      fieldName none "HTTPÜber2Id" ≠ fieldName none "HttpÜber2Id" ∧
      lowerWords (joinWords ("_".intercalate ["x2", "y", "z3w"])) = "_".intercalate ["x2", "y", "z3w"] ∧
      upperWords "aB_c9D" = (lowerWords "aB_c9D").map Char.toUpper := by
  obtain ⟨hback, hdistinct, hwords, hupper⟩ := spellings_inverse
  have hfirst : IsJoined "HTTPÜber2Id" :=
    ⟨⟨'H', "TTPÜber2Id".toList, by decide +kernel, rfl⟩, by decide +kernel⟩
  have hsecond : IsJoined "HttpÜber2Id" :=
    ⟨⟨'H', "ttpÜber2Id".toList, by decide +kernel, rfl⟩, by decide +kernel⟩
  obtain ⟨-, -, hfields⟩ := hdistinct _ _ hfirst hsecond (by decide)
  exact ⟨hfirst, hsecond, by decide +kernel, hback _ hfirst, (hfields none rfl rfl).1,
    hwords ["x2", "y", "z3w"] (by decide) (by decide +kernel), hupper "aB_c9D" (by simp)⟩

end ProtoRecovery.Identifier
