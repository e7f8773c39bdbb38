import WhenClause.Proofs.Token.Concatenation

set_option autoImplicit false

/-! # Words among the tokens

A word starts with a letter, an underscore or a dollar sign, goes on with these and with digits,
and is not spelled as one of the three literals. Every word is read as itself, up to the first
character that it does not go on with (`scan_word`), and nothing else is read as a word
(`scan_spelled`). -/

namespace WhenClause.Lexer

/-- The name is spelled as a word, which may be a literal. -/
def isSpelling (name : String) : Bool :=
  match name.toList with
  | [] => false
  | c :: more => startsWord c && more.all continuesWord

/-- The name is spelled as a word that is no literal. -/
def isWord (name : String) : Bool :=
  match name.toList with
  | [] => false
  | c :: more =>
      startsWord c && more.all continuesWord &&
        (name != "true" && name != "false" && name != "null")

/-- Every word among the lexemes is spelled as one. -/
def Spelled (t : Token) : Prop := ∀ name, t.lexeme = .word name → isWord name = true

/-! ## The first character -/

/-- A character that starts a word is none that anything else starts with. -/
theorem startsWord_ne {c d : Char} (hc : startsWord c = true) (hd : startsWord d = false) :
    c ≠ d := by
  rintro rfl
  rw [hc] at hd
  cases hd

/-- Letters and the underscore lie between `A` and `z`. -/
theorem startsWord_toNat {c : Char} (hc : startsWord c = true) :
    c.toNat = 0x24 ∨ 0x41 ≤ c.toNat ∧ c.toNat ≤ 0x7A := by
  simp only [startsWord, Bool.or_eq_true, Bool.and_eq_true, decide_eq_true_eq, beq_iff_eq,
    Char.le_def, UInt32.le_iff_toNat_le] at hc
  rcases hc with ((⟨hlow, hhigh⟩ | ⟨hlow, hhigh⟩) | rfl) | rfl
  · change 0x61 ≤ c.toNat at hlow
    change c.toNat ≤ 0x7A at hhigh
    omega
  · change 0x41 ≤ c.toNat at hlow
    change c.toNat ≤ 0x5A at hhigh
    omega
  · decide
  · decide

theorem isBlank_of_startsWord {c : Char} (hc : startsWord c = true) : Text.isBlank c = false := by
  have hrange := startsWord_toNat hc
  simp only [Text.isBlank, Bool.or_eq_false_iff, Bool.and_eq_false_iff, decide_eq_false_iff_not,
    beq_eq_false_iff_ne]
  omega

theorem isDigit_toNat {c : Char} (hc : Decimal.isDigit c = true) :
    0x30 ≤ c.toNat ∧ c.toNat ≤ 0x39 := by
  simp only [Decimal.isDigit, Bool.and_eq_true, decide_eq_true_eq, Char.le_def,
    UInt32.le_iff_toNat_le] at hc
  exact hc

theorem isDigit_of_startsWord {c : Char} (hc : startsWord c = true) :
    Decimal.isDigit c = false := by
  have hrange := startsWord_toNat hc
  rw [Bool.eq_false_iff]
  intro hdigit
  have hdigits := isDigit_toNat hdigit
  omega

def symbolChars : List Char :=
  ['(', ')', '[', ']', '\x7b', '\x7d', ',', ':', '.', '!', '<', '>', '&', '|', '=']

/-- No symbol starts with a character that none is made of. -/
theorem symbol?_eq_none {c : Char} (hc : c ∉ symbolChars) (rest : List Char) :
    symbol? c rest = none := by
  have hne : ∀ d ∈ symbolChars, c ≠ d := by
    rintro d hd rfl
    exact hc hd
  have hdouble (d : Char) : doubleSymbol? c d = none := by
    simp [doubleSymbol?, hne '&' (by decide), hne '|' (by decide), hne '=' (by decide),
      hne '!' (by decide), hne '<' (by decide), hne '>' (by decide)]
  have hsingle : singleSymbol? c = none := by
    unfold singleSymbol?
    split <;> first | exact absurd rfl (hne _ (by decide)) | rfl
  cases rest with
  | nil => simp [symbol?, hsingle]
  | cons d rest => simp [symbol?, hdouble, hsingle]

theorem symbol?_of_startsWord {c : Char} (hc : startsWord c = true) (rest : List Char) :
    symbol? c rest = none := by
  have hall : (symbolChars.all fun d => !startsWord d) = true := rfl
  refine symbol?_eq_none (fun hmem => ?_) rest
  have hword : startsWord c = false := by simpa using List.all_eq_true.mp hall c hmem
  rw [hword] at hc
  cases hc

/-! ## Words are read as themselves -/

theorem isSpelling_cons {name : String} (h : isSpelling name = true) :
    ∃ c more, name.toList = c :: more ∧ startsWord c = true ∧
      ∀ d ∈ more, continuesWord d = true := by
  unfold isSpelling at h
  split at h
  · cases h
  next c more hname =>
    simp only [Bool.and_eq_true, List.all_eq_true] at h
    exact ⟨c, more, hname, h⟩

/-- Words are the spellings that are no literal. -/
theorem isWord_eq (name : String) :
    isWord name = (isSpelling name && (name != "true" && name != "false" && name != "null")) := by
  unfold isWord isSpelling
  split <;> rfl

theorem isWord_cons {name : String} (h : isWord name = true) :
    ∃ c more, name.toList = c :: more ∧ startsWord c = true ∧
      (∀ d ∈ more, continuesWord d = true) ∧ wordLexeme name = .word name := by
  simp only [isWord_eq, Bool.and_eq_true, bne_iff_ne] at h
  obtain ⟨hspelling, ⟨htrue, hfalse⟩, hnull⟩ := h
  obtain ⟨c, more, hname, hc, hmore⟩ := isSpelling_cons hspelling
  exact ⟨c, more, hname, hc, hmore, by simp [wordLexeme, htrue, hfalse, hnull]⟩

/-- Where a word starts and no number does, a word is taken. -/
theorem lexeme_of_startsWord {c : Char} (hc : startsWord c = true) (rest : List Char) :
    lexeme c rest = .ok (wordLexeme (String.ofList (c :: rest.takeWhile continuesWord)),
      (rest.takeWhile continuesWord).length) := by
  have hquote : ¬ (c = '"' ∨ c = '\x27') := by
    rintro (rfl | rfl) <;> exact absurd hc (by decide)
  have hnumber : startsNumber c rest = false := by
    have hminus : c ≠ '-' := startsWord_ne hc (d := '-') rfl
    simp [startsNumber, isDigit_of_startsWord hc, hminus]
  unfold lexeme
  rw [symbol?_of_startsWord hc]
  simp [hquote, hnumber, hc]

/-- The text behind a run of characters does not go on with it. -/
theorem dropWhile_stop {p : Char → Bool} {s r : List Char} {c : Char}
    (h : s.dropWhile p = c :: r) : p c = false := by
  have hhead := List.head?_dropWhile_not p s
  rw [h] at hhead
  simpa using hhead

/-- A run of characters ends where a text follows that does not go on with it. -/
theorem takeWhile_stop {p : Char → Bool} {s r : List Char} (hs : ∀ c ∈ s, p c = true)
    (hr : r.head?.any p = false) :
    (s ++ r).takeWhile p = s ∧ (s ++ r).dropWhile p = r := by
  rw [List.takeWhile_append_of_pos hs, List.dropWhile_append_of_pos hs]
  cases r with
  | nil => exact ⟨List.append_nil s, rfl⟩
  | cons d after =>
      have hd : p d = false := by simpa using hr
      simp [hd]

/-- What is spelled as a word is one token, up to the first character that a word does not go on
with. -/
theorem scan_spelling {name : String} (hname : isSpelling name = true) {r : List Char}
    (hr : r.head?.any continuesWord = false) (offset : Nat) :
    scan offset (name.toList ++ r) =
      (scan (offset + byteLength name.toList) r).map
        (⟨wordLexeme name, offset, offset + byteLength name.toList⟩ :: ·) := by
  obtain ⟨c, more, htext, hc, hmore⟩ := isSpelling_cons hname
  have htake : (more ++ r).takeWhile continuesWord = more := (takeWhile_stop hmore hr).1
  have hl : lexeme c (more ++ r) = .ok (wordLexeme name, more.length) := by
    rw [lexeme_of_startsWord hc, htake, ← htext, String.ofList_toList]
  rw [htext, List.cons_append, scan_lexeme (isBlank_of_startsWord hc) hl, List.take_left,
    List.drop_left]

/-- **A word is read as itself**, up to the first character that it does not go on with. -/
theorem scan_word {name : String} (hname : isWord name = true) {r : List Char}
    (hr : r.head?.any continuesWord = false) (offset : Nat) :
    scan offset (name.toList ++ r) =
      (scan (offset + byteLength name.toList) r).map
        (⟨.word name, offset, offset + byteLength name.toList⟩ :: ·) := by
  obtain ⟨-, -, -, -, -, hlexeme⟩ := isWord_cons hname
  rw [isWord_eq, Bool.and_eq_true] at hname
  rw [scan_spelling hname.1 hr, hlexeme]

/-! ## Nothing else is read as a word -/

/-- A spelling is a word or one of three literals. -/
theorem wordLexeme_cases (name : String) :
    wordLexeme name = .word name ∨ name = "true" ∧ wordLexeme name = .bool true ∨
      name = "false" ∧ wordLexeme name = .bool false ∨ name = "null" ∧ wordLexeme name = .null := by
  by_cases htrue : name = "true"
  · subst htrue
    exact Or.inr (Or.inl ⟨rfl, rfl⟩)
  by_cases hfalse : name = "false"
  · subst hfalse
    exact Or.inr (Or.inr (Or.inl ⟨rfl, rfl⟩))
  by_cases hnull : name = "null"
  · subst hnull
    exact Or.inr (Or.inr (Or.inr ⟨rfl, rfl⟩))
  · exact Or.inl (by simp [wordLexeme, htrue, hfalse, hnull])

theorem wordLexeme_eq_word {name name' : String} (h : wordLexeme name = .word name') :
    name = name' ∧ name ≠ "true" ∧ name ≠ "false" ∧ name ≠ "null" := by
  unfold wordLexeme at h
  split at h
  · cases h
  split at h
  · cases h
  split at h
  · cases h
  · cases h
    exact ⟨rfl, ‹_›, ‹_›, ‹_›⟩

/-- As a key of a record every spelling stands for itself. -/
theorem recordKey?_wordLexeme (key : String) : (wordLexeme key).recordKey? = some key := by
  rcases wordLexeme_cases key with h | ⟨rfl, h⟩ | ⟨rfl, h⟩ | ⟨rfl, h⟩ <;> rw [h] <;> rfl

/-- Only strings and spellings can be keys of a record. -/
theorem lexeme_of_recordKey? {c : Char} {rest : List Char} {l : Lexeme} {n : Nat} {key : String}
    (h : lexeme c rest = .ok (l, n)) (hkey : l.recordKey? = some key) :
    (c = '"' ∨ c = '\x27') ∧ l = .string key ∨ isSpelling key = true ∧ l = wordLexeme key := by
  cases hc : startsWord c with
  | false =>
      -- What starts otherwise is a symbol, a string or a number.
      unfold lexeme at h
      split at h
      · cases h
        cases hkey
      split at h
      · obtain ⟨_, -, hmap⟩ := map_eq_ok h
        cases hmap
        cases hkey
        exact Or.inl ⟨‹_›, rfl⟩
      split at h
      · obtain ⟨_, -, hmap⟩ := map_eq_ok h
        cases hmap
        cases hkey
      rw [if_neg (by simp [hc])] at h
      cases h
  | true =>
      rw [lexeme_of_startsWord hc] at h
      cases h
      rw [recordKey?_wordLexeme] at hkey
      cases hkey
      exact Or.inr ⟨by simp only [isSpelling, String.toList_ofList, hc, List.all_takeWhile,
        Bool.and_self], rfl⟩

/-- A lexeme that is a word is spelled as one. -/
theorem isWord_of_lexeme {c : Char} {rest : List Char} {name : String} {n : Nat}
    (h : lexeme c rest = .ok (.word name, n)) : isWord name = true := by
  rcases lexeme_of_recordKey? h rfl with ⟨-, hstring⟩ | ⟨hspelling, hword⟩
  · cases hstring
  · obtain ⟨-, htrue, hfalse, hnull⟩ := wordLexeme_eq_word hword.symm
    simp only [isWord_eq, hspelling, bne_iff_ne.mpr htrue, bne_iff_ne.mpr hfalse,
      bne_iff_ne.mpr hnull, Bool.and_self]

/-- **Nothing else is read as a word.** -/
theorem scan_spelled {offset : Nat} {s : List Char} {ts : List Token}
    (h : scan offset s = .ok ts) : ∀ t ∈ ts, Spelled t := by
  match s with
  | [] =>
      rw [scan_nil] at h
      cases h
      exact fun t ht => absurd ht List.not_mem_nil
  | c :: rest =>
      cases hc : Text.isBlank c with
      | true =>
          rw [scan_blank hc] at h
          exact scan_spelled h
      | false =>
          obtain ⟨l, n, after, hl, hafter, rfl⟩ := scan_eq_ok hc h
          intro t ht
          rcases List.mem_cons.mp ht with rfl | ht
          · rintro name rfl
            exact isWord_of_lexeme hl
          · exact scan_spelled hafter t ht
termination_by s.length
decreasing_by all_goals simp only [List.length_drop, List.length_cons]; omega

end WhenClause.Lexer
