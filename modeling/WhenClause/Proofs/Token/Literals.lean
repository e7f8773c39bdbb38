import WhenClause.Proofs.Number.Written
import WhenClause.Proofs.Text.Quoted
import WhenClause.Proofs.Token.Words

set_option autoImplicit false

/-! # Literals among the tokens

The text of null, of a boolean, of a finite number and of a string is one token, and its lexeme is
the literal (`taken_word`, `taken_valueText`, `taken_encode`). A number and a word must be followed
by what they do not go on with, and inside the text of a value they are followed by a comma, a
closing bracket or brace, or nothing (`EndsItem`). -/

namespace WhenClause.Lexer

open Decimal (isDigit natOfDigits signText positional)

/-! ## What stands behind the text of a value -/

/-- A character that stands behind an item of an array or a field of a record. -/
def isEnd (c : Char) : Bool := c == ',' || c == ']' || c == '\x7d'

/-- The text is empty, or begins with a character that stands behind an item or a field. -/
def EndsItem (r : List Char) : Prop := r.head?.all isEnd = true

variable {r : List Char}

theorem endsItem_nil : EndsItem [] := rfl

theorem isEnd_cases {d : Char} (hd : isEnd d = true) : d = ',' ∨ d = ']' ∨ d = '\x7d' := by
  simpa [isEnd, or_assoc] using hd

/-- What does not hold of the comma and the two closing characters does not hold of what stands
behind the text of a value. -/
theorem EndsItem.head?_any (hr : EndsItem r) {p : Char → Bool}
    (hp : ∀ d, isEnd d = true → p d = false) : r.head?.any p = false := by
  cases r with
  | nil => rfl
  | cons d after =>
      have hd : isEnd d = true := by simpa [EndsItem] using hr
      simpa using hp d hd

theorem isDigit_end (d : Char) (hd : isEnd d = true) : isDigit d = false := by
  rcases isEnd_cases hd with rfl | rfl | rfl <;> rfl

theorem startsWord_end (d : Char) (hd : isEnd d = true) : startsWord d = false := by
  rcases isEnd_cases hd with rfl | rfl | rfl <;> rfl

theorem continuesWord_end (d : Char) (hd : isEnd d = true) : continuesWord d = false := by
  rcases isEnd_cases hd with rfl | rfl | rfl <;> rfl

/-! ## Numerals -/

/-- Digits as they stand behind a point, if there are any. -/
def pointText : List Char → List Char
  | [] => []
  | d :: ds => '.' :: d :: ds

/-- A sign, digits, and a point with digits if there are more. -/
def numeralText (negative : Bool) (whole part : List Char) : List Char :=
  signText negative ++ (whole ++ pointText part)

theorem splitPart_pointText (hr : EndsItem r) {part : List Char}
    (hpart : ∀ c ∈ part, isDigit c = true) : splitPart (pointText part ++ r) = (part, r) := by
  cases part with
  | nil =>
      cases r with
      | nil => rfl
      | cons d after =>
          have hd : isEnd d = true := by simpa [EndsItem] using hr
          rcases isEnd_cases hd with rfl | rfl | rfl <;> rfl
  | cons d ds =>
      obtain ⟨htake, hdrop⟩ := takeWhile_stop hpart (hr.head?_any isDigit_end)
      have hcount : 0 < digitCount (d :: ds ++ r) := by
        rw [digitCount, htake]
        exact Nat.succ_pos ds.length
      have hsplit : splitPart ('.' :: (d :: ds ++ r))
          = ((d :: ds ++ r).takeWhile isDigit, (d :: ds ++ r).dropWhile isDigit) := if_pos hcount
      rw [htake, hdrop] at hsplit
      exact hsplit

theorem splitExponent_end (hr : EndsItem r) : splitExponent r = .ok (0, r) := by
  cases r with
  | nil => rfl
  | cons d after =>
      have hd : isEnd d = true := by simpa [EndsItem] using hr
      rcases isEnd_cases hd with rfl | rfl | rfl <;> rfl

/-- **A numeral is cut off whole.** -/
theorem splitNumeral_numeralText (hr : EndsItem r) (negative : Bool) {whole part : List Char}
    (hne : whole ≠ []) (hwhole : ∀ c ∈ whole, isDigit c = true)
    (hpart : ∀ c ∈ part, isDigit c = true) :
    splitNumeral (numeralText negative whole part ++ r)
      = .ok (⟨negative, whole, part, 0⟩, r) := by
  have hstop : (pointText part ++ r).head?.any isDigit = false := by
    cases part with
    | nil => exact hr.head?_any isDigit_end
    | cons d ds => rfl
  obtain ⟨htake, hdrop⟩ := takeWhile_stop hwhole hstop
  have hunsigned : splitUnsigned negative (whole ++ (pointText part ++ r))
      = .ok (⟨negative, whole, part, 0⟩, r) := by
    unfold splitUnsigned
    rw [htake, hdrop, splitPart_pointText hr hpart]
    show (splitExponent r >>= _) = _
    rw [splitExponent_end hr]
    show (if r.head?.any startsWord then _ else _) = _
    rw [hr.head?_any startsWord_end]
    rfl
  rw [numeralText, List.append_assoc, List.append_assoc]
  cases negative with
  | true => exact hunsigned
  | false =>
      obtain ⟨c, ds, rfl⟩ := List.exists_cons_of_ne_nil hne
      have hminus : c ≠ '-' := by
        rintro rfl
        exact absurd (hwhole '-' List.mem_cons_self) (by decide)
      exact (splitNumeral_unsigned (by simpa [signText] using hminus)).trans hunsigned

/-- The text of a numeral stands for the decimal of its parts. -/
theorem read?_numeralText (negative : Bool) {whole part : List Char} (hne : whole ≠ [])
    (hwhole : ∀ c ∈ whole, isDigit c = true) (hpart : ∀ c ∈ part, isDigit c = true) :
    Number.read? (numeralText negative whole part)
      = some (Numeral.mk negative whole part 0).decimal.toNumber := by
  have hunsigned : Decimal.readUnsigned? negative (whole ++ pointText part)
      = some (Numeral.mk negative whole part 0).decimal := by
    cases part with
    | nil =>
        rw [pointText, List.append_nil, Decimal.readUnsigned?_digits negative hne hwhole]
        simp [Numeral.decimal]
    | cons d ds =>
        rw [pointText, Decimal.readUnsigned?_point negative hne hwhole hpart]
        simp [Numeral.decimal]
  obtain ⟨c, ds, rfl⟩ := List.exists_cons_of_ne_nil hne
  have hc : isDigit c = true := hwhole c List.mem_cons_self
  rw [List.cons_append] at hunsigned
  rw [Number.read?, numeralText, List.cons_append, Decimal.readSign_signText negative hc]
  simp only [hunsigned]

/-! ## The text of a number -/

/-- The positional text of a number is made of digits and a point with digits behind it. -/
theorem positional_eq (digits : Nat) (e : Int) :
    ∃ whole part, positional digits e = whole ++ pointText part ∧ whole ≠ [] ∧
      (∀ c ∈ whole, isDigit c = true) ∧ ∀ c ∈ part, isDigit c = true := by
  rcases le_or_gt 0 e with he | he
  · have hne : Decimal.digitsOfNat digits ≠ [] := Nat.toDigits_ne_nil
    rw [Decimal.positional_of_nonneg digits he]
    refine ⟨_, [], (List.append_nil _).symm, by simp [hne], ?_, List.forall_mem_nil _⟩
    exact List.forall_mem_append.mpr ⟨fun c hc => Decimal.isDigit_of_mem_digitsOfNat hc,
      fun c hc => Decimal.isDigit_of_mem_zeros hc⟩
  · obtain ⟨whole, part, htext, hne, hwhole, hpart, -, hlength⟩ :=
      Decimal.positional_of_neg digits he
    obtain ⟨d, ds, rfl⟩ : ∃ d ds, part = d :: ds := by
      refine List.exists_cons_of_length_pos ?_
      omega
    exact ⟨whole, d :: ds, htext, hne, hwhole, hpart⟩

/-- The text of a finite number inside a value is that of a numeral. -/
theorem valueText_eq {x : Number} (hfin : x.isFinite = true) :
    ∃ negative whole part, x.valueText = numeralText negative whole part ∧ whole ≠ [] ∧
      (∀ c ∈ whole, isDigit c = true) ∧ ∀ c ∈ part, isDigit c = true := by
  unfold Number.valueText
  split
  next i _ =>
    refine ⟨i < 0, Decimal.digitsOfNat i.natAbs, [], ?_, Nat.toDigits_ne_nil,
      fun c hc => Decimal.isDigit_of_mem_digitsOfNat hc, List.forall_mem_nil _⟩
    rw [Decimal.intText_eq, numeralText, pointText, List.append_nil]
  next =>
    obtain ⟨whole, part, htext, hne, hwhole, hpart⟩ :=
      positional_eq (x.shortest .up).digits (x.shortest .up).exponent
    refine ⟨x.negative, whole, part, ?_, hne, hwhole, hpart⟩
    rw [Number.text_eq (Number.isNaN_of_isFinite hfin), if_pos hfin, htext, numeralText]

/-! ## Lexemes -/

/-- A text that is one lexeme, whatever of the given kind stands behind it. -/
def Taken (admits : List Char → Prop) (l : Lexeme) (s : List Char) : Prop :=
  ∃ c rest, s = c :: rest ∧ Text.isBlank c = false ∧
    ∀ r, admits r → lexeme c (rest ++ r) = .ok (l, rest.length)

/-- A lexeme is a token, and the tokens behind it are those of the text behind. -/
theorem Taken.scan {admits : List Char → Prop} {l : Lexeme} {s : List Char} (h : Taken admits l s)
    (hr : admits r) (offset : Nat) :
    scan offset (s ++ r) =
      (scan (offset + byteLength s) r).map (⟨l, offset, offset + byteLength s⟩ :: ·) := by
  obtain ⟨c, rest, rfl, hblank, hl⟩ := h
  rw [List.cons_append, scan_lexeme hblank (hl r hr), List.take_left, List.drop_left]

/-- A string is taken whole, whatever stands behind it. -/
theorem taken_encode (s : String) :
    Taken (fun _ => True) (.string s) (Text.Quoted.encode s.toList) := by
  refine ⟨'"', Text.Quoted.body s.toList ++ ['"'], rfl, rfl, fun r _ => ?_⟩
  have hsymbol : ∀ rest, symbol? '"' rest = none := by
    intro rest
    cases rest <;> simp [symbol?, doubleSymbol?, singleSymbol?]
  have hbody := Text.Quoted.stringBody_body s.toList r
  rw [List.append_assoc, List.singleton_append, lexeme, hsymbol]
  simp only [hbody, Except.map]
  simp

/-- A word of letters is taken whole in front of what ends a value. -/
theorem taken_word {c : Char} {more : List Char} (hc : startsWord c = true)
    (hmore : more.all continuesWord = true) :
    Taken EndsItem (wordLexeme (String.ofList (c :: more))) (c :: more) := by
  refine ⟨c, more, rfl, isBlank_of_startsWord hc, fun r hr => ?_⟩
  have htake : (more ++ r).takeWhile continuesWord = more :=
    (takeWhile_stop (List.all_eq_true.mp hmore) (hr.head?_any continuesWord_end)).1
  rw [lexeme_of_startsWord hc, htake]

theorem taken_null : Taken EndsItem .null ['n', 'u', 'l', 'l'] := by
  have hlexeme : wordLexeme (String.ofList ['n', 'u', 'l', 'l']) = .null := by decide
  rw [← hlexeme]
  exact taken_word rfl rfl

theorem taken_true : Taken EndsItem (.bool true) ['t', 'r', 'u', 'e'] := by
  have hlexeme : wordLexeme (String.ofList ['t', 'r', 'u', 'e']) = .bool true := by decide
  rw [← hlexeme]
  exact taken_word rfl rfl

theorem taken_false : Taken EndsItem (.bool false) ['f', 'a', 'l', 's', 'e'] := by
  have hlexeme : wordLexeme (String.ofList ['f', 'a', 'l', 's', 'e']) = .bool false := by decide
  rw [← hlexeme]
  exact taken_word rfl rfl

theorem isBlank_of_isDigit {c : Char} (hc : isDigit c = true) : Text.isBlank c = false := by
  have hrange := isDigit_toNat hc
  simp only [Text.isBlank, Bool.or_eq_false_iff, Bool.and_eq_false_iff, decide_eq_false_iff_not,
    beq_eq_false_iff_ne]
  omega

/-- No symbol and no string starts as a number does. -/
theorem lexeme_of_startsNumber {c : Char} {rest : List Char} (h : startsNumber c rest = true) :
    lexeme c rest = (splitNumeral (c :: rest)).map fun (numeral, after) =>
      (.number numeral.decimal.toNumber, rest.length - after.length) := by
  have hlead : isDigit c = true ∨ c = '-' := by
    simp only [startsNumber, Bool.or_eq_true, Bool.and_eq_true, beq_iff_eq] at h
    exact h.imp_right And.left
  have hother : ∀ d : Char, isDigit d = false → d ≠ '-' → c ≠ d := by
    rintro d hd hminus rfl
    rcases hlead with hdigit | hdash
    · rw [hdigit] at hd
      cases hd
    · exact hminus hdash
  have hsymbol : symbol? c rest = none := by
    have hall : (symbolChars.all fun d => !isDigit d && d != '-') = true := rfl
    refine symbol?_eq_none (fun hmem => ?_) rest
    have hc : isDigit c = false ∧ c ≠ '-' := by simpa using List.all_eq_true.mp hall c hmem
    exact hother c hc.1 hc.2 rfl
  have hquote : ¬ (c = '"' ∨ c = '\x27') :=
    not_or.mpr ⟨hother '"' rfl (by decide), hother '\x27' rfl (by decide)⟩
  rw [lexeme, hsymbol]
  simp only [if_neg hquote, if_pos h]

/-- The text of a numeral is taken whole in front of what ends a value. -/
theorem taken_numeralText (negative : Bool) {whole part : List Char} (hne : whole ≠ [])
    (hwhole : ∀ c ∈ whole, isDigit c = true) (hpart : ∀ c ∈ part, isDigit c = true) :
    Taken EndsItem (.number (Numeral.mk negative whole part 0).decimal.toNumber)
      (numeralText negative whole part) := by
  obtain ⟨d, ds, rfl⟩ := List.exists_cons_of_ne_nil hne
  have hd : isDigit d = true := hwhole d List.mem_cons_self
  -- The text begins with a sign before a digit, or with a digit.
  obtain ⟨c, rest, htext, hblank, hstarts⟩ : ∃ c rest, numeralText negative (d :: ds) part
      = c :: rest ∧ Text.isBlank c = false ∧ ∀ r, startsNumber c (rest ++ r) = true := by
    cases negative with
    | true => exact ⟨'-', _, rfl, rfl, fun r => by simp [startsNumber, hd]⟩
    | false =>
        exact ⟨d, _, rfl, isBlank_of_isDigit hd, fun r => by simp [startsNumber, hd]⟩
  refine ⟨c, rest, htext, hblank, fun r hr => ?_⟩
  have hsplit := splitNumeral_numeralText hr negative hne hwhole hpart
  rw [htext, List.cons_append] at hsplit
  rw [lexeme_of_startsNumber (hstarts r), hsplit]
  simp [Except.map]

/-- **The text of a finite number is read as a number equal to it.** -/
theorem taken_valueText {x : Number} (hfin : x.isFinite = true) :
    ∃ y : Number, y.equal x = true ∧ Taken EndsItem (.number y) x.valueText := by
  obtain ⟨negative, whole, part, htext, hne, hwhole, hpart⟩ := valueText_eq hfin
  obtain ⟨y, hread, hequal⟩ := Number.read?_valueText (Number.isNaN_of_isFinite hfin)
  rw [htext, read?_numeralText negative hne hwhole hpart] at hread
  obtain rfl := Option.some.inj hread
  refine ⟨_, hequal, ?_⟩
  rw [htext]
  exact taken_numeralText negative hne hwhole hpart

end WhenClause.Lexer
