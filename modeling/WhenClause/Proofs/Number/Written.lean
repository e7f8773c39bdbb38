import Mathlib
import WhenClause.Number.Reading
import WhenClause.Proofs.Number.Rounding
import WhenClause.Value.Text

set_option autoImplicit false

/-! # Written numbers are read back

The text of a number is its shortest decimal, and reading that decimal gives the number again
(`Number.read?_text`). The text of a number inside a value leaves the sign of zero out, so it is
read as a number that is equal (`Number.read?_valueText`). Two numbers therefore share a text
exactly when they are equal or both are NaN (`Number.valueText_eq_iff`). -/

/-! ## The shortest decimal -/

namespace WhenClause.Number

/-- What the test of the grid finds lies in the interval. -/
theorem Interval.holds_of_contains {i : Interval} {c : Nat} {e : Int} (hden : 0 < i.den)
    (h : i.contains c e = true) : i.Holds (c * 10 ^ e) := by
  have hden' : (0 : ℚ) < i.den := by exact_mod_cast hden
  have hunit : (0 : ℚ) < ((10 ^ (-e).toNat : Nat) : ℚ) := by positivity
  unfold Interval.Holds
  rw [← cast_decimal, div_le_div_iff₀ hden' hunit, div_le_div_iff₀ hunit hden',
    div_lt_div_iff₀ hden' hunit, div_lt_div_iff₀ hunit hden']
  simp only [Interval.contains] at h
  split at h
  next hclosed =>
    simp only [Bool.and_eq_true, decide_eq_true_eq] at h
    exact ⟨⟨by exact_mod_cast h.1, by exact_mod_cast h.2⟩, Or.inl hclosed⟩
  next =>
    simp only [Bool.and_eq_true, decide_eq_true_eq] at h
    exact ⟨⟨by exact_mod_cast h.1.le, by exact_mod_cast h.2.le⟩,
      Or.inr ⟨by exact_mod_cast h.1, by exact_mod_cast h.2⟩⟩

/-- The decimal of a grid that is nearest lies in the interval. -/
theorem Interval.contains_of_nearest? {i : Interval} {tie : Tie} {e : Int} {c : Nat}
    (h : i.nearest? tie e = some c) : i.contains c e = true := by
  have either {a b : Nat} (ha : i.contains a e = true) (hb : i.contains b e = true)
      (upper : Bool) : i.contains (if upper then b else a) e = true := by
    cases upper <;> assumption
  simp only [Interval.nearest?] at h
  split at h
  next hlow hhigh =>
    rw [Bool.and_eq_true] at hlow
    rw [← Option.some.inj h]
    exact either hlow.1 hhigh _
  next hlow _ =>
    rw [Bool.and_eq_true] at hlow
    rw [← Option.some.inj h]
    exact hlow.1
  next hhigh =>
    rw [← Option.some.inj h]
    exact hhigh
  next => exact absurd h (by simp)

/-- The exact decimal of a number has its absolute value. -/
theorem exact_absValue (x : Number) : x.exact.absValue = x.absValue := by
  unfold exact Decimal.absValue absValue
  obtain ⟨n, hn | hn⟩ := x.scale.eq_nat_or_neg
  · rw [hn]
    simp
  · have hmin : min (-(n : Int)) 0 = -(n : Int) := by omega
    have hten : (10 : ℚ) ^ n = 2 ^ n * 5 ^ n := by rw [← mul_pow]; norm_num
    rw [hn, hmin]
    simp only [neg_neg, Int.toNat_natCast, zpow_neg, zpow_natCast, hten,
      show (-(n : Int)).toNat = 0 by omega]
    push_cast
    field_simp

/-- **The shortest decimal** of a finite number other than zero lies in its interval. -/
theorem shortest_holds {x : Number} (hzero : x.isZero = false) (tie : Tie) :
    x.interval.Holds (x.shortest tie).absValue := by
  have hden : 0 < x.interval.den := by
    unfold interval
    positivity
  unfold shortest
  rw [if_neg (by simp [hzero])]
  simp only
  split
  next c e hfound =>
    obtain ⟨k, -, hk⟩ := List.exists_of_findSome?_eq_some hfound
    obtain ⟨c', hc', hpair⟩ := Option.map_eq_some_iff.mp hk
    obtain ⟨rfl, rfl⟩ := Prod.mk.inj hpair
    have hmem := Interval.holds_of_contains hden (Interval.contains_of_nearest? hc')
    split
    next hten =>
      -- One with the next exponent stands for ten.
      rw [hten] at hmem
      unfold Decimal.absValue
      rw [zpow_add_one₀ (by norm_num)]
      convert hmem using 1
      push_cast
      ring
    next => exact hmem
  next =>
    rw [exact_absValue]
    exact absValue_mem hzero

/-- The shortest decimal has the sign of its number. -/
theorem shortest_negative (tie : Tie) (x : Number) : (x.shortest tie).negative = x.negative := by
  unfold shortest
  split
  · rfl
  · simp only
    split
    · split <;> rfl
    · rfl

/-- **Reading the shortest decimal** of a finite number other than zero gives the number. -/
theorem toNumber_shortest {x : Number} (hfin : x.isFinite = true) (hzero : x.isZero = false)
    (tie : Tie) : (x.shortest tie).toNumber = x :=
  Decimal.toNumber_eq hfin hzero (shortest_negative tie x) (shortest_holds hzero tie)

end WhenClause.Number

/-! ## Positional texts -/

namespace WhenClause.Decimal

/-- The digits of a natural number are digits. -/
theorem isDigit_of_mem_digitsOfNat {n : Nat} {c : Char} (h : c ∈ digitsOfNat n) :
    isDigit c = true := by
  have hc := Nat.isDigit_of_mem_toDigits (by decide) (by decide) h
  simp only [Char.isDigit, Bool.and_eq_true, decide_eq_true_eq] at hc
  simp only [isDigit, Bool.and_eq_true, decide_eq_true_eq]
  exact hc

/-- The digits of a natural number are read as that number. -/
@[simp] theorem natOfDigits_digitsOfNat (n : Nat) : natOfDigits (digitsOfNat n) = n :=
  Nat.ofDigitChars_ten_toDigits

/-- Zeros after digits multiply by a power of ten. -/
theorem natOfDigits_append_zeros (ds : List Char) (k : Nat) :
    natOfDigits (ds ++ List.replicate k '0') = natOfDigits ds * 10 ^ k := by
  have h := Nat.ofDigitChars_append (b := 10) (l := ds) (m := List.replicate k '0') 0
  rw [Nat.ofDigitChars_replicate_zero, Nat.mul_comm] at h
  exact h

/-- Zeros before digits do not count. -/
theorem natOfDigits_zeros_append (ds : List Char) (k : Nat) :
    natOfDigits (List.replicate k '0' ++ ds) = natOfDigits ds := by
  have h := Nat.ofDigitChars_append (b := 10) (l := List.replicate k '0') (m := ds) 0
  rw [Nat.ofDigitChars_replicate_zero, Nat.mul_zero] at h
  exact h

/-- A numeral without exponent and point is read as its digits. -/
theorem readUnsigned?_digits (negative : Bool) {ds : List Char} (hne : ds ≠ [])
    (hds : ∀ c ∈ ds, isDigit c = true) :
    readUnsigned? negative ds = some ⟨negative, natOfDigits ds, 0⟩ := by
  have htake : ds.takeWhile isDigit = ds := List.takeWhile_eq_self_iff.mpr hds
  have hdrop : ds.dropWhile isDigit = [] := List.dropWhile_eq_nil_iff.mpr hds
  have hempty : ds.isEmpty = false := by simpa using hne
  simp [readUnsigned?, htake, hdrop, hempty, readExponent?]

/-- A numeral without exponent is read as the digits on both sides of its point. -/
theorem readUnsigned?_point (negative : Bool) {whole part : List Char} (hne : whole ≠ [])
    (hwhole : ∀ c ∈ whole, isDigit c = true) (hpart : ∀ c ∈ part, isDigit c = true) :
    readUnsigned? negative (whole ++ '.' :: part)
      = some ⟨negative, natOfDigits (whole ++ part), -(part.length : Int)⟩ := by
  have hpoint : isDigit '.' = false := by decide
  have htake : (whole ++ '.' :: part).takeWhile isDigit = whole := by
    rw [List.takeWhile_append_of_pos hwhole]
    simp [hpoint]
  have hdrop : (whole ++ '.' :: part).dropWhile isDigit = '.' :: part := by
    rw [List.dropWhile_append_of_pos hwhole]
    simp [hpoint]
  have htake' : part.takeWhile isDigit = part := List.takeWhile_eq_self_iff.mpr hpart
  have hdrop' : part.dropWhile isDigit = [] := List.dropWhile_eq_nil_iff.mpr hpart
  have hempty : whole.isEmpty = false := by simpa using hne
  simp [readUnsigned?, htake, hdrop, htake', hdrop', hempty, readExponent?]

theorem isDigit_of_mem_zeros {k : Nat} {c : Char} (h : c ∈ List.replicate k '0') :
    isDigit c = true := by
  rw [List.eq_of_mem_replicate h]
  rfl

/-- Without a negative exponent, zeros stand behind the digits. -/
theorem positional_of_nonneg (digits : Nat) {e : Int} (he : 0 ≤ e) :
    positional digits e = digitsOfNat digits ++ List.replicate e.toNat '0' := if_pos he

/-- With a negative exponent there is a point, with as many digits behind it as the exponent
says. -/
theorem positional_of_neg (digits : Nat) {e : Int} (he : e < 0) :
    ∃ whole part, positional digits e = whole ++ '.' :: part ∧ whole ≠ [] ∧
      (∀ c ∈ whole, isDigit c = true) ∧ (∀ c ∈ part, isDigit c = true) ∧
      natOfDigits (whole ++ part) = digits ∧ (part.length : Int) = -e := by
  have hds : ∀ c ∈ digitsOfNat digits, isDigit c = true := fun c h => isDigit_of_mem_digitsOfNat h
  have hne : digitsOfNat digits ≠ [] := Nat.toDigits_ne_nil
  unfold positional
  simp only [if_neg (not_le_of_gt he)]
  split
  next hplaces =>
    -- The point stands among the digits.
    refine ⟨_, _, rfl, ?_, fun c hc => hds c (List.mem_of_mem_take hc),
      fun c hc => hds c (List.mem_of_mem_drop hc), ?_, ?_⟩
    · rw [ne_eq, List.take_eq_nil_iff, not_or]
      exact ⟨by omega, hne⟩
    · rw [List.take_append_drop, natOfDigits_digitsOfNat]
    · rw [List.length_drop]
      omega
  next hplaces =>
    -- The point stands before the digits, with zeros between them.
    set k := (-e).toNat - (digitsOfNat digits).length with hk
    refine ⟨List.replicate 1 '0', _, rfl, by simp, fun c hc => isDigit_of_mem_zeros hc, ?_, ?_, ?_⟩
    · exact List.forall_mem_append.mpr ⟨fun c hc => isDigit_of_mem_zeros hc, hds⟩
    · rw [← List.append_assoc, List.replicate_append_replicate, natOfDigits_zeros_append,
        natOfDigits_digitsOfNat]
    · rw [List.length_append, List.length_replicate]
      omega

/-- **Reading a positional text** gives the decimal, its exponent brought to zero where it is
positive. -/
theorem readUnsigned?_positional (negative : Bool) (digits : Nat) (e : Int) :
    readUnsigned? negative (positional digits e)
      = some ⟨negative, digits * 10 ^ e.toNat, min e 0⟩ := by
  have hne : digitsOfNat digits ≠ [] := Nat.toDigits_ne_nil
  rcases le_or_gt 0 e with he | he
  · have hall : ∀ c ∈ digitsOfNat digits ++ List.replicate e.toNat '0', isDigit c = true :=
      List.forall_mem_append.mpr ⟨fun c hc => isDigit_of_mem_digitsOfNat hc,
        fun c hc => isDigit_of_mem_zeros hc⟩
    rw [positional_of_nonneg digits he, readUnsigned?_digits negative (by simp [hne]) hall,
      natOfDigits_append_zeros, natOfDigits_digitsOfNat, min_eq_right he]
  · obtain ⟨whole, part, htext, hwhole, hds, hds', hdigits, hlength⟩ := positional_of_neg digits he
    have hexp : digits * 10 ^ e.toNat = digits := by
      rw [show e.toNat = 0 by omega, Nat.pow_zero, Nat.mul_one]
    rw [htext, readUnsigned?_point negative hwhole hds hds', hdigits, hlength, neg_neg, hexp,
      min_eq_left he.le]

end WhenClause.Decimal

/-! ## Signs -/

namespace WhenClause.Decimal

def signText (negative : Bool) : List Char := if negative then ['-'] else []

/-- A sign before a digit is read off. -/
theorem readSign_signText (negative : Bool) {c : Char} (hc : isDigit c = true) (rest : List Char) :
    readSign (signText negative ++ c :: rest) = (negative, c :: rest) := by
  cases negative with
  | true => rfl
  | false =>
      show readSign (c :: rest) = (false, c :: rest)
      unfold readSign
      split
      next heq => cases heq; exact absurd hc (by decide)
      next heq => cases heq; exact absurd hc (by decide)
      next => rfl

/-- The digits of a number begin with a digit. -/
theorem digitsOfNat_cons (n : Nat) : ∃ c rest, digitsOfNat n = c :: rest ∧ isDigit c = true := by
  obtain ⟨c, rest, h⟩ := List.exists_cons_of_ne_nil (Nat.toDigits_ne_nil (b := 10) (n := n))
  exact ⟨c, rest, h, isDigit_of_mem_digitsOfNat (by rw [digitsOfNat, h]; exact List.mem_cons_self)⟩

/-- No number but zero has digits that begin with a zero. -/
theorem eq_zero_of_head?_digitsOfNat {n : Nat} (h : (digitsOfNat n).head? = some '0') : n = 0 := by
  induction n using Nat.strong_induction_on with
  | _ n ih =>
      by_cases hn : n < 10
      · rw [digitsOfNat, Nat.toDigits_of_lt_base hn] at h
        exact Nat.digitChar_eq_zero.mp (Option.some.inj h)
      · have hten : 10 ≤ n := Nat.not_lt.mp hn
        have hne : Nat.toDigits 10 (n / 10) ≠ [] := Nat.toDigits_ne_nil
        rw [digitsOfNat, Nat.toDigits_of_base_le (by decide) hten,
          List.head?_append_of_ne_nil _ hne] at h
        have hzero := ih (n / 10) (by omega) h
        omega

/-- A positional text begins with a digit. -/
theorem positional_cons (digits : Nat) (e : Int) :
    ∃ c rest, positional digits e = c :: rest ∧ isDigit c = true := by
  rcases le_or_gt 0 e with he | he
  · obtain ⟨c, rest, hdigits, hc⟩ := digitsOfNat_cons digits
    exact ⟨c, _, by rw [positional_of_nonneg digits he, hdigits]; rfl, hc⟩
  · obtain ⟨whole, part, htext, hne, hwhole, -⟩ := positional_of_neg digits he
    obtain ⟨c, rest, rfl⟩ := List.exists_cons_of_ne_nil hne
    exact ⟨c, _, htext, hwhole c List.mem_cons_self⟩

/-- The mantissa in front of an exponent: one digit, and the others behind a point. -/
def mantissa (d : Char) : List Char → List Char
  | [] => [d]
  | rest => d :: '.' :: rest

/-- An exponent with its sign. -/
def powerText (power : Int) : List Char :=
  'e' :: (if power < 0 then '-' else '+') :: digitsOfNat power.natAbs

/-- In a JSON text a decimal has a point among digits, by which it is read, or it has its first
digit in front of the point and an exponent. -/
theorem scientific_cases (digits : Nat) (e : Int) :
    (∃ whole part, scientific digits e = whole ++ '.' :: part ∧ whole ≠ [] ∧
      (∀ c ∈ whole, isDigit c = true) ∧ (∀ c ∈ part, isDigit c = true) ∧
      (natOfDigits (whole ++ part) : ℚ) * 10 ^ (-(part.length : Int)) = digits * 10 ^ e) ∨
    (∃ d rest, digitsOfNat digits = d :: rest ∧
      scientific digits e = mantissa d rest ++ powerText (rest.length + e)) := by
  have hne : digitsOfNat digits ≠ [] := Nat.toDigits_ne_nil
  unfold scientific
  simp only
  split
  next hinteger =>
    simp only [Bool.and_eq_true, decide_eq_true_eq] at hinteger
    obtain ⟨n, rfl⟩ := Int.eq_ofNat_of_zero_le hinteger.1
    rw [positional_of_nonneg digits hinteger.1]
    refine Or.inl ⟨_, ['0'], rfl, by simp [hne], ?_, by simp [isDigit], ?_⟩
    · exact List.forall_mem_append.mpr
        ⟨fun c hc => isDigit_of_mem_digitsOfNat hc, fun c hc => isDigit_of_mem_zeros hc⟩
    · -- The zero behind the point is one more behind the digits.
      have hzeros : List.replicate n '0' ++ ['0'] = List.replicate (n + 1) '0' :=
        List.replicate_succ'.symm
      rw [Int.toNat_natCast, List.append_assoc, hzeros, natOfDigits_append_zeros,
        natOfDigits_digitsOfNat]
      push_cast
      simp [pow_succ]
      ring
  next hinteger =>
    split
    next hplain =>
      simp only [Bool.and_eq_true, decide_eq_true_eq] at hinteger hplain
      obtain ⟨whole, part, htext, hwhole, hds, hds', hdigits, hlength⟩ :=
        positional_of_neg digits (e := e) (by omega)
      refine Or.inl ⟨whole, part, htext, hwhole, hds, hds', ?_⟩
      rw [hdigits, hlength, neg_neg]
    next =>
      obtain ⟨d, rest, hdigits⟩ := List.exists_cons_of_ne_nil hne
      refine Or.inr ⟨d, rest, hdigits, ?_⟩
      have hpower : ((digitsOfNat digits).length : Int) + e - 1 = rest.length + e := by
        rw [hdigits, List.length_cons]
        push_cast
        ring
      rw [hpower, hdigits]
      cases rest <;> rfl

/-- The form of JSON texts begins with a digit, and is more than that. -/
theorem scientific_cons (digits : Nat) (e : Int) :
    ∃ c rest, scientific digits e = c :: rest ∧ isDigit c = true ∧ rest ≠ [] := by
  rcases scientific_cases digits e with ⟨whole, part, htext, hne, hwhole, -⟩ | ⟨d, rest, hd, htext⟩
  · obtain ⟨c, whole, rfl⟩ := List.exists_cons_of_ne_nil hne
    exact ⟨c, _, htext, hwhole c List.mem_cons_self, by simp⟩
  · have hdigit : isDigit d = true := isDigit_of_mem_digitsOfNat (hd ▸ List.mem_cons_self)
    cases rest with
    | nil => exact ⟨d, _, htext, hdigit, List.cons_ne_nil _ _⟩
    | cons => exact ⟨d, _, htext, hdigit, List.cons_ne_nil _ _⟩

/-- The text of an integer is a sign and digits. -/
theorem intText_eq (i : Int) : intText i = signText (i < 0) ++ digitsOfNat i.natAbs := by
  unfold intText signText
  by_cases h : i < 0 <;> simp [h]

/-- Only zero is written as the digit zero. -/
theorem intText_eq_zero_iff (i : Int) : intText i = ['0'] ↔ i = 0 := by
  constructor
  · intro h
    rw [intText_eq] at h
    by_cases hneg : i < 0
    · simp [signText, hneg] at h
    · have hdigits : digitsOfNat i.natAbs = ['0'] := by simpa [signText, hneg] using h
      have hread := natOfDigits_digitsOfNat i.natAbs
      rw [hdigits] at hread
      exact Int.natAbs_eq_zero.mp hread.symm
  · rintro rfl
    rfl

end WhenClause.Decimal

/-! ## Reading the text of a number -/

namespace WhenClause.Number

open Decimal (signText)

/-- A decimal of a finite number other than zero is read as the number. -/
theorem read?_of_holds {x : Number} (hfin : x.isFinite = true) (hzero : x.isZero = false)
    {digits : Nat} {e : Int} (h : x.interval.Holds (digits * 10 ^ e)) :
    read? (signText x.negative ++ Decimal.positional digits e) = some x := by
  obtain ⟨c, rest, hpos, hc⟩ := Decimal.positional_cons digits e
  have hnumber : (⟨x.negative, digits * 10 ^ e.toNat, min e 0⟩ : Decimal).toNumber = x := by
    apply Decimal.toNumber_eq hfin hzero rfl
    have habs : (⟨x.negative, digits * 10 ^ e.toNat, min e 0⟩ : Decimal).absValue
        = digits * 10 ^ e := by
      unfold Decimal.absValue
      obtain ⟨n, rfl | rfl⟩ := e.eq_nat_or_neg
      · simp
      · simp
    rw [habs]
    exact h
  rw [read?, hpos, Decimal.readSign_signText _ hc, ← hpos]
  simp only [Decimal.readUnsigned?_positional, hnumber]

/-- The text of a number other than NaN is a sign and the text of its absolute value. -/
theorem text_eq {x : Number} (hnan : x.isNaN = false) :
    x.text = signText x.negative ++
      if x.isFinite then Decimal.positional (x.shortest .up).digits (x.shortest .up).exponent
      else ['i', 'n', 'f'] := by
  unfold text signText
  rw [if_neg (by simp [hnan])]
  cases x.isFinite <;> rfl

theorem isNaN_of_isFinite {x : Number} (hfin : x.isFinite = true) : x.isNaN = false := by
  simp only [isFinite, isNaN, decide_eq_true_eq, decide_eq_false_iff_not] at *
  omega

theorem isFinite_of_isNaN {x : Number} (hnan : x.isNaN = true) : x.isFinite = false := by
  rw [Bool.eq_false_iff]
  intro hfin
  rw [isNaN_of_isFinite hfin] at hnan
  cases hnan

/-- A number other than NaN is zero, finite and not zero, or infinite. -/
theorem cases_of_not_nan {x : Number} (hnan : x.isNaN = false) :
    x = ofMagnitude x.negative 0 ∨ (x.isFinite = true ∧ x.isZero = false) ∨
      x = infinity x.negative := by
  obtain ⟨negative, magnitude, hlt⟩ := x
  simp only [isNaN, isFinite, isZero, ofMagnitude, infinity, mk.injEq, Fin.mk.injEq, true_and,
    decide_eq_true_eq, decide_eq_false_iff_not, beq_eq_false_iff_ne] at *
  omega

/-- **The text of a number is read as that number.** -/
theorem read?_text {x : Number} (hnan : x.isNaN = false) : read? x.text = some x := by
  rcases cases_of_not_nan hnan with hx | ⟨hfin, hzero⟩ | hx
  · rw [hx]
    generalize x.negative = negative
    cases negative <;> decide +kernel
  · rw [text_eq hnan, if_pos hfin]
    exact read?_of_holds hfin hzero (shortest_holds hzero .up)
  · rw [hx]
    generalize x.negative = negative
    cases negative <;> decide +kernel

/-! ## Numbers that are written as integers -/

/-- An integer is the absolute value of a number if and only if the significand is that many units
of the scale. -/
theorem absValue_eq_natCast_iff {x : Number} {k : Nat} :
    x.absValue = k ↔ x.significand * 2 ^ x.scale.toNat = 2 ^ (-x.scale).toNat * k := by
  have hunit : ((2 ^ (-x.scale).toNat : Nat) : ℚ) ≠ 0 := by positivity
  have hcast := cast_scaled x.significand 1 (-x.scale)
  rw [neg_neg, Nat.one_mul, Nat.cast_one, div_one, zpow_neg, div_inv_eq_mul] at hcast
  have hquotient : x.absValue = ((x.significand * 2 ^ x.scale.toNat : Nat) : ℚ)
      / ((2 ^ (-x.scale).toNat : Nat) : ℚ) := hcast.symm
  rw [hquotient, div_eq_iff hunit, Nat.mul_comm _ k]
  exact_mod_cast Iff.rfl

theorem absValue_of_isZero {x : Number} (h : x.isZero = true) : x.absValue = 0 := by
  have hmagnitude : x.magnitude.val = 0 := by simpa [isZero] using h
  have hsignificand : x.significand = 0 := by
    have := magnitude_eq x
    omega
  rw [absValue, hsignificand, Nat.cast_zero, zero_mul]

/-- The integer that a number is has its absolute value and its sign. -/
theorem toInt?_spec {x : Number} {i : Int} (h : x.toInt? = some i) :
    x.isFinite = true ∧ (i.natAbs : ℚ) = x.absValue ∧
      (x.isZero = false → decide (i < 0) = x.negative) := by
  unfold toInt? at h
  split at h
  next hfin =>
    simp only at h
    split at h
    next hdvd =>
      obtain ⟨k, hk⟩ := Nat.dvd_of_mod_eq_zero hdvd
      have hunit : 0 < 2 ^ (-x.scale).toNat := by positivity
      rw [hk, Nat.mul_div_cancel_left _ hunit] at h
      have habs : (k : ℚ) = x.absValue := (absValue_eq_natCast_iff.mpr hk).symm
      have hi : i.natAbs = k := by
        rw [← Option.some.inj h]
        split <;> simp
      refine ⟨hfin, by rw [hi, habs], fun hzero => ?_⟩
      have hk : 0 < k := by
        have hpos : 0 < x.absValue := by
          have := significand_pos hzero
          unfold absValue
          positivity
        rw [← habs] at hpos
        exact_mod_cast hpos
      rw [← Option.some.inj h]
      cases x.negative with
      | true => simp; omega
      | false => simp
    next => exact absurd h (by simp)
  next => exact absurd h (by simp)

theorem equal_iff {x y : Number} :
    x.equal y = true ↔ x.isNaN = false ∧ y.isNaN = false ∧ x.rank = y.rank := by
  simp [equal, and_assoc]

theorem equal_of_isZero {x y : Number} (hx : x.isZero = true) (hy : y.isZero = true) :
    x.equal y = true := by
  have hx' : x.magnitude.val = 0 := by simpa [isZero] using hx
  have hy' : y.magnitude.val = 0 := by simpa [isZero] using hy
  exact equal_iff.mpr ⟨by simp [isNaN, hx'], by simp [isNaN, hy'], by simp [rank, hx', hy']⟩

/-- **The text of a number inside a value is read as a number equal to it.** -/
theorem read?_valueText {x : Number} (hnan : x.isNaN = false) :
    ∃ y, read? x.valueText = some y ∧ y.equal x = true := by
  unfold valueText
  split
  next i hi =>
    obtain ⟨hint, -⟩ := Option.filter_eq_some_iff.mp hi
    obtain ⟨hfin, habs, hsign⟩ := toInt?_spec hint
    by_cases hzero : x.isZero = true
    · -- A zero is written without its sign, and is read as the positive one.
      have hi0 : i = 0 := by
        rw [absValue_of_isZero hzero] at habs
        exact Int.natAbs_eq_zero.mp (by exact_mod_cast habs)
      exact ⟨zero, by rw [hi0]; decide +kernel, equal_of_isZero (by decide) hzero⟩
    · have hzero' : x.isZero = false := by simpa using hzero
      refine ⟨x, ?_, equal_iff.mpr ⟨hnan, hnan, rfl⟩⟩
      have hmem := absValue_mem hzero'
      rw [← habs] at hmem
      have hholds : x.interval.Holds (i.natAbs * 10 ^ (0 : Int)) := by simpa using hmem
      have h := read?_of_holds hfin hzero' hholds
      rw [Decimal.intText_eq, hsign hzero']
      simpa [Decimal.positional] using h
  next => exact ⟨x, read?_text hnan, equal_iff.mpr ⟨hnan, hnan, rfl⟩⟩

/-! ## Which numbers share a text -/

/-- Equality of numbers, except that NaN is the same as NaN. -/
def same (x y : Number) : Bool := x.equal y || (x.isNaN && y.isNaN)

theorem equal_comm (x y : Number) : x.equal y = y.equal x := by
  rw [Bool.eq_iff_iff, equal_iff, equal_iff]
  constructor <;> rintro ⟨hx, hy, h⟩ <;> exact ⟨hy, hx, h.symm⟩

theorem equal_trans {x y z : Number} (h : x.equal y = true) (h' : y.equal z = true) :
    x.equal z = true := by
  obtain ⟨hx, -, hxy⟩ := equal_iff.mp h
  obtain ⟨-, hz, hyz⟩ := equal_iff.mp h'
  exact equal_iff.mpr ⟨hx, hz, hxy.trans hyz⟩

/-- Equal numbers are the same number or both zero. -/
theorem eq_or_isZero_of_equal {x y : Number} (h : x.equal y = true) :
    x = y ∨ (x.isZero = true ∧ y.isZero = true) := by
  obtain ⟨-, -, hrank⟩ := equal_iff.mp h
  obtain ⟨xneg, xmag, xlt⟩ := x
  obtain ⟨yneg, ymag, ylt⟩ := y
  simp only [rank, isZero, mk.injEq, Fin.mk.injEq, beq_iff_eq] at *
  cases xneg <;> cases yneg <;> simp at * <;> omega

/-- Both zeros are written as the integer zero. -/
theorem shortInt?_of_isZero {x : Number} (h : x.isZero = true) : x.shortInt? = some 0 := by
  have hx : x = ofMagnitude x.negative 0 := by
    obtain ⟨negative, magnitude, hlt⟩ := x
    simp only [isZero, ofMagnitude, mk.injEq, Fin.mk.injEq, true_and, beq_iff_eq] at *
    omega
  rw [hx]
  generalize x.negative = negative
  cases negative <;> decide +kernel

/-- Both zeros have the text of the integer zero. -/
theorem valueText_of_isZero {x : Number} (h : x.isZero = true) : x.valueText = ['0'] := by
  rw [valueText, shortInt?_of_isZero h]
  rfl

/-- NaN has a text of its own. -/
theorem valueText_of_isNaN {x : Number} (h : x.isNaN = true) : x.valueText = ['N', 'a', 'N'] := by
  simp [valueText, shortInt?, toInt?, isFinite_of_isNaN h, text, h]

/-- The text of NaN is read as NaN, so it is not the text of any other number. -/
theorem read?_nanText : read? ['N', 'a', 'N'] = some nan := by decide +kernel

/-- **Two numbers share a text** exactly when they are equal or both are NaN. -/
theorem valueText_eq_iff (x y : Number) : x.valueText = y.valueText ↔ x.same y = true := by
  have not_nan {x : Number} (hx : x.isNaN = false) : x.valueText ≠ ['N', 'a', 'N'] := by
    intro h
    obtain ⟨z, hread, hz⟩ := read?_valueText hx
    rw [h, read?_nanText] at hread
    have := (equal_iff.mp hz).1
    rw [← Option.some.inj hread] at this
    exact absurd this (by decide)
  unfold same
  rw [Bool.or_eq_true, Bool.and_eq_true]
  constructor
  · intro h
    cases hx : x.isNaN with
    | true =>
        refine Or.inr ⟨rfl, ?_⟩
        rw [valueText_of_isNaN hx] at h
        by_contra hy
        exact not_nan (by simpa using hy) h.symm
    | false =>
        cases hy : y.isNaN with
        | true => exact absurd (h.trans (valueText_of_isNaN hy)) (not_nan hx)
        | false =>
            obtain ⟨x', hreadx, hx'⟩ := read?_valueText hx
            obtain ⟨y', hready, hy'⟩ := read?_valueText hy
            rw [h, hready] at hreadx
            rw [← Option.some.inj hreadx, equal_comm] at hx'
            exact Or.inl (equal_trans hx' hy')
  · rintro (h | ⟨hx, hy⟩)
    · rcases eq_or_isZero_of_equal h with rfl | ⟨hx, hy⟩
      · rfl
      · rw [valueText_of_isZero hx, valueText_of_isZero hy]
    · rw [valueText_of_isNaN hx, valueText_of_isNaN hy]

/-! ## The characters of the text of a number -/

/-- The characters that texts of numbers are made of. -/
def isTextChar (c : Char) : Bool :=
  Decimal.isDigit c || ['-', '.', 'N', 'a', 'i', 'n', 'f'].contains c

/-- The characters that texts of numbers begin with. -/
def isLeadChar (c : Char) : Bool := Decimal.isDigit c || ['-', 'N', 'i'].contains c

theorem isTextChar_of_mem_positional {digits : Nat} {e : Int} {c : Char}
    (h : c ∈ Decimal.positional digits e) : isTextChar c = true := by
  have digit {c : Char} (h : Decimal.isDigit c = true) : isTextChar c = true := by
    simp [isTextChar, h]
  rcases le_or_gt 0 e with he | he
  · rw [Decimal.positional_of_nonneg digits he] at h
    exact (List.mem_append.mp h).elim (fun h => digit (Decimal.isDigit_of_mem_digitsOfNat h))
      fun h => digit (Decimal.isDigit_of_mem_zeros h)
  · obtain ⟨whole, part, htext, -, hwhole, hpart, -⟩ := Decimal.positional_of_neg digits he
    rw [htext] at h
    rcases List.mem_append.mp h with h | h
    · exact digit (hwhole c h)
    · rcases List.mem_cons.mp h with rfl | h
      · rfl
      · exact digit (hpart c h)

/-- The text of a number is made of the characters for it, and begins with one that may begin
it. -/
theorem valueText_chars (x : Number) :
    (∀ c ∈ x.valueText, isTextChar c = true) ∧
      ∃ c rest, x.valueText = c :: rest ∧ isLeadChar c = true := by
  have signed (negative : Bool) {s : List Char} (hs : ∀ c ∈ s, isTextChar c = true)
      (hlead : ∃ c rest, s = c :: rest ∧ isLeadChar c = true) :
      (∀ c ∈ signText negative ++ s, isTextChar c = true) ∧
        ∃ c rest, signText negative ++ s = c :: rest ∧ isLeadChar c = true := by
    cases negative with
    | true => exact ⟨List.forall_mem_cons.mpr ⟨rfl, hs⟩, '-', s, rfl, rfl⟩
    | false => exact ⟨hs, hlead⟩
  have digit {c : Char} (h : Decimal.isDigit c = true) : isLeadChar c = true := by
    simp [isLeadChar, h]
  unfold valueText
  split
  next i _ =>
    rw [Decimal.intText_eq]
    apply signed
    · intro c hc
      simp [isTextChar, Decimal.isDigit_of_mem_digitsOfNat hc]
    · obtain ⟨c, rest, h, hc⟩ := Decimal.digitsOfNat_cons i.natAbs
      exact ⟨c, rest, h, digit hc⟩
  next =>
    cases hnan : x.isNaN with
    | true =>
        rw [text, if_pos hnan]
        refine ⟨fun c hc => ?_, 'N', ['a', 'N'], rfl, rfl⟩
        fin_cases hc <;> rfl
    | false =>
        rw [text_eq hnan]
        apply signed
        · split
          · exact fun c hc => isTextChar_of_mem_positional hc
          · intro c hc
            fin_cases hc <;> rfl
        · split
          · obtain ⟨c, rest, h, hc⟩ :=
              Decimal.positional_cons (x.shortest .up).digits (x.shortest .up).exponent
            exact ⟨c, rest, h, digit hc⟩
          · exact ⟨'i', ['n', 'f'], rfl, rfl⟩

end WhenClause.Number
