import WhenClause.Proofs.Number.Written

set_option autoImplicit false

/-! # Numbers in JSON texts

In a JSON text a finite number has a point or an exponent, so that it is told from an integer
(`Number.jsonText_marked`), and it is read back bit for bit (`Number.read?_jsonText`). So finite
numbers with one text are one number (`Number.jsonText_inj`). -/

namespace WhenClause

namespace Decimal

/-! ## Reading an exponent -/

theorem readExponent?_powerText (power : Int) : readExponent? (powerText power) = some power := by
  have hne : digitsOfNat power.natAbs ≠ [] := Nat.toDigits_ne_nil
  have hdigits : (digitsOfNat power.natAbs).all isDigit = true :=
    List.all_eq_true.mpr fun c hc => isDigit_of_mem_digitsOfNat hc
  have hread : (natOfDigits (digitsOfNat power.natAbs) : Int) = |power| := by
    rw [natOfDigits_digitsOfNat, Int.natCast_natAbs]
  rcases lt_or_ge power 0 with hneg | hnonneg
  · have hvalue : -(natOfDigits (digitsOfNat power.natAbs) : Int) = power := by
      rw [hread, abs_of_neg hneg, neg_neg]
    simp [readExponent?, powerText, hneg, readSign, hne, hdigits, -natOfDigits_digitsOfNat, hvalue]
  · have hvalue : (natOfDigits (digitsOfNat power.natAbs) : Int) = power := by
      rw [hread, abs_of_nonneg hnonneg]
    simp [readExponent?, powerText, hnonneg.not_gt, readSign, hne, hdigits,
      -natOfDigits_digitsOfNat, hvalue]

/-- One digit, the others behind a point and an exponent are read as the digits, the last of which
counts so much less. -/
theorem readUnsigned?_mantissa (negative : Bool) {d : Char} {rest : List Char}
    (hd : isDigit d = true) (hrest : ∀ c ∈ rest, isDigit c = true) (power : Int) :
    readUnsigned? negative (mantissa d rest ++ powerText power)
      = some ⟨negative, natOfDigits (d :: rest), power - rest.length⟩ := by
  have hmarker : isDigit 'e' = false := by decide
  have hpoint : isDigit '.' = false := by decide
  have hpower := readExponent?_powerText power
  obtain ⟨more, hmore⟩ : ∃ more, powerText power = 'e' :: more := ⟨_, rfl⟩
  rw [hmore] at hpower ⊢
  cases rest with
  | nil => simp [readUnsigned?, mantissa, hd, hmarker, hpower]
  | cons c rest =>
      have htake : (c :: rest ++ 'e' :: more).takeWhile isDigit = c :: rest := by
        rw [List.takeWhile_append_of_pos hrest]
        simp [hmarker]
      have hdrop : (c :: rest ++ 'e' :: more).dropWhile isDigit = 'e' :: more := by
        rw [List.dropWhile_append_of_pos hrest]
        simp [hmarker]
      have hsplit : mantissa d (c :: rest) ++ 'e' :: more
          = d :: '.' :: (c :: rest ++ 'e' :: more) := rfl
      rw [hsplit]
      generalize c :: rest = part at htake hdrop ⊢
      generalize part ++ 'e' :: more = s at htake hdrop ⊢
      simp [readUnsigned?, hd, hpoint, htake, hdrop, hpower]

/-- **The form of JSON texts is read as the decimal that it was written for.** -/
theorem readUnsigned?_scientific (negative : Bool) (digits : Nat) (e : Int) :
    ∃ d, readUnsigned? negative (scientific digits e) = some d ∧ d.negative = negative ∧
      d.absValue = digits * 10 ^ e := by
  rcases scientific_cases digits e with
    ⟨whole, part, htext, hne, hwhole, hpart, hvalue⟩ | ⟨d, rest, hdigits, htext⟩
  · refine ⟨⟨negative, natOfDigits (whole ++ part), -part.length⟩, ?_, rfl, hvalue⟩
    rw [htext, readUnsigned?_point negative hne hwhole hpart]
  · have hall : ∀ c ∈ d :: rest, isDigit c = true :=
      fun c hc => isDigit_of_mem_digitsOfNat (hdigits ▸ hc)
    obtain ⟨hd, hrest⟩ := List.forall_mem_cons.mp hall
    refine ⟨⟨negative, digits, e⟩, ?_, rfl, rfl⟩
    rw [htext, readUnsigned?_mantissa negative hd hrest, ← hdigits, natOfDigits_digitsOfNat,
      add_sub_cancel_left]

end Decimal

namespace Number

open Decimal (signText)

theorem jsonText_eq {x : Number} (hfin : x.isFinite = true) :
    x.jsonText = signText x.negative ++
      Decimal.scientific (x.shortest .even).digits (x.shortest .even).exponent := by
  rw [jsonText, if_pos hfin]
  rfl

/-- **A number in a JSON text is read back bit for bit.** -/
theorem read?_jsonText {x : Number} (hfin : x.isFinite = true) : read? x.jsonText = some x := by
  rcases cases_of_not_nan (isNaN_of_isFinite hfin) with hx | ⟨-, hzero⟩ | hx
  · rw [hx]
    generalize x.negative = negative
    cases negative <;> decide +kernel
  · obtain ⟨c, rest, htext, hc, -⟩ :=
      Decimal.scientific_cons (x.shortest .even).digits (x.shortest .even).exponent
    obtain ⟨d, hd, hnegative, hvalue⟩ := Decimal.readUnsigned?_scientific x.negative
      (x.shortest .even).digits (x.shortest .even).exponent
    have hnumber : d.toNumber = x :=
      Decimal.toNumber_eq hfin hzero hnegative (hvalue ▸ shortest_holds hzero .even)
    rw [jsonText_eq hfin, read?, htext, Decimal.readSign_signText _ hc, ← htext]
    simp only [hd, hnumber]
  · rw [hx] at hfin
    generalize x.negative = negative at hfin
    cases negative <;> exact absurd hfin (by decide +kernel)

theorem jsonText_inj {x y : Number} (hx : x.isFinite = true) (hy : y.isFinite = true)
    (h : x.jsonText = y.jsonText) : x = y := by
  have hread := read?_jsonText hx
  rw [h, read?_jsonText hy] at hread
  exact (Option.some.inj hread).symm

/-! ## Its characters -/

/-- The characters that numbers in JSON texts are made of. -/
def isJsonChar (c : Char) : Bool := Decimal.isDigit c || ['-', '+', '.', 'e'].contains c

/-- The characters that tell a number from an integer. -/
def isMark (c : Char) : Bool := c == '.' || c == 'e'

theorem isJsonChar_of_isDigit {c : Char} (h : Decimal.isDigit c = true) : isJsonChar c = true := by
  rw [isJsonChar, h, Bool.true_or]

theorem isJsonChar_of_mem_signText {negative : Bool} {c : Char} (h : c ∈ signText negative) :
    isJsonChar c = true := by
  cases negative with
  | true => rw [List.mem_singleton.mp h]; rfl
  | false => exact absurd h List.not_mem_nil

theorem isJsonChar_of_mem_powerText {power : Int} {c : Char} (h : c ∈ Decimal.powerText power) :
    isJsonChar c = true := by
  have hsign : isJsonChar (if power < 0 then '-' else '+') = true := by split <;> rfl
  rcases List.mem_cons.mp h with rfl | h
  · rfl
  rcases List.mem_cons.mp h with rfl | h
  · exact hsign
  · exact isJsonChar_of_isDigit (Decimal.isDigit_of_mem_digitsOfNat h)

theorem isJsonChar_of_mem_mantissa {d : Char} {rest : List Char}
    (hall : ∀ c ∈ d :: rest, Decimal.isDigit c = true) {c : Char}
    (h : c ∈ Decimal.mantissa d rest) : isJsonChar c = true := by
  cases rest with
  | nil => exact isJsonChar_of_isDigit (hall c h)
  | cons d' rest =>
      rcases List.mem_cons.mp h with rfl | h
      · exact isJsonChar_of_isDigit (hall c List.mem_cons_self)
      rcases List.mem_cons.mp h with rfl | h
      · rfl
      · exact isJsonChar_of_isDigit (hall c (List.mem_cons_of_mem _ h))

theorem isJsonChar_of_mem_scientific {digits : Nat} {e : Int} {c : Char}
    (h : c ∈ Decimal.scientific digits e) : isJsonChar c = true := by
  rcases Decimal.scientific_cases digits e with
    ⟨whole, part, htext, -, hwhole, hpart, -⟩ | ⟨d, rest, hdigits, htext⟩
  · rw [htext] at h
    rcases List.mem_append.mp h with h | h
    · exact isJsonChar_of_isDigit (hwhole c h)
    rcases List.mem_cons.mp h with rfl | h
    · rfl
    · exact isJsonChar_of_isDigit (hpart c h)
  · rw [htext] at h
    rcases List.mem_append.mp h with h | h
    · exact isJsonChar_of_mem_mantissa
        (fun _ hc => Decimal.isDigit_of_mem_digitsOfNat (hdigits ▸ hc)) h
    · exact isJsonChar_of_mem_powerText h

/-- The form of JSON texts has a point or an exponent. -/
theorem scientific_marked (digits : Nat) (e : Int) :
    ∃ c ∈ Decimal.scientific digits e, isMark c = true := by
  rcases Decimal.scientific_cases digits e with ⟨whole, part, htext, -⟩ | ⟨d, rest, -, htext⟩
  · exact ⟨'.', by rw [htext]; simp, rfl⟩
  · exact ⟨'e', by rw [htext]; simp [Decimal.powerText], rfl⟩

/-- A finite number in a JSON text is made of the characters for it, among them a mark. -/
theorem jsonText_chars {x : Number} (hfin : x.isFinite = true) :
    (∀ c ∈ x.jsonText, isJsonChar c = true) ∧ ∃ c ∈ x.jsonText, isMark c = true := by
  obtain ⟨c, hc, hmark⟩ :=
    scientific_marked (x.shortest .even).digits (x.shortest .even).exponent
  rw [jsonText_eq hfin]
  exact ⟨List.forall_mem_append.mpr ⟨fun _ hc => isJsonChar_of_mem_signText hc,
      fun _ hc => isJsonChar_of_mem_scientific hc⟩, c, List.mem_append_right _ hc, hmark⟩

/-- A finite number in a JSON text begins with a sign or a digit. -/
theorem jsonText_cons {x : Number} (hfin : x.isFinite = true) :
    ∃ c rest, x.jsonText = c :: rest ∧ (c = '-' ∨ Decimal.isDigit c = true) := by
  obtain ⟨c, rest, h, hc, -⟩ :=
    Decimal.scientific_cons (x.shortest .even).digits (x.shortest .even).exponent
  rw [jsonText_eq hfin]
  cases x.negative with
  | true => exact ⟨'-', _, rfl, Or.inl rfl⟩
  | false => exact ⟨c, rest, h, Or.inr hc⟩

/-! ## Integers -/

/-- An integer in a JSON text is made of a sign and digits, so it has no mark. -/
theorem intText_chars (i : Int) :
    ∀ c ∈ Decimal.intText i, isJsonChar c = true ∧ isMark c = false := by
  have digit {c : Char} (h : Decimal.isDigit c = true) : isMark c = false := by
    rw [Bool.eq_false_iff]
    intro hmark
    rcases Bool.or_eq_true_iff.mp hmark with hc | hc
    · rw [beq_iff_eq.mp hc] at h
      exact absurd h (by decide)
    · rw [beq_iff_eq.mp hc] at h
      exact absurd h (by decide)
  rw [Decimal.intText_eq]
  refine List.forall_mem_append.mpr ⟨fun c hc => ?_, fun c hc => ?_⟩
  · generalize decide (i < 0) = negative at hc
    cases negative with
    | true => rw [List.mem_singleton.mp hc]; exact ⟨rfl, rfl⟩
    | false => exact absurd hc List.not_mem_nil
  · have hd := Decimal.isDigit_of_mem_digitsOfNat hc
    exact ⟨isJsonChar_of_isDigit hd, digit hd⟩

theorem intText_cons (i : Int) :
    ∃ c rest, Decimal.intText i = c :: rest ∧ (c = '-' ∨ Decimal.isDigit c = true) := by
  obtain ⟨c, rest, h, hc⟩ := Decimal.digitsOfNat_cons i.natAbs
  rw [Decimal.intText_eq]
  generalize decide (i < 0) = negative
  cases negative with
  | true => exact ⟨'-', _, rfl, Or.inl rfl⟩
  | false => exact ⟨c, rest, h, Or.inr hc⟩

theorem intText_inj {i j : Int} (h : Decimal.intText i = Decimal.intText j) : i = j := by
  have read (i : Int) : Decimal.readSign (Decimal.intText i)
      = (decide (i < 0), Decimal.digitsOfNat i.natAbs) := by
    obtain ⟨c, rest, hdigits, hc⟩ := Decimal.digitsOfNat_cons i.natAbs
    rw [Decimal.intText_eq, hdigits, Decimal.readSign_signText _ hc]
  have hread := congrArg Decimal.readSign h
  rw [read i, read j] at hread
  obtain ⟨hsign, hdigits⟩ := Prod.mk.inj hread
  have habs := congrArg Decimal.natOfDigits hdigits
  rw [Decimal.natOfDigits_digitsOfNat, Decimal.natOfDigits_digitsOfNat] at habs
  rw [decide_eq_decide] at hsign
  omega

end Number

end WhenClause
