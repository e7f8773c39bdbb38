import WhenClause.Proofs.Token.Literals

set_option autoImplicit false

/-! # Numerals

What is cut off as a number is a sign, digits, and if there are any a point with digits and an
exponent (`isNumeral_of_splitNumeral`), and every text of that form is cut off whole, up to a text
that does not go on with it (`IsNumeral.splitNumeral`). The texts of that form stand for the
decimals of their parts (`IsNumeral.read?`). -/

namespace WhenClause.Lexer

open Decimal (isDigit natOfDigits signText)

/-! ## Parts -/

/-- Digits, at least one. -/
structure IsDigits (s : List Char) : Prop where
  ne_nil : s ≠ []
  all : ∀ c ∈ s, isDigit c = true

/-- What stands behind the digits in front of the point: nothing, or a point and digits. -/
inductive IsFraction : List Char → List Char → Prop
  | none : IsFraction [] []
  | some {ds : List Char} : IsDigits ds → IsFraction ('.' :: ds) ds

/-- The sign of an exponent. -/
inductive IsSign : List Char → Bool → Prop
  | none : IsSign [] false
  | plus : IsSign ['+'] false
  | minus : IsSign ['-'] true

/-- What stands behind the digits: nothing, or a marker, a sign and digits. -/
inductive IsExponent : List Char → Int → Prop
  | none : IsExponent [] 0
  | some {c : Char} {sign ds : List Char} {negative : Bool} : c = 'e' ∨ c = 'E' →
      IsSign sign negative → IsDigits ds →
      IsExponent (c :: (sign ++ ds)) (if negative then -(natOfDigits ds : Int) else natOfDigits ds)

/-- A sign, digits, a fraction and an exponent. -/
inductive IsNumeral : List Char → Numeral → Prop
  | mk {negative : Bool} {whole point part marked : List Char} {exponent : Int} :
      IsDigits whole → IsFraction point part → IsExponent marked exponent →
      IsNumeral (signText negative ++ (whole ++ (point ++ marked)))
        ⟨negative, whole, part, exponent⟩

/-! ## What stands behind -/

/-- A point and a digit. -/
def startsFraction (s : List Char) : Bool :=
  s.head? == some '.' && s.tail.head?.any isDigit

/-- The text does not go on with a numeral that it stands behind. A point and a digit go on with
digits that have neither a fraction nor an exponent. -/
structure EndsNumeral (numeral r : List Char) : Prop where
  digit : r.head?.any isDigit = false
  word : r.head?.any startsWord = false
  fraction : (∀ c ∈ numeral, c = '-' ∨ isDigit c = true) → startsFraction r = false

variable {r : List Char}

theorem IsDigits.takeWhile {ds : List Char} (h : IsDigits ds) (hr : r.head?.any isDigit = false) :
    (ds ++ r).takeWhile isDigit = ds ∧ (ds ++ r).dropWhile isDigit = r :=
  takeWhile_stop h.all hr

theorem IsDigits.exists_cons {ds : List Char} (h : IsDigits ds) :
    ∃ d more, ds = d :: more ∧ isDigit d = true := by
  obtain ⟨d, more, rfl⟩ := List.exists_cons_of_ne_nil h.ne_nil
  exact ⟨d, more, rfl, h.all d List.mem_cons_self⟩

theorem IsDigits.head?_append {ds : List Char} (h : IsDigits ds) (t : List Char) :
    (ds ++ t).head?.any isDigit = true := by
  obtain ⟨d, more, rfl, hd⟩ := h.exists_cons
  simpa using hd

/-- Behind digits stands what is no digit. -/
theorem isDigits_takeWhile {s : List Char} (h : s.head?.any isDigit = true) :
    IsDigits (s.takeWhile isDigit) ∧ (s.dropWhile isDigit).head?.any isDigit = false := by
  refine ⟨⟨?_, fun c hc => ?_⟩, ?_⟩
  · cases s with
    | nil => cases h
    | cons c s =>
        have hc : isDigit c = true := by simpa using h
        simp [hc]
  · exact List.mem_takeWhile_imp hc
  · cases hdrop : s.dropWhile isDigit with
    | nil => rfl
    | cons d rest => simpa using dropWhile_stop hdrop

/-! ## Exponents -/

theorem IsSign.readSign {sign ds : List Char} {negative : Bool} (h : IsSign sign negative)
    (hds : ds.head?.any isDigit = true) : Decimal.readSign (sign ++ ds) = (negative, ds) := by
  cases h with
  | plus => rfl
  | minus => rfl
  | none =>
      cases ds with
      | nil => rfl
      | cons d more =>
          have hd : isDigit d = true := by simpa using hds
          exact Decimal.readSign_signText false hd more

theorem isSign_readSign (s : List Char) :
    ∃ sign, s = sign ++ (Decimal.readSign s).2 ∧ IsSign sign (Decimal.readSign s).1 := by
  unfold Decimal.readSign
  split
  · exact ⟨_, rfl, .minus⟩
  · exact ⟨_, rfl, .plus⟩
  · exact ⟨_, rfl, .none⟩

/-- A character in front of an exponent. -/
def isMarker (c : Char) : Bool := c == 'e' || c == 'E'

theorem IsExponent.splitExponent {marked : List Char} {e : Int} (h : IsExponent marked e)
    (hdigit : r.head?.any isDigit = false) (hmarker : marked = [] → r.head?.any isMarker = false) :
    splitExponent (marked ++ r) = .ok (e, r) := by
  cases h with
  | none =>
      cases r with
      | nil => rfl
      | cons c rest =>
          have hc : ¬ (c = 'e' ∨ c = 'E') := by simpa [isMarker] using hmarker rfl
          exact if_neg hc
  | @some c sign ds negative hc hsign hds =>
      have hread : Decimal.readSign (sign ++ (ds ++ r)) = (negative, ds ++ r) :=
        hsign.readSign (hds.head?_append r)
      obtain ⟨htake, hdrop⟩ := hds.takeWhile hdigit
      rw [List.cons_append, List.append_assoc]
      simp only [Lexer.splitExponent, if_pos hc, hread, htake, hdrop]
      rw [if_neg (by simp [hds.ne_nil])]

theorem isExponent_of_splitExponent {s after : List Char} {e : Int}
    (h : splitExponent s = .ok (e, after)) (hs : s.head?.any isDigit = false) :
    ∃ marked, s = marked ++ after ∧ IsExponent marked e ∧ after.head?.any isDigit = false ∧
      (marked = [] → after.head?.any isMarker = false) := by
  cases s with
  | nil =>
      cases h
      exact ⟨[], rfl, .none, rfl, fun _ => rfl⟩
  | cons c rest =>
      by_cases hc : c = 'e' ∨ c = 'E'
      · simp only [Lexer.splitExponent, if_pos hc] at h
        obtain ⟨sign, hsplit, hsign⟩ := isSign_readSign rest
        generalize Decimal.readSign rest = found at h hsplit hsign
        obtain ⟨negative, ds⟩ := found
        dsimp only at h hsplit hsign
        split at h
        · cases h
        next hds =>
          cases h
          have hhead : ds.head?.any isDigit = true := by
            cases ds with
            | nil => exact absurd rfl hds
            | cons d more =>
                by_contra hd
                exact hds (by simpa [List.takeWhile_cons] using hd)
          obtain ⟨hdigits, hstop⟩ := isDigits_takeWhile hhead
          refine ⟨c :: (sign ++ ds.takeWhile isDigit), ?_, .some hc hsign hdigits, hstop,
            fun hnil => by cases hnil⟩
          rw [hsplit, List.cons_append, List.append_assoc, List.takeWhile_append_dropWhile]
      · simp only [Lexer.splitExponent, if_neg hc] at h
        cases h
        exact ⟨[], rfl, .none, hs, fun _ => by simpa [isMarker] using hc⟩

/-! ## Fractions -/

theorem IsExponent.digit {marked : List Char} {e : Int} (h : IsExponent marked e)
    (hr : r.head?.any isDigit = false) : (marked ++ r).head?.any isDigit = false := by
  cases h with
  | none => exact hr
  | some hc _ _ => rcases hc with rfl | rfl <;> rfl

theorem IsExponent.fraction {marked : List Char} {e : Int} (h : IsExponent marked e)
    (hr : marked = [] → startsFraction r = false) : startsFraction (marked ++ r) = false := by
  cases h with
  | none => exact hr rfl
  | some hc _ _ => rcases hc with rfl | rfl <;> rfl

theorem splitPart_of_startsFraction {s : List Char} (h : startsFraction s = false) :
    splitPart s = ([], s) := by
  unfold splitPart
  split
  next rest =>
    have hcount : ¬ 0 < digitCount rest := by
      cases rest with
      | nil => exact Nat.lt_irrefl 0
      | cons d more =>
          have hd : isDigit d = false := by simpa [startsFraction] using h
          simp [digitCount, hd]
    rw [if_neg hcount]
  next => rfl

theorem IsFraction.splitPart {point part s : List Char} (h : IsFraction point part)
    (hdigit : s.head?.any isDigit = false) (hfraction : point = [] → startsFraction s = false) :
    splitPart (point ++ s) = (part, s) := by
  cases h with
  | none => exact splitPart_of_startsFraction (hfraction rfl)
  | some hds =>
      obtain ⟨htake, hdrop⟩ := hds.takeWhile hdigit
      have hcount : 0 < digitCount (part ++ s) := by
        rw [digitCount, htake]
        exact List.length_pos_iff.mpr hds.ne_nil
      rw [List.cons_append, Lexer.splitPart, if_pos hcount, htake, hdrop]

theorem isFraction_of_splitPart {s after part : List Char} (h : splitPart s = (part, after))
    (hs : s.head?.any isDigit = false) :
    ∃ point, s = point ++ after ∧ IsFraction point part ∧ after.head?.any isDigit = false ∧
      (point = [] → startsFraction after = false) := by
  cases hfraction : startsFraction s with
  | false =>
      rw [splitPart_of_startsFraction hfraction] at h
      cases h
      exact ⟨[], rfl, .none, hs, fun _ => hfraction⟩
  | true =>
      simp only [startsFraction, Bool.and_eq_true, beq_iff_eq] at hfraction
      obtain ⟨hpoint, hdigit⟩ := hfraction
      obtain ⟨rest, rfl⟩ := List.head?_eq_some_iff.mp hpoint
      obtain ⟨hdigits, hstop⟩ := isDigits_takeWhile hdigit
      have hcount : 0 < digitCount rest := List.length_pos_iff.mpr hdigits.ne_nil
      rw [splitPart, if_pos hcount] at h
      cases h
      refine ⟨'.' :: rest.takeWhile isDigit, ?_, .some hdigits, hstop, fun hnil => by cases hnil⟩
      rw [List.cons_append, List.takeWhile_append_dropWhile]

/-! ## Numerals -/

theorem IsFraction.digit {point part s : List Char} (h : IsFraction point part)
    (hs : s.head?.any isDigit = false) : (point ++ s).head?.any isDigit = false := by
  cases h with
  | none => exact hs
  | some _ => rfl

theorem EndsNumeral.marker {numeral : List Char} (hr : EndsNumeral numeral r) :
    r.head?.any isMarker = false := by
  cases r with
  | nil => rfl
  | cons c rest =>
      have hword : startsWord c = false := by simpa using hr.word
      have hc : ¬ (c = 'e' ∨ c = 'E') := by
        rintro (rfl | rfl) <;> cases hword
      simpa [isMarker] using hc

/-- Behind digits without a fraction no fraction begins. -/
theorem EndsNumeral.startsFraction_marked {negative : Bool} {whole point marked : List Char}
    {e : Int} (hr : EndsNumeral (signText negative ++ (whole ++ (point ++ marked))) r)
    (hwhole : IsDigits whole) (hmarked : IsExponent marked e) :
    point = [] → startsFraction (marked ++ r) = false := by
  rintro rfl
  refine hmarked.fraction fun hnil => hr.fraction ?_
  subst hnil
  intro c hc
  rw [List.append_nil, List.append_nil] at hc
  rcases List.mem_append.mp hc with hsign | hc
  · exact Or.inl (by cases negative <;> simp [signText] at hsign; exact hsign)
  · exact Or.inr (hwhole.all c hc)

/-- A sign is taken off in front of digits. -/
theorem splitNumeral_signText (negative : Bool) {s : List Char} (hs : s.head?.any isDigit = true) :
    splitNumeral (signText negative ++ s) = splitUnsigned negative s := by
  cases negative with
  | true => rfl
  | false =>
      refine splitNumeral_unsigned fun hminus => ?_
      rw [signText, if_neg Bool.false_ne_true, List.nil_append] at hminus
      rw [hminus] at hs
      cases hs

/-- Digits and a fraction are cut off whole, and the exponent is what is cut off behind them. -/
theorem splitUnsigned_append_fraction {negative : Bool} {whole point part s : List Char}
    (hwhole : IsDigits whole) (hpoint : IsFraction point part) (hdigit : s.head?.any isDigit = false)
    (hfraction : point = [] → startsFraction s = false) :
    splitUnsigned negative (whole ++ (point ++ s)) = (do
      let (exponent, rest) ← splitExponent s
      if rest.head?.any startsWord then .error .malformedNumber
      else .ok (⟨negative, whole, part, exponent⟩, rest)) := by
  obtain ⟨htake, hdrop⟩ := hwhole.takeWhile (hpoint.digit hdigit)
  unfold splitUnsigned
  rw [htake, hdrop, hpoint.splitPart hdigit hfraction]

/-- **A numeral is cut off whole**, in front of a text that does not go on with it. -/
theorem IsNumeral.splitNumeral {text : List Char} {numeral : Numeral} (h : IsNumeral text numeral)
    (hr : EndsNumeral text r) : splitNumeral (text ++ r) = .ok (numeral, r) := by
  obtain @⟨negative, whole, point, part, marked, exponent, hwhole, hpoint, hmarked⟩ := h
  rw [List.append_assoc, List.append_assoc, List.append_assoc,
    splitNumeral_signText negative (hwhole.head?_append _),
    splitUnsigned_append_fraction hwhole hpoint (hmarked.digit hr.digit)
      (hr.startsFraction_marked hwhole hmarked),
    hmarked.splitExponent hr.digit fun _ => hr.marker]
  show (if r.head?.any startsWord then _ else _) = _
  rw [hr.word]
  rfl

theorem isNumeral_of_splitUnsigned {negative : Bool} {s after : List Char} {numeral : Numeral}
    (h : splitUnsigned negative s = .ok (numeral, after)) (hs : s.head?.any isDigit = true) :
    ∃ text, s = text ++ after ∧ IsNumeral (signText negative ++ text) numeral ∧
      EndsNumeral text after := by
  obtain ⟨hwhole, hstop⟩ := isDigits_takeWhile hs
  unfold splitUnsigned at h
  rcases hpart : splitPart (s.dropWhile isDigit) with ⟨part, rest⟩
  obtain ⟨point, hpointed, hpoint, hrest, hfraction⟩ := isFraction_of_splitPart hpart hstop
  rw [hpart] at h
  dsimp only at h
  cases hexponent : splitExponent rest with
  | error e =>
      rw [hexponent] at h
      cases h
  | ok found =>
      obtain ⟨exponent, rest'⟩ := found
      obtain ⟨marked, rfl, hmarked, hdigit, -⟩ := isExponent_of_splitExponent hexponent hrest
      rw [hexponent] at h
      change (if rest'.head?.any startsWord then _ else _) = _ at h
      split at h
      · cases h
      next hword =>
        cases h
        refine ⟨s.takeWhile isDigit ++ (point ++ marked), ?_, .mk hwhole hpoint hmarked,
          hdigit, by simpa using hword, fun hplain => ?_⟩
        · rw [List.append_assoc, List.append_assoc, ← hpointed, List.takeWhile_append_dropWhile]
        · have hno : ∀ {c : Char}, isDigit c = false → c ≠ '-' →
              c ∉ s.takeWhile isDigit ++ (point ++ marked) := by
            intro c hc hminus hmem
            rcases hplain c hmem with rfl | hdigit
            · exact hminus rfl
            · rw [hc] at hdigit
              cases hdigit
          cases hmarked with
          | @some c sign ds _ hc _ _ =>
              refine absurd ?_ (hno (c := c) ?_ ?_)
              · simp
              · rcases hc with rfl | rfl <;> rfl
              · rcases hc with rfl | rfl <;> decide
          | none =>
              cases hpoint with
              | none => exact hfraction rfl
              | some _ => exact absurd (by simp) (hno (c := '.') rfl (by decide))

/-- **What is cut off as a number is a numeral**, and what is left does not go on with it. -/
theorem isNumeral_of_splitNumeral {c : Char} {rest after : List Char} {numeral : Numeral}
    (hc : startsNumber c rest = true) (h : splitNumeral (c :: rest) = .ok (numeral, after)) :
    ∃ text, c :: rest = text ++ after ∧ IsNumeral text numeral ∧ EndsNumeral text after := by
  simp only [startsNumber, Bool.or_eq_true, Bool.and_eq_true, beq_iff_eq] at hc
  by_cases hminus : c = '-'
  · subst hminus
    have hdigit : rest.head?.any isDigit = true := hc.elim (fun hc => by cases hc) And.right
    have hunsigned : splitUnsigned true rest = .ok (numeral, after) := h
    obtain ⟨text, rfl, hnumeral, hends⟩ := isNumeral_of_splitUnsigned hunsigned hdigit
    refine ⟨'-' :: text, rfl, hnumeral, hends.digit, hends.word, fun hplain => hends.fraction ?_⟩
    exact fun d hd => hplain d (List.mem_cons_of_mem _ hd)
  · have hdigit : (c :: rest).head?.any isDigit = true :=
      hc.elim (fun hc => by simpa using hc) fun hc => absurd hc.1 hminus
    rw [splitNumeral_unsigned (by simpa using hminus)] at h
    exact isNumeral_of_splitUnsigned h hdigit

/-- A numeral starts a number, whatever stands behind it. -/
theorem IsNumeral.startsNumber {text : List Char} {numeral : Numeral} (h : IsNumeral text numeral) :
    ∃ c rest, text = c :: rest ∧ ∀ r, startsNumber c (rest ++ r) = true := by
  obtain @⟨negative, whole, point, part, marked, exponent, hwhole, -, -⟩ := h
  obtain ⟨d, ds, rfl, hd⟩ := hwhole.exists_cons
  cases negative with
  | true => exact ⟨'-', _, rfl, fun r => by simp [Lexer.startsNumber, hd]⟩
  | false => exact ⟨d, _, rfl, fun r => by simp [Lexer.startsNumber, hd]⟩

/-- **A numeral stands for the decimal of its parts.** -/
theorem IsNumeral.read? {text : List Char} {numeral : Numeral} (h : IsNumeral text numeral) :
    Number.read? text = some numeral.decimal.toNumber := by
  obtain @⟨negative, whole, point, part, marked, exponent, hwhole, hpoint, hmarked⟩ := h
  have hexponent : Decimal.readExponent? marked = some exponent := by
    cases hmarked with
    | none => rfl
    | @some c sign ds negative' hc hsign hds =>
        obtain ⟨d, more, hcons, hd⟩ := hds.exists_cons
        have hread : Decimal.readSign (sign ++ ds) = (negative', ds) :=
          hsign.readSign (by simp [hcons, hd])
        have hall : ds.all isDigit = true := List.all_eq_true.mpr hds.all
        simp [Decimal.readExponent?, hc, hread, hds.ne_nil, hall]
  have hdigit : (marked ++ []).head?.any isDigit = false := hmarked.digit rfl
  rw [List.append_nil] at hdigit
  obtain ⟨htake, hdrop⟩ := hwhole.takeWhile (hpoint.digit hdigit)
  have hunsigned : Decimal.readUnsigned? negative (whole ++ (point ++ marked))
      = some (Numeral.mk negative whole part exponent).decimal := by
    unfold Decimal.readUnsigned?
    rw [htake, hdrop]
    cases hpoint with
    | none =>
        -- An exponent does not begin with a point.
        cases hmarked with
        | none => simp [hwhole.ne_nil, hexponent, Numeral.decimal]
        | some hc _ _ =>
            rcases hc with rfl | rfl <;> simp [hwhole.ne_nil, hexponent, Numeral.decimal]
    | some hds =>
        obtain ⟨htake', hdrop'⟩ := hds.takeWhile hdigit
        simp [htake', hdrop', hwhole.ne_nil, hexponent, Numeral.decimal]
  obtain ⟨c, ds, rfl, hc⟩ := hwhole.exists_cons
  rw [Number.read?, List.cons_append, Decimal.readSign_signText negative hc]
  rw [List.cons_append] at hunsigned
  simp only [hunsigned]

end WhenClause.Lexer
