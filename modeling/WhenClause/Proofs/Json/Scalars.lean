import WhenClause.Json.Written
import WhenClause.Proofs.Json.Strings
import WhenClause.Proofs.Number.Written
import WhenClause.Proofs.Token.Words

set_option autoImplicit false

/-! # Lists of scalars in JSON texts

A scalar is null, a truth value, an integer or a string. In front of a comma or a bracket its text
is read as it (`Reader.scalar?_text`), if an integer fits 64 bits. So a list of scalars with commas
between them is read as the array of them (`parse_items`). -/

namespace WhenClause.Json

open Decimal (isDigit digitsOfNat signText natOfDigits)
open Lexer (Delimits delimits_cons isDelimiter_cases)

/-- A JSON value that is neither a container nor a float. -/
inductive Scalar where
  | null
  | bool (b : Bool)
  | integer (i : Int)
  | string (s : String)

namespace Scalar

def json : Scalar → Json
  | null => .null
  | bool b => .bool b
  | integer i => .integer i
  | string s => .string s

def text (a : Scalar) : List Char := a.json.compact.toList

def listText (a : Scalar) (more : List Scalar) : List Char :=
  a.text ++ more.flatMap fun b => ',' :: ' ' :: b.text

def isString : Scalar → Bool
  | string _ => true
  | _ => false

/-- An integer fits 64 bits, with a sign or without one. -/
def Fits : Scalar → Prop
  | integer i => -2 ^ (63 : Nat) ≤ i ∧ i < 2 ^ (64 : Nat)
  | _ => True

theorem listText_nil (a : Scalar) : listText a [] = a.text := List.append_nil _

theorem listText_cons (a b : Scalar) (more : List Scalar) :
    listText a (b :: more) = a.text ++ ',' :: ' ' :: listText b more := rfl

theorem text_integer (i : Int) :
    (integer i).text = signText (i < 0) ++ digitsOfNat i.natAbs := by
  rw [text, json, compact, String.toList_ofList, Decimal.intText_eq]

theorem text_string (s : String) :
    (string s).text = '"' :: (Text.Quoted.body s.toList ++ ['"']) := by
  rw [text, json, compact, Text.Quoted.quote, String.toList_ofList, Text.Quoted.encode]

/-- The text of an integer begins with a digit or a sign. -/
theorem text_integer_cons (i : Int) :
    ∃ c rest, (integer i).text = c :: rest ∧ (isDigit c = true ∨ c = '-') := by
  obtain ⟨d, more, hdigits, hd⟩ := Decimal.digitsOfNat_cons i.natAbs
  rw [text_integer, hdigits]
  by_cases hi : i < 0
  · exact ⟨'-', d :: more, by simp [signText, hi], Or.inr rfl⟩
  · exact ⟨d, more, by simp [signText, hi], Or.inl hd⟩

/-- A digit or a sign is no other character. -/
theorem ne_of_digit_or_sign {c d : Char} (hc : isDigit c = true ∨ c = '-')
    (hd : isDigit d = false) (hminus : d ≠ '-') : c ≠ d := by
  rintro rfl
  rcases hc with hdigit | hsign
  · rw [hd] at hdigit
    cases hdigit
  · exact hminus hsign

/-- No scalar begins with a blank or a bracket. -/
theorem text_cons (a : Scalar) :
    ∃ c rest, a.text = c :: rest ∧ Reader.isBlank c = false ∧ c ≠ '[' ∧ c ≠ ']' ∧ c ≠ '\x7b' := by
  cases a with
  | null => exact ⟨'n', ['u', 'l', 'l'], rfl, rfl, by decide, by decide, by decide⟩
  | bool b =>
      cases b with
      | true => exact ⟨'t', ['r', 'u', 'e'], rfl, rfl, by decide, by decide, by decide⟩
      | false => exact ⟨'f', ['a', 'l', 's', 'e'], rfl, rfl, by decide, by decide, by decide⟩
  | string s => exact ⟨'"', _, text_string s, rfl, by decide, by decide, by decide⟩
  | integer i =>
      obtain ⟨c, rest, htext, hc⟩ := text_integer_cons i
      have hne {d : Char} := ne_of_digit_or_sign (d := d) hc
      refine ⟨c, rest, htext, ?_, hne rfl (by decide), hne rfl (by decide), hne rfl (by decide)⟩
      simp [Reader.isBlank, hne (d := ' ') rfl (by decide), hne (d := '\t') rfl (by decide),
        hne (d := '\n') rfl (by decide), hne (d := '\r') rfl (by decide)]

end Scalar

namespace Reader

variable {depth n : Nat} {r : List Char}

/-! ## Scalars -/

/-- The digits of a number are read whole. -/
theorem splitWhole_digits (n : Nat) (hr : Delimits r) :
    splitWhole (digitsOfNat n ++ r) = some (digitsOfNat n, r) := by
  obtain ⟨c, rest, hdigits, hc⟩ := Decimal.digitsOfNat_cons n
  have hall : ∀ d ∈ rest, isDigit d = true := fun d hd =>
    Decimal.isDigit_of_mem_digitsOfNat (hdigits ▸ List.mem_cons_of_mem c hd)
  have hstop : r.head?.any isDigit = false := by
    obtain ⟨d, after, rfl, hd⟩ := delimits_cons hr
    simpa using Lexer.isDigit_delimiter d hd
  rw [hdigits, List.cons_append, splitWhole]
  split
  next hzero =>
    -- A zero in front is the only digit.
    subst hzero
    obtain rfl : n = 0 := Decimal.eq_zero_of_head?_digitsOfNat (by rw [hdigits]; rfl)
    obtain rfl : rest = [] := (List.cons.inj hdigits).2.symm
    rw [List.nil_append, hstop]
    rfl
  next =>
    obtain ⟨htake, hdrop⟩ := Lexer.takeWhile_stop hall hstop
    rw [htake, hdrop]

/-- The text of an integer is a numeral without fraction and exponent. -/
theorem splitNumeral_integer (i : Int) (hr : Delimits r) :
    splitNumeral ((Scalar.integer i).text ++ r)
      = some (⟨i < 0, digitsOfNat i.natAbs, none, none⟩, r) := by
  have hpart : splitPart r = some (none, r) := by
    obtain ⟨d, after, rfl, hd⟩ := delimits_cons hr
    rcases isDelimiter_cases hd with rfl | rfl | rfl | rfl <;> rfl
  have hexponent : splitExponent r = some (none, r) := by
    obtain ⟨d, after, rfl, hd⟩ := delimits_cons hr
    rcases isDelimiter_cases hd with rfl | rfl | rfl | rfl <;> rfl
  have hwhole := splitWhole_digits i.natAbs hr
  obtain ⟨c, rest, hdigits, hc⟩ := Decimal.digitsOfNat_cons i.natAbs
  rw [Scalar.text_integer]
  unfold splitNumeral
  by_cases hi : i < 0
  · simp [signText, hi, hwhole, hpart, hexponent]
  · have hminus : c ≠ '-' := by
      rintro rfl
      cases hc
    rw [hdigits, List.cons_append] at hwhole
    rw [hdigits]
    simp [signText, hi, hminus, hwhole, hpart, hexponent]

/-- An integer of 64 bits has the value that it was written for. -/
theorem value?_integer {i : Int} (h : (Scalar.integer i).Fits) :
    Numeral.value? ⟨i < 0, digitsOfNat i.natAbs, none, none⟩ = some (.integer i) := by
  obtain ⟨hleast, hmost⟩ := h
  rw [Numeral.value?]
  simp only [Decimal.natOfDigits_digitsOfNat, decide_eq_true_eq]
  by_cases hi : i < 0
  · have hbound : 0 < i.natAbs ∧ i.natAbs ≤ 2 ^ 63 := by omega
    have hvalue : -(i.natAbs : Int) = i := by omega
    rw [if_pos hi, if_pos hbound, hvalue]
  · have hbound : i.natAbs < digitsBound := by
      show i.natAbs < 2 ^ 64
      omega
    have hvalue : (i.natAbs : Int) = i := by omega
    rw [if_neg hi, if_pos hbound, hvalue]

/-- What begins neither a word nor a string is read as a number. -/
theorem scalar?_number {c : Char} {rest : List Char} (hc : isDigit c = true ∨ c = '-') :
    scalar? (c :: rest) = (splitNumeral (c :: rest)).bind fun (numeral, after) =>
      numeral.value?.map fun value => (value, after) := by
  have hne {d : Char} := Scalar.ne_of_digit_or_sign (d := d) hc
  unfold scalar?
  split
  next heq => exact absurd (List.cons.inj heq).1 (hne rfl (by decide))
  next heq => exact absurd (List.cons.inj heq).1 (hne rfl (by decide))
  next heq => exact absurd (List.cons.inj heq).1 (hne rfl (by decide))
  next heq => exact absurd (List.cons.inj heq).1 (hne rfl (by decide))
  next =>
    cases splitNumeral (c :: rest) with
    | none => rfl
    | some found =>
        obtain ⟨numeral, after⟩ := found
        show (numeral.value? >>= _) = numeral.value?.map _
        cases numeral.value? <;> rfl

/-- **A scalar is read from its text**, in front of a comma or a bracket. -/
theorem scalar?_text {a : Scalar} (h : a.Fits) (hr : Delimits r) :
    scalar? (a.text ++ r) = some (a.json, r) := by
  cases a with
  | null => rfl
  | bool b => cases b <;> rfl
  | string s =>
      rw [Scalar.text_string, List.cons_append, List.append_assoc]
      show (stringBody (Text.Quoted.body s.toList ++ '"' :: r)).map _ = _
      rw [stringBody_body]
      simp [Scalar.json]
  | integer i =>
      obtain ⟨c, rest, htext, hc⟩ := Scalar.text_integer_cons i
      have hsplit := splitNumeral_integer i hr
      rw [htext, List.cons_append] at hsplit ⊢
      rw [scalar?_number hc, hsplit]
      show (Numeral.value? ⟨i < 0, digitsOfNat i.natAbs, none, none⟩).map _ = _
      rw [value?_integer h]
      rfl

/-! ## Lists -/

/-- What was read, without the evidence. -/
def found {α : Type} (o : Option (Reading α n)) : Option (α × List Char) :=
  o.map fun reading => (reading.result, reading.rest)

theorem found_readScalar {s : List Char} {value : Json} (h : scalar? s = some (value, r))
    (hlt : r.length < s.length) : found (readScalar s) = some (value, r) := by
  rw [readScalar, h]
  dsimp only
  rw [dif_pos hlt]
  rfl

/-- What begins neither an array nor an object is a scalar. -/
theorem found_readValue_scalar {s rest : List Char} {c : Char} (h : skip s = c :: rest)
    (hbracket : c ≠ '[') (hbrace : c ≠ '\x7b') :
    found (readValue depth s) = found (readScalar (c :: rest)) := by
  rw [readValue.eq_def]
  split
  next heq =>
    rw [h] at heq
    cases heq
  next c' rest' heq =>
    obtain ⟨rfl, rfl⟩ := List.cons.inj (h.symm.trans heq)
    dsimp only
    rw [if_neg hbracket, if_neg hbrace]
    cases readScalar (c :: rest) <;> rfl

/-- An array that does not close at once has items. -/
theorem found_readValue_array {s rest : List Char} (h : skip s = '[' :: rest)
    (hrest : (skip rest).head? ≠ some ']') :
    found (readValue (depth + 1) s) =
      (found (readItems depth rest)).map fun (items, after) => (.array items, after) := by
  rw [readValue.eq_def]
  split
  next heq =>
    rw [h] at heq
    cases heq
  next c' rest' heq =>
    obtain ⟨rfl, rfl⟩ := List.cons.inj (h.symm.trans heq)
    dsimp only
    rw [if_pos rfl, if_neg (Nat.succ_ne_zero depth)]
    split
    next hclose =>
      rw [hclose] at hrest
      exact absurd rfl hrest
    next =>
      show found ((readItems depth rest).map _) = _
      cases readItems depth rest <;> rfl

/-- Behind an item and a comma stand more items. -/
theorem found_readItems_more {s after : List Char} {value : Json}
    (hitem : found (readValue depth s) = some (value, r)) (h : skip r = ',' :: after) :
    found (readItems depth s) =
      (found (readItems depth after)).map fun (items, rest) => (value :: items, rest) := by
  obtain ⟨⟨value, rest, hshorter⟩, hreading, hfound⟩ := Option.map_eq_some_iff.mp hitem
  cases hfound
  rw [readItems, hreading]
  dsimp only [Option.bind_eq_bind, Option.bind_some]
  split
  next after' heq =>
    obtain rfl : after = after' := (List.cons.inj (h.symm.trans heq)).2
    cases readItems depth after <;> rfl
  next heq => cases h.symm.trans heq
  next hcomma _ => exact absurd h (hcomma after)

/-- Behind the last item stands the bracket that closes the array. -/
theorem found_readItems_last {s after : List Char} {value : Json}
    (hitem : found (readValue depth s) = some (value, r)) (h : skip r = ']' :: after) :
    found (readItems depth s) = some ([value], after) := by
  obtain ⟨⟨value, rest, hshorter⟩, hreading, hfound⟩ := Option.map_eq_some_iff.mp hitem
  cases hfound
  rw [readItems, hreading]
  dsimp only [Option.bind_eq_bind, Option.bind_some]
  split
  next heq => cases h.symm.trans heq
  next after' heq =>
    obtain rfl : after = after' := (List.cons.inj (h.symm.trans heq)).2
    rfl
  next hclose => exact absurd h (hclose after)

/-- There are no blanks in front of a scalar. -/
theorem skip_text (a : Scalar) (s : List Char) : skip (a.text ++ s) = a.text ++ s := by
  obtain ⟨c, rest, htext, hblank, -⟩ := a.text_cons
  rw [htext, List.cons_append, skip, List.dropWhile_cons, hblank]
  rfl

/-- A scalar is an item, with or without blanks in front. -/
theorem found_item {a : Scalar} (h : a.Fits) (hr : Delimits r) {s : List Char}
    (hs : skip s = a.text ++ r) : found (readValue depth s) = some (a.json, r) := by
  obtain ⟨c, rest, htext, -, hbracket, -, hbrace⟩ := a.text_cons
  have hscalar := scalar?_text h hr
  rw [htext, List.cons_append] at hs hscalar
  rw [found_readValue_scalar hs hbracket hbrace]
  refine found_readScalar hscalar ?_
  simp only [List.length_cons, List.length_append]
  omega

/-- **Scalars with commas between them are read as items**, up to the bracket behind them. -/
theorem found_readItems {a : Scalar} {more : List Scalar} (hfits : ∀ b ∈ a :: more, b.Fits)
    {s : List Char} (hs : skip s = Scalar.listText a more ++ ']' :: r) :
    found (readItems depth s) = some ((a :: more).map Scalar.json, r) := by
  induction more generalizing a s with
  | nil =>
      rw [Scalar.listText_nil] at hs
      have hclose : Delimits (']' :: r) := rfl
      exact found_readItems_last (found_item (hfits a List.mem_cons_self) hclose hs) rfl
  | cons b more ih =>
      obtain ⟨ha, hmore⟩ := List.forall_mem_cons.mp hfits
      rw [Scalar.listText_cons, List.append_assoc, List.cons_append] at hs
      have hcomma : Delimits (',' :: (' ' :: Scalar.listText b more ++ ']' :: r)) := rfl
      have hskip : skip (' ' :: Scalar.listText b more ++ ']' :: r)
          = Scalar.listText b more ++ ']' :: r := by
        show skip (Scalar.listText b more ++ ']' :: r) = _
        rw [Scalar.listText, List.append_assoc, skip_text]
      rw [found_readItems_more (found_item ha hcomma hs) rfl, ih hmore hskip]
      rfl

end Reader

/-- **A list of scalars is read as the array of them.** -/
theorem parse_items {a : Scalar} {more : List Scalar} (hfits : ∀ b ∈ a :: more, b.Fits) :
    parse ('[' :: (Scalar.listText a more ++ [']']))
      = some (.array ((a :: more).map Scalar.json)) := by
  have hskip : Reader.skip (Scalar.listText a more ++ [']']) = Scalar.listText a more ++ [']'] := by
    rw [Scalar.listText, List.append_assoc, Reader.skip_text]
  have hfirst : (Reader.skip (Scalar.listText a more ++ [']'])).head? ≠ some ']' := by
    obtain ⟨c, rest, htext, -, -, hclose, -⟩ := a.text_cons
    rw [hskip, Scalar.listText, htext, List.cons_append, List.cons_append, List.head?_cons]
    exact fun heq => hclose (Option.some.inj heq)
  have harray : Reader.skip ('[' :: (Scalar.listText a more ++ [']']))
      = '[' :: (Scalar.listText a more ++ [']']) := rfl
  have hvalue : Reader.found (Reader.readValue (126 + 1) ('[' :: (Scalar.listText a more ++ [']'])))
      = some (.array ((a :: more).map Scalar.json), []) := by
    rw [Reader.found_readValue_array harray hfirst, Reader.found_readItems hfits hskip]
    rfl
  obtain ⟨reading, hreading, hfound⟩ := Option.map_eq_some_iff.mp hvalue
  obtain ⟨hresult, hrest⟩ := Prod.mk.inj hfound
  rw [parse, parseWithin, show maxDepth = 126 + 1 from rfl, hreading]
  show (if (Reader.skip reading.rest).isEmpty then some reading.result else none) = _
  rw [hrest, hresult]
  rfl

end WhenClause.Json
