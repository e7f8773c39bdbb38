import WhenClause.Proofs.Safety.Checked
import WhenClause.Proofs.Token.Respacing

set_option autoImplicit false

/-! # Lexemes by indices

The lexer holds the characters of a text with their offsets and the index of the current one, and
cuts words and numbers out of the text between two offsets. What it cuts out as a number it hands
to a parser of decimals, which must take it. None of these steps crashes (`readLexeme_eq`): they
find the lexeme that the text goes on with, and the index behind it. -/

namespace WhenClause.Checked

open Decimal (isDigit)
open Lexer (byteLength byteLength_cons byteLength_append startsWord continuesWord IsNumeral)

variable (source : List Char)

/-! ## Runs of characters -/

/-- The first index from `i` on whose character is none of a class. -/
def skipWhile (p : Char → Bool) (i : Nat) : Nat :=
  match h : charAt source i with
  | some c => if p c then skipWhile p (i + 1) else i
  | none => i
termination_by source.length - i
decreasing_by
  have := lt_length_of_charAt h
  omega

variable {source}
variable {s : List Char} {i : Nat}

theorem rest_skipWhile (h : Rest source i s) (p : Char → Bool) :
    Rest source (skipWhile source p i) (s.dropWhile p) := by
  induction s generalizing i with
  | nil =>
      rw [skipWhile]
      split
      next hc => rw [h.charAt_eq] at hc; cases hc
      next => exact h
  | cons c s ih =>
      rw [skipWhile]
      split
      next d hd =>
        rw [h.charAt_eq] at hd
        cases hd
        rw [List.dropWhile_cons]
        split
        · exact ih h.next
        · exact h
      next hnone => rw [h.charAt_eq] at hnone; cases hnone

theorem skipWhile_eq (h : Rest source i s) (p : Char → Bool) :
    skipWhile source p i = i + (s.takeWhile p).length := by
  have hsplit : s.takeWhile p ++ s.dropWhile p = s := List.takeWhile_append_dropWhile
  rw [← hsplit] at h
  exact (hsplit ▸ rest_skipWhile h p).unique h.skip

/-! ## Numbers -/

section

variable (source : List Char)

/-- The index behind a point and digits, or the same index. -/
def pointEnd (i : Nat) : Nat :=
  if charAt source i = some '.' ∧ (charAt source (i + 1)).any isDigit = true then
    skipWhile source isDigit (i + 1)
  else i

/-- The index behind a sign, or the same index. -/
def signEnd (i : Nat) : Nat :=
  if (charAt source i).any fun c => c == '+' || c == '-' then i + 1 else i

/-- The index behind an exponent, or the same index. -/
def exponentEnd (i : Nat) : Except Fault Nat :=
  if (charAt source i).any fun c => c == 'e' || c == 'E' then
    let digits := signEnd source (i + 1)
    if (charAt source digits).any isDigit then .ok (skipWhile source isDigit digits)
    else .error .malformedExponent
  else .ok i

def numberEnd (i : Nat) : Except Fault Nat := do
  let whole := if charAt source i = some '-' then i + 1 else i
  let stop ← exponentEnd source (pointEnd source (skipWhile source isDigit whole))
  if (charAt source stop).any startsWord then .error .malformedNumber else .ok stop

/-- A number, cut out of the text and handed to a parser of decimals. -/
def readNumber (float : List Char → Option Number) (i : Nat) :
    Guarded (Except Fault (Lexeme × Nat)) :=
  match numberEnd source i with
  | .error cause => .ok (.error cause)
  | .ok stop => do
      let text ← slice source (offsetAt source i) (offsetAt source stop)
      match float text with
      | some x => return .ok (.number x, stop)
      | none => .error .numeral

end

/-- An index is found where the text goes on in a way, or there is none for the same reason. -/
def Reaches (source : List Char) (found : Except Fault Nat) : Except Fault (List Char) → Prop
  | .error cause => found = .error cause
  | .ok s => ∃ i, found = .ok i ∧ Rest source i s

theorem rest_pointEnd (h : Rest source i s) :
    Rest source (pointEnd source i) (Lexer.splitPart s).2 := by
  rw [pointEnd, h.charAt_eq]
  by_cases hfraction : Lexer.startsFraction s = true
  · cases s with
    | nil => cases hfraction
    | cons c rest =>
        simp only [Lexer.startsFraction, List.head?_cons, Bool.and_eq_true, beq_iff_eq,
          Option.some_inj, List.tail_cons] at hfraction
        obtain ⟨rfl, hdigit⟩ := hfraction
        have hcount : 0 < Lexer.digitCount rest := by
          obtain ⟨d, ds, hds, -⟩ := (Lexer.isDigits_takeWhile hdigit).1.exists_cons
          rw [Lexer.digitCount, hds]
          exact Nat.succ_pos _
        rw [if_pos ⟨rfl, h.next.charAt_eq ▸ hdigit⟩, Lexer.splitPart, if_pos hcount]
        exact rest_skipWhile h.next isDigit
  · have hplain : ¬(s.head? = some '.' ∧ (charAt source (i + 1)).any isDigit = true) := by
      rintro ⟨hpoint, hdigit⟩
      obtain ⟨rest, rfl⟩ := List.head?_eq_some_iff.mp hpoint
      rw [h.next.charAt_eq] at hdigit
      exact hfraction hdigit
    rw [if_neg hplain, Lexer.splitPart_of_startsFraction (by simpa using hfraction)]
    exact h

theorem rest_signEnd (h : Rest source i s) :
    Rest source (signEnd source i) (Decimal.readSign s).2 := by
  rw [signEnd, h.charAt_eq]
  cases s with
  | nil => exact h
  | cons c rest =>
      by_cases hminus : c = '-'
      · subst hminus
        exact h.next
      · by_cases hplus : c = '+'
        · subst hplus
          exact h.next
        · rw [if_neg (by simp [hminus, hplus]), Decimal.readSign]
          · exact h
          · exact fun rest heq => hminus (List.cons.inj heq).1
          · exact fun rest heq => hplus (List.cons.inj heq).1

theorem any_head?_iff {p : Char → Bool} {s : List Char} :
    s.head?.any p = true ↔ (s.takeWhile p).isEmpty = false := by
  cases s with
  | nil => simp
  | cons c s => cases hc : p c <;> simp [hc]

theorem reaches_exponentEnd (h : Rest source i s) :
    Reaches source (exponentEnd source i) ((Lexer.splitExponent s).map Prod.snd) := by
  rw [exponentEnd, h.charAt_eq]
  cases s with
  | nil => exact ⟨i, rfl, h⟩
  | cons c rest =>
      rw [Lexer.splitExponent]
      by_cases hc : c = 'e' ∨ c = 'E'
      · have hsign := rest_signEnd h.next
        rw [if_pos (by simpa using hc), if_pos hc]
        dsimp only
        rw [hsign.charAt_eq]
        cases hdigits : ((Decimal.readSign rest).2.takeWhile isDigit).isEmpty with
        | true =>
            rw [if_neg (by simp [any_head?_iff, hdigits]), if_pos rfl]
            rfl
        | false =>
            rw [if_pos (any_head?_iff.mpr hdigits), if_neg Bool.false_ne_true]
            exact ⟨_, rfl, rest_skipWhile hsign isDigit⟩
      · rw [if_neg (by simpa using hc), if_neg hc]
        exact ⟨i, rfl, h⟩

/-- A number without its sign. -/
theorem reaches_unsigned (negative : Bool) (h : Rest source i s) :
    Reaches source
      (exponentEnd source (pointEnd source (skipWhile source isDigit i)) >>= fun stop =>
        if (charAt source stop).any startsWord then .error .malformedNumber else .ok stop)
      ((Lexer.splitUnsigned negative s).map Prod.snd) := by
  have hexponent := reaches_exponentEnd (rest_pointEnd (rest_skipWhile h isDigit))
  unfold Lexer.splitUnsigned
  generalize exponentEnd source _ = found at hexponent ⊢
  dsimp only
  cases hsplit : Lexer.splitExponent (Lexer.splitPart (s.dropWhile isDigit)).2 with
  | error cause =>
      rw [hsplit] at hexponent
      rw [show found = .error cause from hexponent]
      rfl
  | ok split =>
      rw [hsplit] at hexponent
      obtain ⟨stop, rfl, hstop⟩ := hexponent
      show Reaches source (if (charAt source stop).any startsWord then _ else _)
        (Except.map Prod.snd (if split.2.head?.any startsWord then _ else _))
      rw [hstop.charAt_eq]
      split
      · rfl
      · exact ⟨stop, rfl, hstop⟩

theorem reaches_numberEnd (h : Rest source i s) :
    Reaches source (numberEnd source i) ((Lexer.splitNumeral s).map Prod.snd) := by
  rw [numberEnd, h.charAt_eq]
  by_cases hminus : s.head? = some '-'
  · obtain ⟨rest, rfl⟩ := List.head?_eq_some_iff.mp hminus
    exact reaches_unsigned true h.next
  · rw [if_neg hminus, Lexer.splitNumeral_unsigned hminus]
    exact reaches_unsigned false h

/-! ## Strings -/

section

variable (source : List Char)

def readCode (i : Nat) : Option Char := do
  let a ← charAt source i
  let b ← charAt source (i + 1)
  let c ← charAt source (i + 2)
  let d ← charAt source (i + 3)
  Lexer.codeEscape? a b c d

/-- The character that stands behind a backslash, and how many characters are taken for it. -/
def readEscape (i : Nat) : Except Fault (Char × Nat) :=
  match charAt source i with
  | none => .error .unclosedString
  | some c =>
      if c = 'u' then
        match readCode source (i + 1) with
        | some decoded => .ok (decoded, 5)
        | none => .error .invalidCode
      else
        match Lexer.simpleEscape? c with
        | some decoded => .ok (decoded, 1)
        | none => .error (.invalidEscape c)

/-- The contents of a string from an index on, and the index behind its closing quote. -/
def readString (quote : Char) (i : Nat) : Except Fault (List Char × Nat) :=
  match h : charAt source i with
  | none => .error .unclosedString
  | some c =>
      if c = quote then .ok ([], i + 1)
      else if c = '\\' then
        readEscape source (i + 1) >>= fun (decoded, taken) =>
          (readString quote (i + 1 + taken)).map fun (body, stop) => (decoded :: body, stop)
      else (readString quote (i + 1)).map fun (body, stop) => (c :: body, stop)
termination_by source.length - i
decreasing_by
  · have := lt_length_of_charAt h
    omega
  · have := lt_length_of_charAt h
    omega

end

theorem readCode_eq {a b c d : Char} {rest : List Char}
    (h : Rest source i (a :: b :: c :: d :: rest)) :
    readCode source i = Lexer.codeEscape? a b c d := by
  rw [readCode, h.charAt_eq, h.next.charAt_eq, h.next.next.charAt_eq, h.next.next.next.charAt_eq]
  rfl

/-- A code of too few digits is none. -/
theorem readCode_short (h : Rest source i s)
    (hs : ∀ a b c d rest, s ≠ a :: b :: c :: d :: rest) : readCode source i = none := by
  rw [readCode, h.charAt_eq]
  match s, hs with
  | [], _ => rfl
  | [a], _ => rw [h.next.charAt_eq]; rfl
  | [a, b], _ => rw [h.next.charAt_eq, h.next.next.charAt_eq]; rfl
  | [a, b, c], _ =>
      rw [h.next.charAt_eq, h.next.next.charAt_eq, h.next.next.next.charAt_eq]
      rfl
  | a :: b :: c :: d :: rest, hs => exact absurd rfl (hs a b c d rest)

theorem readString_nil {quote : Char} (h : Rest source i []) :
    readString source quote i = .error .unclosedString := by
  rw [readString]
  split
  next => rfl
  next c hc => rw [h.charAt_eq] at hc; cases hc

theorem readString_cons {quote c : Char} {rest : List Char} (h : Rest source i (c :: rest)) :
    readString source quote i =
      if c = quote then .ok ([], i + 1)
      else if c = '\\' then readEscape source (i + 1) >>= fun escaped =>
        (readString source quote (i + 1 + escaped.2)).map fun found =>
          (escaped.1 :: found.1, found.2)
      else (readString source quote (i + 1)).map fun found => (c :: found.1, found.2) := by
  rw [readString]
  split
  next hnone => rw [h.charAt_eq] at hnone; cases hnone
  next d hd =>
    rw [h.charAt_eq] at hd
    cases hd
    rfl

/-- A character in front of what a string goes on with. -/
theorem map_behind {i j n : Nat} (h : j = i + n) (d : Char)
    (found : Except Fault (List Char × Nat)) :
    (found.map fun found => (found.1, j + found.2)).map (fun found => (d :: found.1, found.2))
      = (found.map fun (body, k) => (d :: body, k + n)).map
        fun found => (found.1, i + found.2) := by
  cases found with
  | error cause => rfl
  | ok found =>
      show Except.ok (d :: found.1, j + found.2) = .ok (d :: found.1, i + (found.2 + n))
      rw [h, Nat.add_right_comm, Nat.add_assoc]

/-- **A string is read to its closing quote.** -/
theorem readString_eq {quote : Char} (hquote : quote ≠ '\\') (h : Rest source i s) :
    readString source quote i
      = (Lexer.stringBody quote s).map fun found => (found.1, i + found.2) := by
  -- Behind a backslash the character that it escapes decides.
  have hescaped {i : Nat} {rest : List Char} {result : Except Fault (Char × Nat)}
      (h : Rest source i ('\\' :: rest)) (hresult : readEscape source (i + 1) = result) :
      readString source quote i = result >>= fun escaped =>
        (readString source quote (i + 1 + escaped.2)).map
          fun found => (escaped.1 :: found.1, found.2) := by
    rw [readString_cons h, if_neg hquote.symm, if_pos rfl, hresult]
  fun_induction Lexer.stringBody quote s generalizing i with
  | case1 => exact readString_nil h
  | case2 a b c d rest decoded hcode ih =>
      have hescape : readEscape source (i + 1) = .ok (decoded, 5) := by
        rw [readEscape, h.next.charAt_eq, readCode_eq h.next.next, hcode]
        rfl
      have hrest : Rest source (i + 1 + 5) rest := Rest.skip (m := ['u', a, b, c, d]) h.next
      rw [hescaped h hescape]
      show (readString source quote (i + 1 + 5)).map _ = _
      rw [ih hrest]
      exact map_behind (show i + 1 + 5 = i + 6 from rfl) decoded _
  | case3 a b c d rest hcode =>
      have hescape : readEscape source (i + 1) = .error .invalidCode := by
        rw [readEscape, h.next.charAt_eq, readCode_eq h.next.next, hcode]
        rfl
      rw [hescaped h hescape]
      rfl
  | case4 rest hshort =>
      have hescape : readEscape source (i + 1) = .error .invalidCode := by
        rw [readEscape, h.next.charAt_eq, readCode_short h.next.next fun a b c d rest heq =>
          hshort a b c d rest heq]
        rfl
      rw [hescaped h hescape]
      rfl
  | case5 =>
      have hescape : readEscape source (i + 1) = .error .unclosedString := by
        rw [readEscape, h.next.charAt_eq]
        rfl
      rw [hescaped h hescape]
      rfl
  | case6 c rest hcode hu decoded hdecoded ih =>
      have hc : c ≠ 'u' := fun heq => hu heq
      have hescape : readEscape source (i + 1) = .ok (decoded, 1) := by
        rw [readEscape, h.next.charAt_eq]
        simp only [List.head?_cons, if_neg hc, hdecoded]
      rw [hescaped h hescape]
      show (readString source quote (i + 1 + 1)).map _ = _
      rw [ih h.next.next]
      exact map_behind (show i + 1 + 1 = i + 2 from rfl) decoded _
  | case7 c rest hcode hu hdecoded =>
      have hc : c ≠ 'u' := fun heq => hu heq
      have hescape : readEscape source (i + 1) = .error (.invalidEscape c) := by
        rw [readEscape, h.next.charAt_eq]
        simp only [List.head?_cons, if_neg hc, hdecoded]
      rw [hescaped h hescape]
      rfl
  | case8 rest =>
      rw [readString_cons h, if_pos rfl]
      rfl
  | case9 c rest hu hu' hnil hcons hc ih =>
      have hplain : c ≠ '\\' := by
        intro heq
        cases rest with
        | nil => exact hnil heq rfl
        | cons d rest => exact hcons d rest heq rfl
      rw [readString_cons h, if_neg hc, if_neg hplain, ih h.next]
      exact map_behind rfl c _

/-! ## Lexemes -/

section

variable (source : List Char)

/-- A word, cut out of the text, and the index behind it. -/
def readWord (i : Nat) : Guarded (Lexeme × Nat) := do
  let stop := skipWhile source continuesWord i
  let word ← slice source (offsetAt source i) (offsetAt source stop)
  return (Lexer.wordLexeme (String.ofList word), stop)

/-- The lexeme that starts with the character `c` at an index, and the index behind it. -/
def readLexeme (float : List Char → Option Number) (c : Char) (i : Nat) :
    Guarded (Except Fault (Lexeme × Nat)) :=
  match (charAt source (i + 1)).bind (Lexer.doubleSymbol? c) with
  | some x => .ok (.ok (.symbol x, i + 2))
  | none =>
      match Lexer.singleSymbol? c with
      | some x => .ok (.ok (.symbol x, i + 1))
      | none =>
          if c = '"' ∨ c = '\x27' then
            .ok ((readString source c (i + 1)).map fun (body, stop) =>
              (.string (String.ofList body), stop))
          else if isDigit c || (c == '-' && (charAt source (i + 1)).any isDigit) then
            readNumber source float i
          else if startsWord c then (readWord source i).map .ok
          else .ok (.error (.unexpectedCharacter c))

end

variable {float : List Char → Option Number}

/-- A parser of decimals takes every numeral. -/
def Accepts (float : List Char → Option Number) : Prop :=
  ∀ text numeral, IsNumeral text numeral → (float text).isSome = true

/-- A parser of decimals gives the nearest number to every numeral. -/
def Exact (float : List Char → Option Number) : Prop :=
  ∀ text numeral, IsNumeral text numeral → float text = some numeral.decimal.toNumber

/-- A lexeme with the number that the parser finds in its text. -/
def valued (float : List Char → Option Number) (text : List Char) : Lexeme → Lexeme
  | .number x => .number ((float text).getD x)
  | l => l

theorem take_of_split {c : Char} {rest text after : List Char} (h : c :: rest = text ++ after)
    (htext : text ≠ []) : c :: rest.take (rest.length - after.length) = text := by
  obtain ⟨d, more, rfl⟩ := List.exists_cons_of_ne_nil htext
  rw [List.cons_append] at h
  obtain ⟨rfl, rfl⟩ := List.cons.inj h
  rw [List.length_append, Nat.add_sub_cancel, List.take_left]

theorem valued_wordLexeme (text : List Char) (name : String) :
    valued float text (Lexer.wordLexeme name) = Lexer.wordLexeme name := by
  unfold Lexer.wordLexeme
  split
  · rfl
  · split
    · rfl
    · split <;> rfl

/-- A number is cut off as its numeral. -/
theorem isNumeral_take {c : Char} {rest after : List Char} {numeral : Lexer.Numeral}
    (hc : Lexer.startsNumber c rest = true)
    (h : Lexer.splitNumeral (c :: rest) = .ok (numeral, after)) :
    IsNumeral (c :: rest.take (rest.length - after.length)) numeral ∧
      c :: rest = (c :: rest.take (rest.length - after.length)) ++ after := by
  obtain ⟨text, htext, hnumeral, -⟩ := Lexer.isNumeral_of_splitNumeral hc h
  have hne : text ≠ [] := by
    obtain ⟨d, more, rfl, -⟩ := hnumeral.startsNumber
    exact List.cons_ne_nil d more
  rw [take_of_split htext hne]
  exact ⟨hnumeral, htext⟩

theorem readNumber_eq (hfloat : Accepts float) {c : Char} {rest : List Char}
    (h : Rest source i (c :: rest)) (hc : Lexer.startsNumber c rest = true) :
    readNumber source float i = .ok ((Lexer.splitNumeral (c :: rest)).map fun (numeral, after) =>
      (valued float (c :: rest.take (rest.length - after.length))
          (.number numeral.decimal.toNumber),
        i + 1 + (rest.length - after.length))) := by
  have hreach := reaches_numberEnd h
  rw [readNumber]
  cases hsplit : Lexer.splitNumeral (c :: rest) with
  | error cause =>
      rw [hsplit] at hreach
      rw [show numberEnd source i = .error cause from hreach]
      rfl
  | ok found =>
      obtain ⟨numeral, after⟩ := found
      rw [hsplit] at hreach
      obtain ⟨stop, hstop, hafter⟩ := hreach
      obtain ⟨hnumeral, htext⟩ := isNumeral_take hc hsplit
      rw [htext] at h
      have hlength : (c :: rest.take (rest.length - after.length)).length
          = 1 + (rest.length - after.length) := by
        rw [List.length_cons, List.length_take_of_le (Nat.sub_le _ _), Nat.add_comm]
      obtain rfl : stop = i + 1 + (rest.length - after.length) := by
        rw [Nat.add_assoc, ← hlength]
        exact hafter.unique h.skip
      have hslice := h.slice_eq
      rw [hlength, ← Nat.add_assoc] at hslice
      obtain ⟨x, hx⟩ := Option.isSome_iff_exists.mp (hfloat _ numeral hnumeral)
      rw [hstop]
      show (slice source (offsetAt source i) (offsetAt source _) >>= _) = _
      rw [hslice]
      show (match float _ with | some x => _ | none => _) = _
      rw [hx]
      show _ = Except.ok (Except.ok (Lexeme.number ((float _).getD _), _))
      rw [hx]
      rfl

theorem readWord_eq {c : Char} {rest : List Char} (hc : startsWord c = true)
    (h : Rest source i (c :: rest)) :
    readWord source i =
      .ok (Lexer.wordLexeme (String.ofList (c :: rest.takeWhile continuesWord)),
        i + 1 + (rest.takeWhile continuesWord).length) := by
  have htake : (c :: rest).takeWhile continuesWord = c :: rest.takeWhile continuesWord := by
    rw [List.takeWhile_cons, if_pos (by simp [Lexer.continuesWord, hc])]
  have hsplit : (c :: rest.takeWhile continuesWord) ++ (c :: rest).dropWhile continuesWord
      = c :: rest := by
    rw [← htake, List.takeWhile_append_dropWhile]
  rw [readWord, skipWhile_eq h, htake]
  rw [← hsplit] at h
  show (slice source (offsetAt source i) (offsetAt source _) >>= _) = _
  rw [h.slice_eq, List.length_cons, Nat.add_assoc, Nat.add_comm 1]
  rfl

/-- **A lexeme is read without a crash**, and it is the one that the text goes on with. -/
theorem readLexeme_eq (hfloat : Accepts float) {c : Char} {rest : List Char}
    (h : Rest source i (c :: rest)) :
    readLexeme source float c i = .ok ((Lexer.lexeme c rest).map fun (l, n) =>
      (valued float (c :: rest.take n) l, i + 1 + n)) := by
  rw [readLexeme, h.next.charAt_eq]
  unfold Lexer.lexeme Lexer.symbol?
  cases rest.head?.bind (Lexer.doubleSymbol? c) with
  | some x => rfl
  | none =>
      cases Lexer.singleSymbol? c with
      | some x => rfl
      | none =>
          dsimp only [Option.map_none]
          by_cases hquote : c = '"' ∨ c = '\x27'
          · have hplain : c ≠ '\\' := by rcases hquote with rfl | rfl <;> decide
            rw [if_pos hquote, if_pos hquote, readString_eq hplain h.next]
            cases Lexer.stringBody c rest <;> rfl
          · rw [if_neg hquote, if_neg hquote, ← Lexer.startsNumber]
            by_cases hnumber : Lexer.startsNumber c rest = true
            · rw [if_pos hnumber, if_pos hnumber, readNumber_eq hfloat h hnumber]
              cases Lexer.splitNumeral (c :: rest) <;> rfl
            · rw [if_neg hnumber, if_neg hnumber]
              by_cases hword : startsWord c = true
              · rw [if_pos hword, if_pos hword, readWord_eq hword h]
                show _ = Except.ok (Except.ok (valued float _ (Lexer.wordLexeme _), _))
                rw [valued_wordLexeme]
                rfl
              · rw [if_neg hword, if_neg hword]
                rfl

theorem isNumeral_of_lexeme {c : Char} {rest : List Char} {x : Number} {n : Nat}
    (h : Lexer.lexeme c rest = .ok (.number x, n)) :
    ∃ numeral, IsNumeral (c :: rest.take n) numeral ∧ x = numeral.decimal.toNumber := by
  generalize hl : Lexeme.number x = l at h
  cases Lexer.isLexeme_of_lexeme h with
  | symbol _ => cases hl
  | string _ _ => cases hl
  | number hc hsplit =>
      cases hl
      exact ⟨_, (isNumeral_take hc hsplit).1, rfl⟩
  | word _ =>
      unfold Lexer.wordLexeme at hl
      split_ifs at hl

end WhenClause.Checked
