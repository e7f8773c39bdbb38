import WhenClause.Token.Lexer

set_option autoImplicit false

/-! # Tokens of texts put together

No token goes on across a comma or a closing bracket. In front of such a delimiter a text has the
tokens that it has alone, and the text behind has its own (`scan_append`); where a text stands
only moves its tokens (`scan_shift`). -/

namespace WhenClause

def Token.shift (k : Nat) (t : Token) : Token := ⟨t.lexeme, t.start + k, t.stop + k⟩

namespace Lexer

/-! ## Delimiters -/

/-- A character that no token goes on with. -/
def isDelimiter (c : Char) : Bool := c == ',' || c == ')' || c == ']' || c == '\x7d'

def Delimits (r : List Char) : Prop := r.head?.any isDelimiter = true

variable {r : List Char}

theorem delimits_cons (hr : Delimits r) : ∃ d after, r = d :: after ∧ isDelimiter d = true := by
  cases r with
  | nil => cases hr
  | cons d after => exact ⟨d, after, rfl, by simpa [Delimits] using hr⟩

/-- What holds of the comma and the three closing brackets holds of delimiters. -/
theorem isDelimiter_cases {d : Char} (hd : isDelimiter d = true) :
    d = ',' ∨ d = ')' ∨ d = ']' ∨ d = '\x7d' := by
  simpa [isDelimiter, or_assoc] using hd

section Classes

variable {p : Char → Bool}

theorem head?_any_append (hr : Delimits r) (hp : ∀ d, isDelimiter d = true → p d = false)
    (s : List Char) : (s ++ r).head?.any p = s.head?.any p := by
  cases s with
  | cons c s => rfl
  | nil =>
      obtain ⟨d, after, rfl, hd⟩ := delimits_cons hr
      simp [hp d hd]

theorem takeWhile_append (hr : Delimits r) (hp : ∀ d, isDelimiter d = true → p d = false)
    (s : List Char) : (s ++ r).takeWhile p = s.takeWhile p := by
  induction s with
  | cons c s ih => simp [List.takeWhile_cons, ih]
  | nil =>
      obtain ⟨d, after, rfl, hd⟩ := delimits_cons hr
      simp [hp d hd]

theorem dropWhile_append (hr : Delimits r) (hp : ∀ d, isDelimiter d = true → p d = false)
    (s : List Char) : (s ++ r).dropWhile p = s.dropWhile p ++ r := by
  induction s with
  | cons c s ih =>
      simp only [List.cons_append, List.dropWhile_cons, ih]
      split <;> rfl
  | nil =>
      obtain ⟨d, after, rfl, hd⟩ := delimits_cons hr
      simp [hp d hd]

theorem isDigit_delimiter (d : Char) (hd : isDelimiter d = true) : Decimal.isDigit d = false := by
  rcases isDelimiter_cases hd with rfl | rfl | rfl | rfl <;> rfl

theorem startsWord_delimiter (d : Char) (hd : isDelimiter d = true) : startsWord d = false := by
  rcases isDelimiter_cases hd with rfl | rfl | rfl | rfl <;> rfl

theorem continuesWord_delimiter (d : Char) (hd : isDelimiter d = true) :
    continuesWord d = false := by
  rcases isDelimiter_cases hd with rfl | rfl | rfl | rfl <;> rfl

end Classes

/-! ## Lexemes -/

theorem doubleSymbol?_delimiter (c d : Char) (hd : isDelimiter d = true) :
    doubleSymbol? c d = none := by
  rcases isDelimiter_cases hd with rfl | rfl | rfl | rfl <;> simp [doubleSymbol?]

theorem symbol?_append (hr : Delimits r) (c : Char) (rest : List Char) :
    symbol? c (rest ++ r) = symbol? c rest := by
  cases rest with
  | cons d rest => rfl
  | nil =>
      obtain ⟨d, after, rfl, hd⟩ := delimits_cons hr
      simp [symbol?, doubleSymbol?_delimiter c d hd]

/-- A symbol takes no more than one further character. -/
theorem symbol?_le {c : Char} {rest : List Char} {s : Symbol} {n : Nat}
    (h : symbol? c rest = some (s, n)) : n ≤ rest.length := by
  cases rest with
  | nil =>
      simp [symbol?] at h
      omega
  | cons d rest =>
      unfold symbol? at h
      split at h
      · cases h
        simp
      · obtain ⟨s', -, hs'⟩ := Option.map_eq_some_iff.mp h
        cases hs'
        simp

theorem splitPart_append (hr : Delimits r) (s : List Char) :
    splitPart (s ++ r) = ((splitPart s).1, (splitPart s).2 ++ r) := by
  cases s with
  | nil =>
      obtain ⟨d, after, rfl, hd⟩ := delimits_cons hr
      rcases isDelimiter_cases hd with rfl | rfl | rfl | rfl <;> rfl
  | cons c s =>
      by_cases hc : c = '.'
      · subst hc
        have hcount : digitCount (s ++ r) = digitCount s := by
          rw [digitCount, takeWhile_append hr isDigit_delimiter]
          rfl
        rw [List.cons_append, splitPart, splitPart, hcount]
        by_cases hdigits : 0 < digitCount s
        · rw [if_pos hdigits, if_pos hdigits, takeWhile_append hr isDigit_delimiter,
            dropWhile_append hr isDigit_delimiter]
        · rw [if_neg hdigits, if_neg hdigits]
          rfl
      · have hsplit (s : List Char) : splitPart (c :: s) = ([], c :: s) := by
          rw [splitPart]
          simpa using hc
        rw [List.cons_append, hsplit, hsplit]
        rfl

theorem readSign_append (c : Char) (s : List Char) :
    Decimal.readSign (c :: s ++ r) =
      ((Decimal.readSign (c :: s)).1, (Decimal.readSign (c :: s)).2 ++ r) := by
  unfold Decimal.readSign
  split <;> simp_all

theorem splitExponent_append (hr : Delimits r) {s after : List Char} {e : Int}
    (h : splitExponent s = .ok (e, after)) : splitExponent (s ++ r) = .ok (e, after ++ r) := by
  cases s with
  | nil =>
      obtain ⟨d, rest, rfl, hd⟩ := delimits_cons hr
      cases h
      rcases isDelimiter_cases hd with rfl | rfl | rfl | rfl <;> rfl
  | cons c s =>
      rw [List.cons_append]
      by_cases hc : c = 'e' ∨ c = 'E'
      · cases s with
        | nil => simp [splitExponent, hc, Decimal.readSign] at h
        | cons c' s =>
            simp only [splitExponent, if_pos hc] at h ⊢
            rw [readSign_append]
            simp only [takeWhile_append hr isDigit_delimiter, dropWhile_append hr isDigit_delimiter]
            split at h
            · cases h
            next hds =>
              cases h
              simp [hds]
      · simp only [splitExponent, if_neg hc] at h ⊢
        cases h
        rfl

def splitUnsigned (negative : Bool) (s : List Char) : Except Fault (Numeral × List Char) := do
  let (part, rest) := splitPart (s.dropWhile Decimal.isDigit)
  let (exponent, rest) ← splitExponent rest
  if rest.head?.any startsWord then .error .malformedNumber
  else .ok (⟨negative, s.takeWhile Decimal.isDigit, part, exponent⟩, rest)

theorem splitNumeral_unsigned {s : List Char} (h : s.head? ≠ some '-') :
    splitNumeral s = splitUnsigned false s := by
  cases s with
  | nil => rfl
  | cons c s =>
      have hc : c ≠ '-' := by simpa using h
      unfold splitNumeral
      split
      next heq =>
        split at heq
        next hcons => exact absurd (List.cons.inj hcons).1 hc
        next => cases heq; rfl

theorem splitUnsigned_append (hr : Delimits r) {s after : List Char} {negative : Bool}
    {numeral : Numeral} (h : splitUnsigned negative s = .ok (numeral, after)) :
    splitUnsigned negative (s ++ r) = .ok (numeral, after ++ r) := by
  unfold splitUnsigned at h ⊢
  rw [dropWhile_append hr isDigit_delimiter, takeWhile_append hr isDigit_delimiter,
    splitPart_append hr]
  generalize splitPart (s.dropWhile Decimal.isDigit) = found at h ⊢
  obtain ⟨part, rest⟩ := found
  dsimp only at h ⊢
  cases hexponent : splitExponent rest with
  | error e =>
      rw [hexponent] at h
      cases h
  | ok found =>
      obtain ⟨exponent, rest⟩ := found
      rw [hexponent] at h
      rw [splitExponent_append hr hexponent]
      change (if rest.head?.any startsWord then _ else _) = _ at h
      show (if (rest ++ r).head?.any startsWord then _ else _) = _
      rw [head?_any_append hr startsWord_delimiter]
      split at h
      · cases h
      next hword =>
        cases h
        rw [if_neg hword]

theorem splitNumeral_append (hr : Delimits r) {s after : List Char} {numeral : Numeral}
    (h : splitNumeral s = .ok (numeral, after)) :
    splitNumeral (s ++ r) = .ok (numeral, after ++ r) := by
  by_cases hminus : s.head? = some '-'
  · obtain ⟨s, rfl⟩ := List.head?_eq_some_iff.mp hminus
    exact splitUnsigned_append hr h
  · have hminus' : (s ++ r).head? ≠ some '-' := by
      cases s with
      | cons c s => exact hminus
      | nil =>
          obtain ⟨d, after, rfl, hd⟩ := delimits_cons hr
          rcases isDelimiter_cases hd with rfl | rfl | rfl | rfl <;> simp
    rw [splitNumeral_unsigned hminus] at h
    rw [splitNumeral_unsigned hminus']
    exact splitUnsigned_append hr h

theorem map_eq_ok {ε α β : Type} {f : α → β} {x : Except ε α} {y : β} (h : x.map f = .ok y) :
    ∃ a, x = .ok a ∧ f a = y := by
  cases x with
  | error e => cases h
  | ok a => exact ⟨a, rfl, Except.ok.inj h⟩

theorem stringBody_plain {quote c : Char} (hc : c ≠ '\\') (s : List Char) :
    stringBody quote (c :: s) =
      if c = quote then .ok ([], 1)
      else (stringBody quote s).map fun (body, n) => (c :: body, n + 1) := by
  rw [stringBody]
  all_goals simp [hc]

/-- What is neither the end of a text nor the start of an escape is no backslash. -/
theorem ne_slash {c : Char} {s : List Char} (hnil : c = '\\' → s = [] → False)
    (hcons : ∀ d rest, c = '\\' → s = d :: rest → False) : c ≠ '\\' := by
  intro hc
  cases s with
  | nil => exact hnil hc rfl
  | cons d rest => exact hcons d rest hc rfl

/-- A string that is closed is so whatever stands behind it. -/
theorem stringBody_append {quote : Char} {s body : List Char} {n : Nat}
    (h : stringBody quote s = .ok (body, n)) :
    stringBody quote (s ++ r) = .ok (body, n) ∧ n ≤ s.length := by
  fun_induction stringBody quote s generalizing body n with
  | case1 | case3 | case4 | case5 | case7 => cases h
  | case2 a b c d rest decoded hcode ih =>
      obtain ⟨⟨body', n'⟩, hbody, hmap⟩ := map_eq_ok h
      obtain ⟨hrest, hle⟩ := ih hbody
      cases hmap
      refine ⟨?_, by simp only [List.length_cons]; omega⟩
      simp only [List.cons_append, stringBody, hcode, hrest, Except.map]
  | case6 c rest _ hu decoded hescape ih =>
      obtain ⟨⟨body', n'⟩, hbody, hmap⟩ := map_eq_ok h
      obtain ⟨hrest, hle⟩ := ih hbody
      cases hmap
      refine ⟨?_, by simp only [List.length_cons]; omega⟩
      rw [List.cons_append, List.cons_append, stringBody]
      · simp only [hescape, hrest, Except.map]
      · exact fun _ _ _ _ _ h => absurd h hu
      · exact fun h => absurd h hu
  | case8 rest hu hu' hnil hcons =>
      have hplain : quote ≠ '\\' := ne_slash hnil hcons
      cases h
      rw [List.cons_append, stringBody_plain hplain, if_pos rfl]
      exact ⟨rfl, by simp only [List.length_cons]; omega⟩
  | case9 c rest hu hu' hnil hcons hquote ih =>
      have hplain : c ≠ '\\' := ne_slash hnil hcons
      obtain ⟨⟨body', n'⟩, hbody, hmap⟩ := map_eq_ok h
      obtain ⟨hrest, hle⟩ := ih hbody
      cases hmap
      rw [List.cons_append, stringBody_plain hplain, if_neg hquote, hrest]
      exact ⟨rfl, by simp only [List.length_cons]; omega⟩

theorem startsNumber_append (hr : Delimits r) (c : Char) (rest : List Char) :
    startsNumber c (rest ++ r) = startsNumber c rest := by
  rw [startsNumber, head?_any_append hr isDigit_delimiter]
  rfl

/-- In front of a delimiter the same lexeme is taken, and it ends before the delimiter. -/
theorem lexeme_append (hr : Delimits r) {c : Char} {rest : List Char} {l : Lexeme} {n : Nat}
    (h : lexeme c rest = .ok (l, n)) : lexeme c (rest ++ r) = .ok (l, n) ∧ n ≤ rest.length := by
  unfold lexeme at h ⊢
  rw [symbol?_append hr]
  split at h
  next s k hsymbol =>
    cases h
    exact ⟨rfl, symbol?_le hsymbol⟩
  next hsymbol =>
    by_cases hquote : c = '"' ∨ c = '\x27'
    · rw [if_pos hquote] at h ⊢
      obtain ⟨⟨body, k⟩, hbody, hmap⟩ := map_eq_ok h
      obtain ⟨hbody', hle⟩ := stringBody_append hbody
      cases hmap
      rw [hbody']
      exact ⟨rfl, hle⟩
    rw [if_neg hquote] at h ⊢
    rw [startsNumber_append hr]
    by_cases hnumber : startsNumber c rest = true
    · rw [if_pos hnumber] at h ⊢
      obtain ⟨⟨numeral, after⟩, hnumeral, hmap⟩ := map_eq_ok h
      have hnumeral' := splitNumeral_append hr hnumeral
      rw [List.cons_append] at hnumeral'
      cases hmap
      rw [hnumeral']
      refine ⟨?_, Nat.sub_le _ _⟩
      simp only [Except.map, List.length_append, Nat.add_sub_add_right]
    rw [if_neg hnumber] at h ⊢
    by_cases hword : startsWord c = true
    · rw [if_pos hword] at h ⊢
      simp only [takeWhile_append hr continuesWord_delimiter]
      cases h
      exact ⟨rfl, (List.takeWhile_sublist _).length_le⟩
    · rw [if_neg hword] at h
      cases h

/-! ## Texts -/

theorem byteLength_cons (c : Char) (s : List Char) :
    byteLength (c :: s) = c.utf8Size + byteLength s := by
  simp [byteLength]

theorem byteLength_append (s t : List Char) : byteLength (s ++ t) = byteLength s + byteLength t := by
  simp [byteLength]

@[simp] theorem scan_nil (offset : Nat) : scan offset [] = .ok [] := by
  rw [scan]

theorem scan_blank {c : Char} (hc : Text.isBlank c = true) (offset : Nat) (rest : List Char) :
    scan offset (c :: rest) = scan (offset + c.utf8Size) rest := by
  rw [scan, if_pos hc]

theorem scan_lexeme {c : Char} (hc : Text.isBlank c = false) {rest : List Char} {l : Lexeme}
    {n : Nat} (h : lexeme c rest = .ok (l, n)) (offset : Nat) :
    scan offset (c :: rest) =
      (scan (offset + byteLength (c :: rest.take n)) (rest.drop n)).map
        (⟨l, offset, offset + byteLength (c :: rest.take n)⟩ :: ·) := by
  rw [scan, if_neg (by simp [hc])]
  simp only [h]

/-- Where no lexeme can be taken, the text has no tokens. -/
theorem scan_fault {c : Char} (hc : Text.isBlank c = false) {rest : List Char} {cause : Fault}
    (h : lexeme c rest = .error cause) (offset : Nat) :
    scan offset (c :: rest) = .error (.fault cause offset) := by
  rw [scan, if_neg (by simp [hc])]
  simp only [h]

/-- Where a text that begins with no blank is cut, a lexeme is taken first. -/
theorem scan_eq_ok {c : Char} (hc : Text.isBlank c = false) {offset : Nat} {rest : List Char}
    {ts : List Token} (h : scan offset (c :: rest) = .ok ts) :
    ∃ l n after, lexeme c rest = .ok (l, n) ∧
      scan (offset + byteLength (c :: rest.take n)) (rest.drop n) = .ok after ∧
      ts = ⟨l, offset, offset + byteLength (c :: rest.take n)⟩ :: after := by
  cases hl : lexeme c rest with
  | error cause =>
      rw [scan, if_neg (by simp [hc])] at h
      simp [hl] at h
  | ok found =>
      obtain ⟨l, n⟩ := found
      rw [scan_lexeme hc hl] at h
      obtain ⟨after, hafter, hts⟩ := map_eq_ok h
      exact ⟨l, n, after, rfl, hafter, hts.symm⟩

/-- **In front of a delimiter a text has the tokens that it has alone**, and the text from the
delimiter on has its own. -/
theorem scan_append (hr : Delimits r) {offset : Nat} {s : List Char} {ts : List Token}
    (h : scan offset s = .ok ts) :
    scan offset (s ++ r) = (scan (offset + byteLength s) r).map (ts ++ ·) := by
  match s with
  | [] =>
      rw [scan_nil] at h
      cases h
      show scan offset r = (scan offset r).map id
      cases scan offset r <;> rfl
  | c :: rest =>
      cases hc : Text.isBlank c with
      | true =>
          rw [scan_blank hc] at h
          rw [List.cons_append, scan_blank hc, scan_append hr h, byteLength_cons, Nat.add_assoc]
      | false =>
          obtain ⟨l, n, after, hl, hafter, rfl⟩ := scan_eq_ok hc h
          obtain ⟨hl', hn⟩ := lexeme_append hr hl
          have hlength : byteLength (c :: rest.take n) + byteLength (rest.drop n)
              = byteLength (c :: rest) := by
            rw [← byteLength_append, List.cons_append, List.take_append_drop]
          rw [List.cons_append, scan_lexeme hc hl', List.take_append_of_le_length hn,
            List.drop_append_of_le_length hn, scan_append hr hafter, Nat.add_assoc, hlength]
          cases scan (offset + byteLength (c :: rest)) r <;> rfl
termination_by s.length
decreasing_by all_goals simp only [List.length_drop, List.length_cons]; omega

/-- **Where a text stands moves its tokens**, and changes nothing else. -/
theorem scan_shift (k : Nat) {offset : Nat} {s : List Char} {ts : List Token}
    (h : scan offset s = .ok ts) : scan (offset + k) s = .ok (ts.map (Token.shift k)) := by
  match s with
  | [] =>
      rw [scan_nil] at h
      cases h
      exact scan_nil _
  | c :: rest =>
      cases hc : Text.isBlank c with
      | true =>
          rw [scan_blank hc] at h
          rw [scan_blank hc, Nat.add_right_comm]
          exact scan_shift k h
      | false =>
          obtain ⟨l, n, after, hl, hafter, rfl⟩ := scan_eq_ok hc h
          rw [scan_lexeme hc hl, Nat.add_right_comm, scan_shift k hafter]
          rfl
termination_by s.length
decreasing_by all_goals simp only [List.length_drop, List.length_cons]; omega

end Lexer

end WhenClause
