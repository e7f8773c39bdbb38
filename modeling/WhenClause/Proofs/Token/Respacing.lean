import WhenClause.Proofs.Expression.Alike
import WhenClause.Proofs.Token.Numerals

set_option autoImplicit false

/-! # Blanks between tokens

A text may be spaced in another way: other blanks may stand where blanks stand between its tokens,
and blanks may be put in between tokens where there are none, except right behind the word `not`
(`Respaced`). Every token stays what it is, whatever class it is of, because what stands behind it
goes on as before or stops at a blank (`lexeme_near`), and so the tokens are alike
(`Respaced.scan`). The tokens of a text are those that are written in it with blanks in front of
them (`scan_eq_ok_iff`). -/

namespace WhenClause.Lexer

open Decimal (isDigit)

/-! ## Texts that go on alike -/

/-- The second text goes on as the first one does, until it ends or comes to a blank. -/
inductive Near : List Char → List Char → Prop
  | nil {r : List Char} : Near r []
  | blank {c : Char} {r r' : List Char} : Text.isBlank c = true → Near r (c :: r')
  | cons {c : Char} {r r' : List Char} : Near r r' → Near (c :: r) (c :: r')

variable {r r' : List Char}

theorem Near.append (h : Near r r') (s : List Char) : Near (s ++ r) (s ++ r') := by
  induction s with
  | nil => exact h
  | cons c s ih => exact .cons ih

/-- A character that is not blank begins the second text only if it begins the first one. -/
theorem Near.head?_any {p : Char → Bool} (h : Near r r')
    (hp : ∀ c, Text.isBlank c = true → p c = false) (hr : r.head?.any p = false) :
    r'.head?.any p = false := by
  cases h with
  | nil => rfl
  | blank hc => simpa using hp _ hc
  | cons _ => exact hr

/-- What holds of no letter, digit or other character of a word or a symbol. -/
theorem ne_of_isBlank {c d : Char} (hc : Text.isBlank c = true) (hd : Text.isBlank d = false) :
    c ≠ d := by
  rintro rfl
  rw [hc] at hd
  cases hd

theorem isDigit_blank (c : Char) (hc : Text.isBlank c = true) : isDigit c = false := by
  rw [Bool.eq_false_iff]
  intro hdigit
  rw [isBlank_of_isDigit hdigit] at hc
  cases hc

theorem startsWord_blank (c : Char) (hc : Text.isBlank c = true) : startsWord c = false := by
  rw [Bool.eq_false_iff]
  intro hword
  rw [isBlank_of_startsWord hword] at hc
  cases hc

theorem continuesWord_blank (c : Char) (hc : Text.isBlank c = true) : continuesWord c = false := by
  rw [continuesWord, startsWord_blank c hc, isDigit_blank c hc]
  rfl

theorem doubleSymbol?_blank (c d : Char) (hd : Text.isBlank d = true) :
    doubleSymbol? c d = none := by
  have h (x : Char) (hx : Text.isBlank x = false) : d ≠ x := ne_of_isBlank hd hx
  simp [doubleSymbol?, h '&' rfl, h '|' rfl, h '=' rfl]

/-! ## Lexemes -/

theorem Near.startsFraction (h : Near r r') (hr : startsFraction r = false) :
    startsFraction r' = false := by
  cases h with
  | nil => rfl
  | blank hc => simp [Lexer.startsFraction, ne_of_isBlank hc (d := '.') rfl]
  | @cons c r r' h =>
      by_cases hc : c = '.'
      · subst hc
        exact h.head?_any isDigit_blank hr
      · simp [Lexer.startsFraction, hc]

theorem EndsNumeral.near {numeral : List Char} (hr : EndsNumeral numeral r) (h : Near r r') :
    EndsNumeral numeral r' where
  digit := h.head?_any isDigit_blank hr.digit
  word := h.head?_any startsWord_blank hr.word
  fraction hplain := h.startsFraction (hr.fraction hplain)

/-- A string is closed without what stands behind its closing quote. -/
theorem stringBody_take {quote : Char} {s body : List Char} {n : Nat}
    (h : stringBody quote s = .ok (body, n)) : stringBody quote (s.take n) = .ok (body, n) := by
  fun_induction stringBody quote s generalizing body n with
  | case1 | case3 | case4 | case5 | case7 => cases h
  | case2 a b c d rest decoded hcode ih =>
      obtain ⟨⟨body', n'⟩, hbody, hmap⟩ := map_eq_ok h
      have hrest := ih hbody
      cases hmap
      simp only [List.take_succ_cons, stringBody, hcode, hrest, Except.map]
  | case6 c rest _ hu decoded hescape ih =>
      obtain ⟨⟨body', n'⟩, hbody, hmap⟩ := map_eq_ok h
      have hrest := ih hbody
      cases hmap
      rw [List.take_succ_cons, List.take_succ_cons, stringBody]
      · simp only [hescape, hrest, Except.map]
      · exact fun _ _ _ _ _ h => absurd h hu
      · exact fun h => absurd h hu
  | case8 rest hu hu' hnil hcons =>
      have hplain : quote ≠ '\\' := ne_slash hnil hcons
      cases h
      rw [List.take_succ_cons, stringBody_plain hplain, if_pos rfl]
  | case9 c rest hu hu' hnil hcons hquote ih =>
      have hplain : c ≠ '\\' := ne_slash hnil hcons
      obtain ⟨⟨body', n'⟩, hbody, hmap⟩ := map_eq_ok h
      have hrest := ih hbody
      cases hmap
      rw [List.take_succ_cons, stringBody_plain hplain, if_neg hquote, hrest]
      rfl

/-- The classes of lexemes: a symbol, a string, a number or a word. -/
inductive IsLexeme (c : Char) (rest : List Char) : Lexeme → Nat → Prop
  | symbol {x : Symbol} {n : Nat} : symbol? c rest = some (x, n) → IsLexeme c rest (.symbol x) n
  | string {body : List Char} {n : Nat} : c = '"' ∨ c = '\x27' → stringBody c rest = .ok (body, n) →
      IsLexeme c rest (.string (String.ofList body)) n
  | number {numeral : Numeral} {after : List Char} : startsNumber c rest = true →
      splitNumeral (c :: rest) = .ok (numeral, after) →
      IsLexeme c rest (.number numeral.decimal.toNumber) (rest.length - after.length)
  | word : startsWord c = true →
      IsLexeme c rest (wordLexeme (String.ofList (c :: rest.takeWhile continuesWord)))
        (rest.takeWhile continuesWord).length

theorem isLexeme_of_lexeme {c : Char} {rest : List Char} {l : Lexeme} {n : Nat}
    (h : lexeme c rest = .ok (l, n)) : IsLexeme c rest l n := by
  unfold lexeme at h
  split at h
  next hsymbol =>
    cases h
    exact .symbol hsymbol
  next =>
    split at h
    next hquote =>
      obtain ⟨⟨body, k⟩, hbody, hmap⟩ := map_eq_ok h
      cases hmap
      exact .string hquote hbody
    next =>
      split at h
      next hnumber =>
        obtain ⟨⟨numeral, after⟩, hnumeral, hmap⟩ := map_eq_ok h
        cases hmap
        exact .number hnumber hnumeral
      next =>
        split at h
        next hword =>
          cases h
          exact .word hword
        next => cases h

theorem lexeme_of_symbol {c : Char} {rest : List Char} {x : Symbol} {n : Nat}
    (h : symbol? c rest = some (x, n)) : lexeme c rest = .ok (.symbol x, n) := by
  rw [lexeme, h]

theorem lexeme_of_quote {c : Char} (hc : c = '"' ∨ c = '\x27') (rest : List Char) :
    lexeme c rest = (stringBody c rest).map fun (body, n) => (.string (String.ofList body), n) := by
  have hsymbol : symbol? c rest = none := by
    refine symbol?_eq_none ?_ rest
    rcases hc with rfl | rfl <;> decide
  rw [lexeme, hsymbol]
  exact if_pos hc

/-- A lexeme takes no more characters than there are. -/
theorem lexeme_le {c : Char} {rest : List Char} {l : Lexeme} {n : Nat}
    (h : lexeme c rest = .ok (l, n)) : n ≤ rest.length :=
  (lexeme_append (r := [')']) rfl h).2

/-- A symbol is the same where the text behind it goes on alike. -/
theorem symbol?_near {c : Char} {s : List Char} {x : Symbol}
    (h : symbol? c (s ++ r) = some (x, s.length)) (hnear : Near r r') :
    symbol? c (s ++ r') = some (x, s.length) := by
  cases s with
  | cons d s => exact h
  | nil =>
      -- The symbol is a single one, since it takes nothing behind its first character.
      have hsingle : (singleSymbol? c).map (fun x => (x, 0)) = some (x, 0) := by
        unfold symbol? at h
        split at h
        · cases h
        · exact h
      have hdouble : r'.head?.bind (doubleSymbol? c) = none := by
        cases hnear with
        | nil => rfl
        | blank hd => exact doubleSymbol?_blank c _ hd
        | @cons d r r' _ =>
            unfold symbol? at h
            split at h
            · cases h
            next hnone => exact hnone
      rw [List.nil_append, symbol?, hdouble]
      exact hsingle

/-- A run of characters that is as long as the front of a text is that front. -/
theorem takeWhile_eq_left {p : Char → Bool} {s r : List Char}
    (h : ((s ++ r).takeWhile p).length = s.length) :
    (∀ c ∈ s, p c = true) ∧ r.head?.any p = false := by
  have hs : (s ++ r).takeWhile p = s := by
    have hprefix := List.takeWhile_prefix p (l := s ++ r)
    exact (List.prefix_of_prefix_length_le hprefix (List.prefix_append s r) h.le).eq_of_length h
  have hall : ∀ c ∈ s, p c = true := by
    intro c hc
    rw [← hs] at hc
    exact List.mem_takeWhile_imp hc
  refine ⟨hall, ?_⟩
  rw [List.takeWhile_append_of_pos hall] at hs
  have hnil : r.takeWhile p = [] := by simpa using hs
  cases r with
  | nil => rfl
  | cons d after =>
      by_contra hd
      have hd' : p d = true := by simpa using hd
      rw [List.takeWhile_cons, if_pos hd'] at hnil
      cases hnil

/-- **A lexeme is the same where the text behind it goes on alike.** -/
theorem lexeme_near {c : Char} {s : List Char} {l : Lexeme}
    (h : lexeme c (s ++ r) = .ok (l, s.length)) (hnear : Near r r') :
    lexeme c (s ++ r') = .ok (l, s.length) := by
  generalize hn : s.length = n at h
  cases isLexeme_of_lexeme h with
  | symbol hsymbol =>
      subst hn
      exact lexeme_of_symbol (symbol?_near hsymbol hnear)
  | string hquote hbody =>
      subst hn
      have htake := stringBody_take hbody
      rw [List.take_left] at htake
      rw [lexeme_of_quote hquote, (stringBody_append htake).1]
      rfl
  | @number numeral after hnumber hsplit =>
      obtain ⟨text, htext, hnumeral, hends⟩ := isNumeral_of_splitNumeral hnumber hsplit
      obtain ⟨d, more, rfl, hstarts⟩ := hnumeral.startsNumber
      rw [List.cons_append, List.cons.injEq] at htext
      obtain ⟨rfl, htext⟩ := htext
      have hlength := congrArg List.length htext
      simp only [List.length_append] at hlength hn
      obtain ⟨rfl, rfl⟩ := List.append_inj htext (by omega)
      rw [lexeme_of_startsNumber (hstarts r'), ← List.cons_append,
        hnumeral.splitNumeral (hends.near hnear)]
      simp [Except.map]
  | word hword =>
      obtain ⟨hs, hr⟩ := takeWhile_eq_left hn.symm
      have hr' : r'.head?.any continuesWord = false := hnear.head?_any continuesWord_blank hr
      rw [lexeme_of_startsWord hword, (takeWhile_stop hs hr).1, (takeWhile_stop hs hr').1]

/-! ## Texts spaced in another way -/

/-- A run of blanks, or nothing. -/
def IsGap (s : List Char) : Prop := ∀ c ∈ s, Text.isBlank c = true

/-- The second text has the tokens of the first one, spaced in another way, where `before` is the
token in front of them, if there is one. Between two tokens blanks may be put in or replaced by
others, but not all of them taken away, and right behind the word `not` none may be put in. At both
ends of the text there may be any blanks. -/
inductive Respaced : Option Lexeme → List Char → List Char → Prop
  | done {before : Option Lexeme} {gap gap' : List Char} : IsGap gap → IsGap gap' →
      Respaced before gap gap'
  | token {before : Option Lexeme} {gap gap' rest s' : List Char} {c : Char} {l : Lexeme}
      {n : Nat} : IsGap gap → IsGap gap' →
      (before ≠ none → gap ≠ [] → gap' ≠ []) →
      (before = some (.word "not") → gap = [] → gap' = []) →
      Text.isBlank c = false → lexeme c rest = .ok (l, n) →
      Respaced (some l) (rest.drop n) s' →
      Respaced before (gap ++ c :: rest) (gap' ++ c :: (rest.take n ++ s'))

theorem near_of_isGap {gap : List Char} (h : IsGap gap) (r : List Char) : Near r gap := by
  cases gap with
  | nil => exact .nil
  | cons c gap => exact .blank (h c List.mem_cons_self)

/-- Behind a token the text goes on alike. -/
theorem Respaced.near {before : Option Lexeme} {s s' : List Char} (h : Respaced before s s')
    (hbefore : before ≠ none) : Near s s' := by
  induction h with
  | done _ hgap' => exact near_of_isGap hgap' _
  | @token before gap gap' rest s' c l n _ hgap' hkeep _ _ _ _ ih =>
      cases gap' with
      | cons d gap' => exact .blank (hgap' d List.mem_cons_self)
      | nil =>
          have hgap : gap = [] := by
            by_contra hne
            exact hkeep hbefore hne rfl
          subst hgap
          have hrest := (ih (Option.some_ne_none l)).append (rest.take n)
          rw [List.take_append_drop] at hrest
          exact .cons hrest

theorem scan_gap {gap : List Char} (h : IsGap gap) (offset : Nat) (s : List Char) :
    scan offset (gap ++ s) = scan (offset + byteLength gap) s := by
  induction gap generalizing offset with
  | nil => rfl
  | cons c gap ih =>
      rw [List.cons_append, scan_blank (h c List.mem_cons_self),
        ih fun d hd => h d (List.mem_cons_of_mem c hd), byteLength_cons, Nat.add_assoc]

theorem scan_blanks {gap : List Char} (h : IsGap gap) (offset : Nat) : scan offset gap = .ok [] := by
  have hscan := scan_gap h offset []
  rwa [List.append_nil, scan_nil] at hscan

/-- A lexeme is taken from a text that goes on alike behind it. -/
theorem scan_near {c : Char} {rest : List Char} {l : Lexeme} {n : Nat} {s' : List Char}
    (hc : Text.isBlank c = false) (hl : lexeme c rest = .ok (l, n)) (hnear : Near (rest.drop n) s')
    (offset : Nat) :
    scan offset (c :: (rest.take n ++ s')) =
      (scan (offset + byteLength (c :: rest.take n)) s').map
        (⟨l, offset, offset + byteLength (c :: rest.take n)⟩ :: ·) := by
  have hlength : (rest.take n).length = n := List.length_take_of_le (lexeme_le hl)
  have hl' : lexeme c (rest.take n ++ s') = .ok (l, n) := by
    have hsame := lexeme_near (s := rest.take n) (r := rest.drop n)
      (by rw [List.take_append_drop, hlength, hl]) hnear
    rwa [hlength] at hsame
  rw [scan_lexeme hc hl', List.take_left' hlength, List.drop_left' hlength]

/-- The first token stands behind an offset. -/
def standsBehind (offset : Nat) (ts : List Token) : Bool := ts.head?.any fun t => offset < t.start

/-- A word `not` is a negation if it is separated from the next token, and that one starts a
term. -/
theorem startsNegation_eq (t : Token) (ts : List Token) :
    Parser.startsNegation t ts =
      (t.lexeme == .word "not" && (standsBehind t.stop ts
        && ts.head?.any fun follower => follower.lexeme.startsTerm)) := by
  cases ts with
  | nil => simp [Parser.startsNegation, standsBehind]
  | cons u ts => rfl

theorem lt_add_byteLength {gap : List Char} {offset : Nat} :
    offset < offset + byteLength gap ↔ gap ≠ [] := by
  cases gap with
  | nil => simp [byteLength]
  | cons c gap =>
      have hc := Char.utf8Size_pos c
      rw [byteLength_cons]
      simp only [ne_eq, List.cons_ne_nil, not_false_eq_true, iff_true]
      omega

/-- **A text that is spaced in another way has tokens that are alike**, and behind the word `not`
both or neither are separated from it. -/
theorem Respaced.scan {before : Option Lexeme} {s s' : List Char} (h : Respaced before s s')
    (offset offset' : Nat) :
    ∃ ts ts', scan offset s = .ok ts ∧ Lexer.scan offset' s' = .ok ts' ∧ Parser.Alike ts ts' ∧
      (before = some (.word "not") → standsBehind offset ts = standsBehind offset' ts') := by
  induction h generalizing offset offset' with
  | done hgap hgap' =>
      exact ⟨[], [], scan_blanks hgap offset, scan_blanks hgap' offset', .nil, fun _ => rfl⟩
  | @token before gap gap' rest s' c l n hgap hgap' hkeep hclosed hc hl hrest ih =>
      -- The same lexeme is taken, and the tokens behind it are alike.
      obtain ⟨ts, ts', hts, hts', halike, hbehind⟩ :=
        ih (offset + byteLength gap + byteLength (c :: rest.take n))
          (offset' + byteLength gap' + byteLength (c :: rest.take n))
      have hterm : (ts.head?.any fun t => t.lexeme.startsTerm)
          = ts'.head?.any fun t => t.lexeme.startsTerm := by
        cases halike with
        | nil => rfl
        | cons hlexeme _ _ => simp [hlexeme]
      have hscan : Lexer.scan offset (gap ++ c :: rest)
          = .ok (⟨l, offset + byteLength gap,
              offset + byteLength gap + byteLength (c :: rest.take n)⟩ :: ts) := by
        rw [scan_gap hgap, scan_lexeme hc hl, hts]
        rfl
      have hscan' : Lexer.scan offset' (gap' ++ c :: (rest.take n ++ s'))
          = .ok (⟨l, offset' + byteLength gap',
              offset' + byteLength gap' + byteLength (c :: rest.take n)⟩ :: ts') := by
        rw [scan_gap hgap', scan_near hc hl (hrest.near (Option.some_ne_none l)), hts']
        rfl
      refine ⟨_, _, hscan, hscan', .cons rfl ?_ halike, fun hbefore => ?_⟩
      · rw [startsNegation_eq, startsNegation_eq, hterm]
        by_cases hnot : l = .word "not"
        · rw [hbehind (congrArg some hnot)]
        · rw [beq_eq_false_iff_ne.mpr hnot, Bool.false_and, Bool.false_and]
      · have hgaps : gap ≠ [] ↔ gap' ≠ [] :=
          ⟨hkeep (by simp [hbefore]), mt (hclosed hbefore)⟩
        simp only [standsBehind, List.head?_cons, Option.any_some, lt_add_byteLength, hgaps]

/-! ## Texts with their tokens -/

/-- The tokens of a text, each with the blanks in front of it. -/
inductive Scanned : Nat → List Char → List Token → Prop
  | done {offset : Nat} {gap : List Char} : IsGap gap → Scanned offset gap []
  | token {offset : Nat} {gap rest : List Char} {c : Char} {l : Lexeme} {n : Nat}
      {ts : List Token} : IsGap gap → Text.isBlank c = false → lexeme c rest = .ok (l, n) →
      Scanned (offset + byteLength gap + byteLength (c :: rest.take n)) (rest.drop n) ts →
      Scanned offset (gap ++ c :: rest)
        (⟨l, offset + byteLength gap, offset + byteLength gap + byteLength (c :: rest.take n)⟩ ::
          ts)

theorem scanned_of_scan {offset : Nat} {s : List Char} {ts : List Token}
    (h : scan offset s = .ok ts) : Scanned offset s ts := by
  have hgap : IsGap (s.takeWhile Text.isBlank) := fun c hc => List.mem_takeWhile_imp hc
  have hs : s.takeWhile Text.isBlank ++ s.dropWhile Text.isBlank = s :=
    List.takeWhile_append_dropWhile
  generalize s.takeWhile Text.isBlank = gap at hgap hs
  rw [← hs, scan_gap hgap] at h
  cases hrest : s.dropWhile Text.isBlank with
  | nil =>
      rw [hrest, List.append_nil] at hs
      rw [hrest, scan_nil] at h
      cases h
      exact .done (hs ▸ hgap)
  | cons c rest =>
      have hc : Text.isBlank c = false := dropWhile_stop hrest
      rw [hrest] at h hs
      obtain ⟨l, n, after, hl, hafter, rfl⟩ := scan_eq_ok hc h
      have hlt : (rest.drop n).length < s.length := by
        rw [← hs, List.length_append, List.length_cons, List.length_drop]
        omega
      rw [← hs]
      exact .token hgap hc hl (scanned_of_scan hafter)
termination_by s.length
decreasing_by exact hlt

/-- **The tokens of a text** are those that are written in it with blanks in front of them. -/
theorem scan_eq_ok_iff {offset : Nat} {s : List Char} {ts : List Token} :
    scan offset s = .ok ts ↔ Scanned offset s ts := by
  refine ⟨scanned_of_scan, fun h => ?_⟩
  induction h with
  | done hgap => exact scan_blanks hgap _
  | token hgap hc hl _ ih =>
      rw [scan_gap hgap, scan_lexeme hc hl, ih]
      rfl

/-- A text that has tokens is spaced as itself. -/
theorem Scanned.respaced {offset : Nat} {s : List Char} {ts : List Token}
    (h : Scanned offset s ts) (before : Option Lexeme) : Respaced before s s := by
  induction h generalizing before with
  | done hgap => exact .done hgap hgap
  | @token offset gap rest c l n ts hgap hc hl _ ih =>
      have htoken : Respaced before (gap ++ c :: rest) (gap ++ c :: (rest.take n ++ rest.drop n)) :=
        .token hgap hgap (fun _ h => h) (fun _ h => h) hc hl (ih (some l))
      rwa [List.take_append_drop] at htoken

end WhenClause.Lexer
