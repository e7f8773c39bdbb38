import WhenClause.Proofs.Token.Respacing
import WhenClause.Proofs.Token.Strings

set_option autoImplicit false

/-! # Classes of lexemes

A lexeme is a symbol, a string, a number or a word, and it means what its text says (`Spells`). At
the front of a text the lexer takes the longest lexeme of its class (`longest_of_lexeme`), and it
refuses the texts that are malformed there (`lexeme_eq_error_iff`): no lexeme starts with the
character, a string is not closed or has an escape that is none, or a number has a marker without
an exponent or runs into a word (`Malformed`). -/

namespace WhenClause.Lexer

open Decimal (isDigit signText)

/-! ## Runs of characters -/

/-- Two runs at the front of one text: the shorter one has nothing behind it that does not go on
with the run. -/
theorem run_cases {p : Char → Bool} {ds ds' t t' : List Char} (hds : ∀ c ∈ ds, p c = true)
    (hds' : ∀ c ∈ ds', p c = true) (ht : t.head?.any p = false) (ht' : t'.head?.any p = false)
    (h : ds' ++ t' <+: ds ++ t) :
    ds' = ds ∧ t' <+: t ∨ ds'.length < ds.length ∧ t' = [] := by
  obtain ⟨u, hu⟩ := h
  rw [List.append_assoc, List.append_eq_append_iff] at hu
  rcases hu with ⟨a, rfl, ha⟩ | ⟨a, rfl, ha⟩
  · cases a with
    | nil => exact Or.inl ⟨(List.append_nil _).symm, u, ha⟩
    | cons x a =>
        refine Or.inr ⟨by simp, ?_⟩
        cases t' with
        | nil => rfl
        | cons y t' =>
            obtain ⟨rfl, -⟩ := List.cons.inj ha
            have hy : p y = true := hds y (by simp)
            rw [List.head?_cons, Option.any_some, hy] at ht'
            cases ht'
  · cases a with
    | nil => exact Or.inl ⟨List.append_nil _, u, ha.symm⟩
    | cons x a =>
        have hx : p x = true := hds' x (by simp)
        rw [ha, List.cons_append, List.head?_cons, Option.any_some, hx] at ht
        cases ht

/-! ## Symbols -/

theorem text_of_doubleSymbol? {c d : Char} {x : Symbol} (h : doubleSymbol? c d = some x) :
    x.text.toList = [c, d] := by
  unfold doubleSymbol? at h
  split_ifs at h with hand hor hequals hequal hbang hless hgreater
  · obtain ⟨rfl, rfl⟩ := hand
    cases h
    rfl
  · obtain ⟨rfl, rfl⟩ := hor
    cases h
    rfl
  all_goals
    subst_vars
    cases h
    rfl

theorem text_of_singleSymbol? {c : Char} {x : Symbol} (h : singleSymbol? c = some x) :
    x.text.toList = [c] := by
  unfold singleSymbol? at h
  split at h <;> cases h <;> rfl

/-- A symbol is spelled with one character or with two. -/
theorem symbol_cases (x : Symbol) :
    (∃ c, x.text.toList = [c] ∧ singleSymbol? c = some x) ∨
      ∃ c d, x.text.toList = [c, d] ∧ doubleSymbol? c d = some x := by
  cases x <;> first | exact Or.inl ⟨_, rfl, rfl⟩ | exact Or.inr ⟨_, _, rfl, rfl⟩

/-- **A symbol is spelled as itself, and by its longest spelling.** -/
theorem text_of_symbol? {c : Char} {rest : List Char} {x : Symbol} {n : Nat}
    (h : symbol? c rest = some (x, n)) :
    x.text.toList = c :: rest.take n ∧
      ∀ y : Symbol, y.text.toList <+: c :: rest → y.text.toList.length ≤ n + 1 := by
  unfold symbol? at h
  split at h
  next y hdouble =>
    cases h
    obtain ⟨d, hd, hsymbol⟩ := Option.bind_eq_some_iff.mp hdouble
    obtain ⟨rest, rfl⟩ := List.head?_eq_some_iff.mp hd
    refine ⟨text_of_doubleSymbol? hsymbol, fun y _ => ?_⟩
    rcases symbol_cases y with ⟨c', htext, -⟩ | ⟨c', d', htext, -⟩ <;> simp [htext]
  next hdouble =>
    obtain ⟨y, hsingle, hy⟩ := Option.map_eq_some_iff.mp h
    cases hy
    refine ⟨text_of_singleSymbol? hsingle, fun y hy => ?_⟩
    rcases symbol_cases y with ⟨c', htext, -⟩ | ⟨c', d', htext, hsymbol⟩
    · simp [htext]
    · -- A symbol of two characters would have been taken.
      rw [htext] at hy
      obtain ⟨u, hu⟩ := hy
      obtain ⟨rfl, rfl⟩ : c' = c ∧ d' :: u = rest := by simpa using hu
      rw [List.head?_cons, Option.bind_some, hsymbol] at hdouble
      cases hdouble

theorem not_prefix_of_symbol? {c : Char} {rest : List Char} (h : symbol? c rest = none)
    (x : Symbol) : ¬ x.text.toList <+: c :: rest := by
  rintro ⟨u, hu⟩
  rcases symbol_cases x with ⟨c', htext, hsymbol⟩ | ⟨c', d', htext, hsymbol⟩
  · rw [htext] at hu
    obtain ⟨rfl, rfl⟩ : c' = c ∧ u = rest := by simpa using hu
    unfold symbol? at h
    split at h
    · cases h
    · rw [hsymbol] at h
      cases h
  · rw [htext] at hu
    obtain ⟨rfl, rfl⟩ : c' = c ∧ d' :: u = rest := by simpa using hu
    rw [symbol?, List.head?_cons, Option.bind_some, hsymbol] at h
    cases h

/-! ## Numbers -/

/-- A text has one sign in front of its digits. -/
theorem sign_cancel {sign sign' s s' : List Char} {b b' : Bool}
    (h : Decimal.readSign (sign ++ s) = (b, s)) (h' : Decimal.readSign (sign' ++ s') = (b', s'))
    (heq : sign' ++ s' = sign ++ s) : sign' = sign ∧ s' = s := by
  rw [heq, h] at h'
  obtain rfl : s = s' := (Prod.mk.inj h').2
  exact ⟨List.append_cancel_right heq, rfl⟩

/-- The exponents at the front of one text. -/
theorem IsExponent.length_le {marked marked' r : List Char} {e e' : Int} (h : IsExponent marked e)
    (h' : IsExponent marked' e') (hdigit : r.head?.any isDigit = false)
    (hmarker : marked = [] → r.head?.any isMarker = false) (hfront : marked' <+: marked ++ r) :
    marked'.length ≤ marked.length := by
  cases h' with
  | none => exact Nat.zero_le _
  | @some c' sign' ds' negative' hc' hsign' hds' =>
      obtain ⟨u, hu⟩ := hfront
      cases h with
      | none =>
          have hstarts := hmarker rfl
          obtain rfl : c' :: (sign' ++ ds' ++ u) = r := by simpa using hu
          rcases hc' with rfl | rfl <;> cases hstarts
      | @some c sign ds negative hc hsign hds =>
          obtain ⟨-, hrest⟩ : c' = c ∧ sign' ++ (ds' ++ u) = sign ++ (ds ++ r) := by simpa using hu
          obtain ⟨rfl, hdigits⟩ := sign_cancel (hsign.readSign (hds.head?_append r))
            (hsign'.readSign (hds'.head?_append u)) hrest
          have hrun : ds' ++ [] <+: ds ++ r := ⟨u, by rw [List.append_nil, hdigits]⟩
          have hlength : ds'.length ≤ ds.length := by
            rcases run_cases hds.all hds'.all hdigit rfl hrun with ⟨rfl, -⟩ | ⟨hlt, -⟩
            · exact Nat.le_refl _
            · exact hlt.le
          simp only [List.length_cons, List.length_append]
          omega

/-- The fractions and exponents at the front of one text. -/
theorem IsFraction.length_le {point point' part part' marked marked' r : List Char} {e e' : Int}
    (h : IsFraction point part) (h' : IsFraction point' part') (hmarked : IsExponent marked e)
    (hmarked' : IsExponent marked' e') (hdigit : r.head?.any isDigit = false)
    (hmarker : marked = [] → r.head?.any isMarker = false)
    (hfraction : point = [] → startsFraction (marked ++ r) = false)
    (hfront : point' ++ marked' <+: point ++ (marked ++ r)) :
    (point' ++ marked').length ≤ (point ++ marked).length := by
  cases h' with
  | none =>
      cases h with
      | none => exact hmarked.length_le hmarked' hdigit hmarker hfront
      | some hds =>
          cases hmarked' with
          | none => exact Nat.zero_le _
          | some hc' _ _ =>
              -- A marker is no point.
              obtain ⟨u, hu⟩ := hfront
              rcases hc' with rfl | rfl <;> cases hu
  | some hds' =>
      obtain ⟨d, more, hcons, hd⟩ := hds'.exists_cons
      cases h with
      | none =>
          have hstarts := hfraction rfl
          obtain ⟨u, hu⟩ := hfront
          have hpoint : marked ++ r = '.' :: d :: (more ++ (marked' ++ u)) := by
            rw [← List.nil_append (marked ++ r), ← hu, hcons]
            simp
          rw [hpoint] at hstarts
          simp [startsFraction, hd] at hstarts
      | some hds =>
          have hrun : part' ++ marked' <+: part ++ (marked ++ r) := by simpa using hfront
          have hstop : (marked' ++ []).head?.any isDigit = false := hmarked'.digit rfl
          rw [List.append_nil] at hstop
          rcases run_cases hds.all hds'.all (hmarked.digit hdigit) hstop hrun with
            ⟨rfl, hexponent⟩ | ⟨hlt, rfl⟩
          · have hlength := hmarked.length_le hmarked' hdigit hmarker hexponent
            simp only [List.length_append]
            omega
          · simp only [List.length_append, List.length_cons, List.length_nil]
            omega

/-- **The numerals at the front of one text**: one that the text behind does not go on with is the
longest. -/
theorem IsNumeral.length_le {negative : Bool} {whole point part marked r s' : List Char} {e : Int}
    {n' : Numeral} (h' : IsNumeral s' n') (hwhole : IsDigits whole) (hpoint : IsFraction point part)
    (hmarked : IsExponent marked e) (hdigit : r.head?.any isDigit = false)
    (hmarker : marked = [] → r.head?.any isMarker = false)
    (hfraction : point = [] → startsFraction (marked ++ r) = false)
    (hfront : s' <+: signText negative ++ (whole ++ (point ++ marked)) ++ r) :
    s'.length ≤ (signText negative ++ (whole ++ (point ++ marked))).length := by
  obtain @⟨negative', whole', point', part', marked', exponent', hwhole', hpoint', hmarked'⟩ := h'
  obtain ⟨u, hu⟩ := hfront
  have hread {negative : Bool} {ds : List Char} (hds : IsDigits ds) (t : List Char) :
      Decimal.readSign (signText negative ++ (ds ++ t)) = (negative, ds ++ t) := by
    obtain ⟨d, more, rfl, hd⟩ := hds.exists_cons
    exact Decimal.readSign_signText negative hd _
  have hcancel := sign_cancel (hread hwhole (point ++ (marked ++ r)))
    (hread hwhole' (point' ++ (marked' ++ u))) (by simpa using hu)
  obtain ⟨hsign, hrest⟩ := hcancel
  have hrun : whole' ++ (point' ++ marked') <+: whole ++ (point ++ (marked ++ r)) :=
    ⟨u, by rw [← hrest]; simp⟩
  have hstop : (point' ++ (marked' ++ [])).head?.any isDigit = false :=
    hpoint'.digit (hmarked'.digit rfl)
  rw [List.append_nil] at hstop
  have hlength : (whole' ++ (point' ++ marked')).length ≤ (whole ++ (point ++ marked)).length := by
    rcases run_cases hwhole.all hwhole'.all (hpoint.digit (hmarked.digit hdigit)) hstop hrun with
      ⟨rfl, hbehind⟩ | ⟨hlt, hnil⟩
    · have hle := hpoint.length_le hpoint' hmarked hmarked' hdigit hmarker hfraction hbehind
      simp only [List.length_append] at hle ⊢
      omega
    · rw [hnil]
      simp only [List.length_append, List.length_nil]
      omega
  rw [hsign]
  simp only [List.length_append] at hlength ⊢
  omega

/-! ## Classes -/

/-- The classes of lexemes. -/
inductive Class where
  | symbol
  | string
  | number
  | word

/-- A character that strings stand between. -/
def IsQuote (c : Char) : Prop := c = '"' ∨ c = '\x27'

theorem IsQuote.ne_slash {c : Char} (h : IsQuote c) : c ≠ '\\' := by
  rcases h with rfl | rfl <;> decide

/-- The text is a lexeme of the class, and means this. -/
inductive Spells : Class → List Char → Lexeme → Prop
  | symbol (x : Symbol) : Spells .symbol x.text.toList (.symbol x)
  | string {quote : Char} {s body : List Char} : IsQuote quote → IsContents quote s body →
      Spells .string (quote :: (s ++ [quote])) (.string (String.ofList body))
  | number {s : List Char} {numeral : Numeral} {x : Number} : IsNumeral s numeral →
      Number.read? s = some x → Spells .number s (.number x)
  | bool (b : Bool) : Spells .word (if b then "true" else "false").toList (.bool b)
  | null : Spells .word "null".toList .null
  | word {c : Char} {more : List Char} : startsWord c = true →
      (∀ d ∈ more, continuesWord d = true) →
      String.ofList (c :: more) ∉ ["true", "false", "null"] →
      Spells .word (c :: more) (.word (String.ofList (c :: more)))

theorem spells_number {s : List Char} {numeral : Numeral} (h : IsNumeral s numeral) :
    Spells .number s (.number numeral.decimal.toNumber) := .number h h.read?

/-- A word means what the lexer takes it for. -/
theorem spells_word {c : Char} {more : List Char} (hc : startsWord c = true)
    (hmore : ∀ d ∈ more, continuesWord d = true) :
    Spells .word (c :: more) (wordLexeme (String.ofList (c :: more))) := by
  have htext : (String.ofList (c :: more)).toList = c :: more := String.toList_ofList
  unfold wordLexeme
  split_ifs with htrue hfalse hnull
  · rw [← htext, htrue]
    exact .bool true
  · rw [← htext, hfalse]
    exact .bool false
  · rw [← htext, hnull]
    exact .null
  · refine .word hc hmore ?_
    simp only [List.mem_cons, List.not_mem_nil, or_false, not_or]
    exact ⟨htrue, hfalse, hnull⟩

theorem Spells.of_word {s : List Char} {l : Lexeme} (h : Spells .word s l) :
    ∃ c more, s = c :: more ∧ startsWord c = true ∧ (∀ d ∈ more, continuesWord d = true) ∧
      l = wordLexeme (String.ofList s) := by
  cases h with
  | bool b =>
      cases b with
      | false => exact ⟨'f', ['a', 'l', 's', 'e'], rfl, rfl, List.all_eq_true.mp rfl, rfl⟩
      | true => exact ⟨'t', ['r', 'u', 'e'], rfl, rfl, List.all_eq_true.mp rfl, rfl⟩
  | null => exact ⟨'n', ['u', 'l', 'l'], rfl, rfl, List.all_eq_true.mp rfl, rfl⟩
  | @word c more hc hmore hname =>
      simp only [List.mem_cons, List.not_mem_nil, or_false, not_or] at hname
      obtain ⟨htrue, hfalse, hnull⟩ := hname
      refine ⟨c, more, rfl, hc, hmore, ?_⟩
      rw [wordLexeme, if_neg htrue, if_neg hfalse, if_neg hnull]

/-- The text `s` in front of another one is the longest lexeme of its class there. -/
structure Longest (k : Class) (s behind : List Char) (l : Lexeme) : Prop where
  spells : Spells k s l
  longest : ∀ s' l', Spells k s' l' → s' <+: s ++ behind → s'.length ≤ s.length

/-- The text cannot be cut at its front, and why. -/
inductive Malformed : List Char → Fault → Prop
  /-- The character is no blank, and no lexeme starts with it. -/
  | stray {c : Char} {rest : List Char} : Text.isBlank c = false → ¬ IsQuote c →
      (∀ k s l, Spells k s l → ¬ s <+: c :: rest) → Malformed (c :: rest) (.unexpectedCharacter c)
  /-- A string is not closed, or has an escape that is none. -/
  | string {quote : Char} {s body r : List Char} {cause : Fault} : IsQuote quote →
      IsContents quote s body → Breaks r cause → Malformed (quote :: (s ++ r)) cause
  /-- A number has a marker, and no exponent. -/
  | exponent {negative : Bool} {whole point part rest : List Char} {c : Char} : IsDigits whole →
      IsFraction point part → isMarker c = true →
      (∀ marked e, IsExponent marked e → marked <+: c :: rest → marked = []) →
      Malformed (signText negative ++ (whole ++ (point ++ c :: rest))) .malformedExponent
  /-- A number runs into a word that is not its exponent. -/
  | number {negative : Bool} {whole point part marked rest : List Char} {c : Char} {e : Int} :
      IsDigits whole → IsFraction point part → IsExponent marked e → startsWord c = true →
      (marked = [] → isMarker c = false) →
      Malformed (signText negative ++ (whole ++ (point ++ (marked ++ c :: rest)))) .malformedNumber

/-! ## What the lexer takes -/

theorem longest_string {quote : Char} {s body r : List Char} (hquote : IsQuote quote)
    (hs : IsContents quote s body) :
    Longest .string (quote :: (s ++ [quote])) r (.string (String.ofList body)) where
  spells := .string hquote hs
  longest := by
    rintro _ _ (_ | @⟨quote', s', body', hquote', hs'⟩) hfront
    -- Both strings are read from the same text.
    obtain ⟨u, hu⟩ := hfront
    obtain ⟨rfl, hrest⟩ : quote' = quote ∧ s' ++ quote' :: u = s ++ quote :: r := by simpa using hu
    have hread := hs.stringBody_closed hquote.ne_slash r
    rw [← hrest, hs'.stringBody_closed hquote.ne_slash u] at hread
    have hlength : s'.length + 1 = s.length + 1 := (Prod.mk.inj (Except.ok.inj hread)).2
    simp only [List.length_cons, List.length_append, List.length_nil]
    omega

theorem longest_word {c : Char} {more r : List Char} (hc : startsWord c = true)
    (hmore : ∀ d ∈ more, continuesWord d = true) (hr : r.head?.any continuesWord = false) :
    Longest .word (c :: more) r (wordLexeme (String.ofList (c :: more))) where
  spells := spells_word hc hmore
  longest := by
    intro s' l' hs' hfront
    obtain ⟨c', more', rfl, -, hmore', -⟩ := hs'.of_word
    have hrun : more' ++ [] <+: more ++ r := by
      rw [List.append_nil]
      exact (List.cons_prefix_cons.mp hfront).2
    rcases run_cases hmore hmore' hr rfl hrun with ⟨rfl, -⟩ | ⟨hlt, -⟩
    · exact Nat.le_refl _
    · exact Nat.succ_le_succ hlt.le

theorem longest_number {s r : List Char} {numeral : Numeral} (h : IsNumeral s numeral)
    (hr : EndsNumeral s r) : Longest .number s r (.number numeral.decimal.toNumber) where
  spells := spells_number h
  longest := by
    rintro _ _ (_ | _ | @⟨s', numeral', _, h', -⟩) hfront
    obtain @⟨negative, whole, point, part, marked, exponent, hwhole, hpoint, hmarked⟩ := h
    exact h'.length_le hwhole hpoint hmarked hr.digit (fun _ => hr.marker)
      (hr.startsFraction_marked hwhole hmarked) hfront

/-- **What the lexer takes is the longest lexeme of its class**, with its meaning. -/
theorem longest_of_lexeme {c : Char} {rest : List Char} {l : Lexeme} {n : Nat}
    (h : lexeme c rest = .ok (l, n)) : ∃ k, Longest k (c :: rest.take n) (rest.drop n) l := by
  have hn := lexeme_le h
  cases isLexeme_of_lexeme h with
  | @symbol x n hsymbol =>
      obtain ⟨htext, hlongest⟩ := text_of_symbol? hsymbol
      refine ⟨.symbol, htext ▸ .symbol x, ?_⟩
      rintro _ _ ⟨y⟩ hfront
      rw [List.cons_append, List.take_append_drop] at hfront
      rw [List.length_cons, List.length_take_of_le hn]
      exact hlongest y hfront
  | @string body n hquote hbody =>
      obtain ⟨s, r, rfl, hs, rfl⟩ := isContents_of_stringBody hbody
      have hsplit : s ++ c :: r = (s ++ [c]) ++ r := by simp
      rw [hsplit, List.take_left' (by simp), List.drop_left' (by simp)]
      exact ⟨.string, longest_string hquote hs⟩
  | @number numeral after hnumber hnumeral =>
      obtain ⟨text, htext, his, hends⟩ := isNumeral_of_splitNumeral hnumber hnumeral
      obtain ⟨d, more, rfl, -⟩ := his.startsNumber
      rw [List.cons_append, List.cons.injEq] at htext
      obtain ⟨rfl, rfl⟩ := htext
      have hlength : (more ++ after).length - after.length = more.length := by simp
      rw [hlength, List.take_left, List.drop_left]
      exact ⟨.number, longest_number his hends⟩
  | word hword =>
      have hall : ∀ d ∈ rest.takeWhile continuesWord, continuesWord d = true :=
        fun d hd => List.mem_takeWhile_imp hd
      have hstop : (rest.dropWhile continuesWord).head?.any continuesWord = false := by
        cases hdrop : rest.dropWhile continuesWord with
        | nil => rfl
        | cons d after => simpa using dropWhile_stop hdrop
      have hsplit : rest.takeWhile continuesWord ++ rest.dropWhile continuesWord = rest :=
        List.takeWhile_append_dropWhile
      have hlongest := longest_word hword hall hstop
      generalize rest.takeWhile continuesWord = more at hlongest hsplit ⊢
      rw [← hsplit, List.take_left, List.drop_left]
      exact ⟨.word, hlongest⟩

/-! ## What the lexer refuses -/

/-- Where an exponent is refused, there is a marker and none begins with it. -/
theorem splitExponent_eq_error {s : List Char} {cause : Fault}
    (h : splitExponent s = .error cause) :
    cause = .malformedExponent ∧ ∃ c rest, s = c :: rest ∧ isMarker c = true ∧
      ∀ marked e, IsExponent marked e → marked <+: c :: rest → marked = [] := by
  cases s with
  | nil => cases h
  | cons c rest =>
      by_cases hc : c = 'e' ∨ c = 'E'
      · simp only [splitExponent, if_pos hc] at h
        split at h
        next hnone =>
          cases h
          refine ⟨rfl, c, rest, rfl, by simpa [isMarker] using hc, ?_⟩
          rintro _ _ (_ | @⟨c', sign, ds, negative, hc', hsign, hds⟩) hfront
          · rfl
          -- The digits of an exponent would have been found.
          obtain ⟨u, hu⟩ := hfront
          obtain ⟨-, rfl⟩ : c' = c ∧ sign ++ (ds ++ u) = rest := by simpa using hu
          obtain ⟨d, more, rfl, hd⟩ := hds.exists_cons
          rw [hsign.readSign (hds.head?_append u)] at hnone
          simp [hd] at hnone
        next => cases h
      · simp only [splitExponent, if_neg hc] at h
        cases h

/-- What is refused as a number is malformed. -/
theorem malformed_of_splitUnsigned {negative : Bool} {s : List Char} {cause : Fault}
    (h : splitUnsigned negative s = .error cause) (hs : s.head?.any isDigit = true) :
    Malformed (signText negative ++ s) cause := by
  obtain ⟨hwhole, hstop⟩ := isDigits_takeWhile hs
  have hsplit : s.takeWhile isDigit ++ s.dropWhile isDigit = s := List.takeWhile_append_dropWhile
  unfold splitUnsigned at h
  rcases hpart : splitPart (s.dropWhile isDigit) with ⟨part, rest⟩
  obtain ⟨point, hpointed, hpoint, hrest, -⟩ := isFraction_of_splitPart hpart hstop
  rw [hpart] at h
  rw [← hsplit, hpointed]
  dsimp only at h
  cases hexponent : splitExponent rest with
  | error cause' =>
      obtain ⟨rfl, c, rest, rfl, hc, hnone⟩ := splitExponent_eq_error hexponent
      rw [hexponent] at h
      cases h
      exact .exponent hwhole hpoint hc hnone
  | ok found =>
      obtain ⟨exponent, rest'⟩ := found
      obtain ⟨marked, rfl, hmarked, -, hmarker⟩ := isExponent_of_splitExponent hexponent hrest
      rw [hexponent] at h
      change (if rest'.head?.any startsWord then _ else _) = _ at h
      split at h
      next hword =>
        cases h
        cases rest' with
        | nil => cases hword
        | cons c rest' =>
            exact .number hwhole hpoint hmarked (by simpa using hword) (by simpa using hmarker)
      next => cases h

/-- A number starts with a sign and digits. -/
theorem exists_digits_of_startsNumber {c : Char} {rest : List Char}
    (h : startsNumber c rest = true) :
    ∃ negative s, c :: rest = signText negative ++ s ∧ s.head?.any isDigit = true := by
  simp only [startsNumber, Bool.or_eq_true, Bool.and_eq_true, beq_iff_eq] at h
  rcases h with hdigit | ⟨rfl, hdigit⟩
  · exact ⟨false, c :: rest, rfl, by simpa using hdigit⟩
  · exact ⟨true, rest, rfl, hdigit⟩

theorem startsNumber_of_digits {c : Char} {rest s : List Char} {negative : Bool}
    (h : c :: rest = signText negative ++ s) (hs : s.head?.any isDigit = true) :
    startsNumber c rest = true := by
  cases negative with
  | true =>
      obtain ⟨rfl, rfl⟩ := List.cons.inj h
      simp [startsNumber, hs]
  | false =>
      obtain rfl : c :: rest = s := h
      simpa [startsNumber] using Or.inl hs

/-- **What the lexer refuses is malformed.** -/
theorem malformed_of_lexeme {c : Char} {rest : List Char} {cause : Fault}
    (hc : Text.isBlank c = false) (h : lexeme c rest = .error cause) :
    Malformed (c :: rest) cause := by
  unfold lexeme at h
  split at h
  next => cases h
  next hsymbol =>
    split_ifs at h with hquote hnumber hword
    · obtain ⟨s, body, r, rfl, hs, hbreaks⟩ := exists_breaks (map_eq_error h)
      exact .string hquote hs hbreaks
    · obtain ⟨negative, s, hs, hdigit⟩ := exists_digits_of_startsNumber hnumber
      have hsplit := map_eq_error h
      rw [hs, splitNumeral_signText negative hdigit] at hsplit
      rw [hs]
      exact malformed_of_splitUnsigned hsplit hdigit
    · cases h
      refine .stray hc hquote fun k s l hspells hfront => ?_
      cases k with
      | symbol =>
          obtain ⟨x⟩ := hspells
          exact not_prefix_of_symbol? hsymbol x hfront
      | string =>
          obtain _ | ⟨hquote', -⟩ := hspells
          exact hquote ((List.cons_prefix_cons.mp hfront).1 ▸ hquote')
      | number =>
          obtain _ | _ | ⟨hs, -⟩ := hspells
          obtain ⟨d, more, rfl, hstarts⟩ := hs.startsNumber
          obtain ⟨u, hu⟩ := hfront
          obtain ⟨rfl, rfl⟩ := List.cons.inj hu
          exact hnumber (hstarts u)
      | word =>
          obtain ⟨d, more, rfl, hd, -⟩ := hspells.of_word
          exact hword ((List.cons_prefix_cons.mp hfront).1 ▸ hd)

/-- A character that starts no lexeme is refused. -/
theorem lexeme_stray {c : Char} {rest : List Char} (hquote : ¬ IsQuote c)
    (hnone : ∀ k s l, Spells k s l → ¬ s <+: c :: rest) :
    lexeme c rest = .error (.unexpectedCharacter c) := by
  have hsymbol : symbol? c rest = none := by
    rw [Option.eq_none_iff_forall_ne_some]
    rintro ⟨x, n⟩ hx
    refine hnone .symbol _ _ (.symbol x) ?_
    rw [(text_of_symbol? hx).1]
    exact List.cons_prefix_cons.mpr ⟨rfl, List.take_prefix n rest⟩
  have hnumber : ¬ startsNumber c rest = true := by
    intro hstarts
    obtain ⟨negative, s, hs, hdigit⟩ := exists_digits_of_startsNumber hstarts
    obtain ⟨hwhole, -⟩ := isDigits_takeWhile hdigit
    have hnumeral : IsNumeral (signText negative ++ (s.takeWhile isDigit ++ ([] ++ []))) _ :=
      .mk hwhole .none .none
    refine hnone .number _ _ (spells_number hnumeral) ?_
    rw [hs, List.append_nil, List.append_nil, List.prefix_append_right_inj]
    exact List.takeWhile_prefix isDigit
  have hword : ¬ startsWord c = true := fun hc =>
    hnone .word _ _ (spells_word hc (List.forall_mem_nil _))
      (List.cons_prefix_cons.mpr ⟨rfl, List.nil_prefix⟩)
  rw [lexeme, hsymbol]
  simp only [if_neg hnumber, if_neg hword]
  exact if_neg hquote

theorem startsWord_of_isMarker {c : Char} (hc : isMarker c = true) : startsWord c = true := by
  have hcases : c = 'e' ∨ c = 'E' := by simpa [isMarker] using hc
  rcases hcases with rfl | rfl <;> rfl

/-- In front of a word a number is refused for what is cut off as its exponent. -/
theorem lexeme_number {c d : Char} {rest r whole point part marked : List Char} {negative : Bool}
    {e : Int} {cause : Fault} (hwhole : IsDigits whole) (hpoint : IsFraction point part)
    (hmarked : IsExponent marked e) (hd : startsWord d = true)
    (hcause : (do
      let (exponent, rest) ← splitExponent (marked ++ d :: r)
      if rest.head?.any startsWord then .error .malformedNumber
      else .ok (Numeral.mk negative whole part exponent, rest)) = .error cause)
    (h : c :: rest = signText negative ++ (whole ++ (point ++ (marked ++ d :: r)))) :
    lexeme c rest = .error cause := by
  have hdigits := hwhole.head?_append (point ++ (marked ++ d :: r))
  have hdigit : (marked ++ d :: r).head?.any isDigit = false :=
    hmarked.digit (by simpa using isDigit_of_startsWord hd)
  have hfraction : startsFraction (marked ++ d :: r) = false :=
    hmarked.fraction fun _ => by simp [startsFraction, startsWord_ne hd (d := '.') rfl]
  rw [lexeme_of_startsNumber (startsNumber_of_digits h hdigits), h,
    splitNumeral_signText negative hdigits,
    splitUnsigned_append_fraction hwhole hpoint hdigit fun _ => hfraction, hcause]
  rfl

/-- **What is malformed is refused**, for the cause that it has. -/
theorem Malformed.lexeme {c : Char} {rest : List Char} {cause : Fault}
    (h : Malformed (c :: rest) cause) : lexeme c rest = .error cause := by
  generalize ht : c :: rest = t at h
  cases h with
  | stray _ hquote hnone =>
      obtain ⟨rfl, rfl⟩ := List.cons.inj ht
      exact lexeme_stray hquote hnone
  | string hquote hs hbreaks =>
      obtain ⟨rfl, rfl⟩ := List.cons.inj ht
      rw [lexeme_of_quote hquote, hs.stringBody, hbreaks.stringBody]
      rfl
  | @exponent negative whole point part r d hwhole hpoint hd hnone =>
      refine lexeme_number (e := 0) hwhole hpoint .none (startsWord_of_isMarker hd) ?_ ht
      cases hsplit : splitExponent (d :: r) with
      | error cause =>
          obtain ⟨rfl, -⟩ := splitExponent_eq_error hsplit
          rw [List.nil_append, hsplit]
          rfl
      | ok found =>
          -- What is taken as an exponent is none, and then no marker stands in front.
          obtain ⟨e, after⟩ := found
          have hdigit := isDigit_of_startsWord (startsWord_of_isMarker hd)
          obtain ⟨marked, hmarked, hexponent, -, hmarker⟩ :=
            isExponent_of_splitExponent hsplit (by simpa using hdigit)
          have hnil := hnone marked e hexponent ⟨after, hmarked.symm⟩
          have hstop := hmarker hnil
          rw [hnil, List.nil_append] at hmarked
          rw [← hmarked, List.head?_cons, Option.any_some, hd] at hstop
          cases hstop
  | @number negative whole point part marked r d e hwhole hpoint hmarked hd hmarker =>
      refine lexeme_number hwhole hpoint hmarked hd ?_ ht
      rw [hmarked.splitExponent (by simpa using isDigit_of_startsWord hd) (by simpa using hmarker)]
      show (if (d :: r).head?.any startsWord then _ else _) = _
      rw [List.head?_cons, Option.any_some, hd]
      rfl

/-- At a character that is no blank the lexer refuses exactly what is malformed. -/
theorem lexeme_eq_error_iff {c : Char} {rest : List Char} {cause : Fault}
    (hc : Text.isBlank c = false) : lexeme c rest = .error cause ↔ Malformed (c :: rest) cause :=
  ⟨malformed_of_lexeme hc, Malformed.lexeme⟩

end WhenClause.Lexer
