import WhenClause.Proofs.Expression.Diagnostics
import WhenClause.Proofs.Safety.Messages

set_option autoImplicit false

/-! # Argument lists in messages

The error for a stray token in an argument list shows the text of the list. That text is found by
a search of its own, which counts the brackets that are open, all three kinds with one number, and
skips what stands in quotes. The search passes over each lexeme that is no bracket, whatever
characters a string has (`carries_lexeme`), and a bracket opens or closes one. So it passes over
tokens whose brackets are nested (`exists_passed`), and where they are nested up to the closing
parenthesis, it finds exactly what stands between the two (`argumentText_enclosed`). -/

namespace WhenClause.Source

open Decimal (isDigit signText)
open Lexer (byteLength byteLength_append IsContents IsEscape IsGap IsQuote Scanned Spells)

/-! ## Characters -/

/-- The characters that the search for the closing parenthesis looks at outside of strings. -/
def marks : List Char := ['(', '[', '\x7b', ')', ']', '\x7d', '"', '\x27']

theorem not_mem_marks {p : Char → Bool} {c : Char} (hc : p c = true)
    (hp : ∀ d ∈ marks, p d = false) : c ∉ marks := by
  intro hmark
  rw [hp c hmark] at hc
  cases hc

/-- A text is passed over: the search goes on behind it, with `after` brackets open where `before`
were. -/
def Carries (before after : Nat) (s : List Char) : Prop :=
  ∀ r, upToClosing before none (s ++ r) = s ++ upToClosing after none r

variable {depth d e : Nat} {s t : List Char}

theorem Carries.append {before : Nat} (hs : Carries before d s) (ht : Carries d e t) :
    Carries before e (s ++ t) := by
  intro r
  rw [List.append_assoc, hs, ht, List.append_assoc]

theorem carries_unmarked (h : ∀ c ∈ s, c ∉ marks) (depth : Nat) : Carries depth depth s := by
  intro r
  induction s with
  | nil => rfl
  | cons c s ih =>
      have hc := h c List.mem_cons_self
      simp only [marks, List.mem_cons, List.not_mem_nil, or_false, not_or] at hc
      obtain ⟨hparen, hbracket, hbrace, hparen', hbracket', hbrace', hquote, hapostrophe⟩ := hc
      have hstep :
          upToClosing depth none (c :: (s ++ r)) = c :: upToClosing depth none (s ++ r) := by
        simp [upToClosing, opens, closes, *]
      rw [List.cons_append, hstep, ih fun c hc => h c (List.mem_cons_of_mem _ hc), List.cons_append]

theorem carries_gap {gap : List Char} (h : IsGap gap) (depth : Nat) : Carries depth depth gap :=
  carries_unmarked (fun _ hc => not_mem_marks (h _ hc) (by simp [marks, Text.isBlank])) depth

theorem carries_opening {c : Char} (h : opens c = true) (depth : Nat) :
    Carries depth (depth + 1) [c] := by
  intro r
  have hquote : ¬ (c = '"' ∨ c = '\x27') := by
    rintro (rfl | rfl) <;> cases h
  rw [List.singleton_append, upToClosing, if_neg hquote, if_pos h, List.singleton_append]

theorem carries_closing {c : Char} (h : closes c = true) (depth : Nat) :
    Carries (depth + 1) depth [c] := by
  intro r
  have hquote : ¬ (c = '"' ∨ c = '\x27') := by
    rintro (rfl | rfl) <;> cases h
  have hopens : ¬ opens c = true := by
    simp only [closes, Bool.or_eq_true, beq_iff_eq] at h
    rcases h with (rfl | rfl) | rfl <;> decide
  rw [List.singleton_append, upToClosing, if_neg hquote, if_neg hopens, h,
    if_pos (by simp), Nat.add_sub_cancel, List.singleton_append]

/-! ## Strings -/

/-- Inside a string a character that is no backslash at most ends the string. -/
theorem upToClosing_unescaped {quote c : Char} (hslash : c ≠ '\\') (r : List Char) :
    upToClosing depth (some quote) (c :: r)
      = c :: upToClosing depth (if c = quote then none else some quote) r := by
  rw [upToClosing.eq_def]
  simp only [if_neg hslash]

/-- Inside a string a character that neither ends it nor escapes another one is passed over. -/
theorem upToClosing_inside {quote : Char} (h : ∀ c ∈ s, c ≠ '\\' ∧ c ≠ quote) (r : List Char) :
    upToClosing depth (some quote) (s ++ r) = s ++ upToClosing depth (some quote) r := by
  induction s with
  | nil => rfl
  | cons c s ih =>
      obtain ⟨hslash, hquote⟩ := h c List.mem_cons_self
      rw [List.cons_append, upToClosing_unescaped hslash, if_neg hquote,
        ih fun c hc => h c (List.mem_cons_of_mem _ hc), List.cons_append]

theorem isSome_hexValue? {ds : List Char} {n v : Nat}
    (h : ds.foldlM (fun n d => (Text.hexValue? d).map (16 * n + ·)) n = some v) :
    ∀ c ∈ ds, (Text.hexValue? c).isSome = true := by
  induction ds generalizing n with
  | nil => exact List.forall_mem_nil _
  | cons c ds ih =>
      obtain ⟨m, hm, hrest⟩ := Option.bind_eq_some_iff.mp h
      refine List.forall_mem_cons.mpr ⟨?_, ih hrest⟩
      obtain ⟨value, hvalue, -⟩ := Option.map_eq_some_iff.mp hm
      exact Option.isSome_of_eq_some hvalue

/-- The escapes of the lexer hide no quote: the character behind a backslash is skipped, and the
digits of a code are neither quotes nor backslashes. -/
theorem upToClosing_escape {quote : Char} (hquote : IsQuote quote) {escape : List Char} {c : Char}
    (h : IsEscape escape c) (r : List Char) :
    upToClosing depth (some quote) (escape ++ r)
      = escape ++ upToClosing depth (some quote) r := by
  cases h with
  | letter _ => simp [upToClosing]
  | @code k _ _ =>
      have hdigits : ∀ c ∈ k.digits, c ≠ '\\' ∧ c ≠ quote := by
        intro c hc
        have hhex := isSome_hexValue? k.reads c hc
        refine ⟨?_, ?_⟩
        · rintro rfl
          cases hhex
        · rcases hquote with rfl | rfl <;> rintro rfl <;> cases hhex
      simp only [List.cons_append, upToClosing, upToClosing_inside hdigits]
      simp

/-- **What stands between the quotes of a string is passed over**, whatever brackets, quotes and
escapes it has. -/
theorem upToClosing_contents {quote : Char} (hquote : IsQuote quote) {body : List Char}
    (h : IsContents quote s body) (r : List Char) :
    upToClosing depth (some quote) (s ++ r) = s ++ upToClosing depth (some quote) r := by
  induction h with
  | nil => rfl
  | @plain c s body hne hslash _ ih =>
      rw [List.cons_append, upToClosing_unescaped hslash, if_neg hne, ih, List.cons_append]
  | escape hescape _ ih =>
      rw [List.append_assoc, upToClosing_escape hquote hescape, ih, List.append_assoc]

theorem carries_string {quote : Char} (hquote : IsQuote quote) {body : List Char}
    (h : IsContents quote s body) (depth : Nat) :
    Carries depth depth (quote :: (s ++ [quote])) := by
  intro r
  have hopen : upToClosing depth none (quote :: (s ++ ([quote] ++ r)))
      = quote :: upToClosing depth (some quote) (s ++ ([quote] ++ r)) := by
    exact if_pos hquote
  have hclose :
      upToClosing depth (some quote) (quote :: r) = quote :: upToClosing depth none r := by
    rw [upToClosing_unescaped hquote.ne_slash, if_pos rfl]
  rw [List.cons_append, List.append_assoc, hopen, upToClosing_contents hquote h,
    List.singleton_append, hclose, List.cons_append, List.append_assoc, List.singleton_append]

/-! ## Lexemes -/

theorem isDigits_unmarked (h : Lexer.IsDigits s) : ∀ c ∈ s, c ∉ marks :=
  fun _ hc => not_mem_marks (h.all _ hc) (by simp [marks, isDigit])

theorem isNumeral_unmarked {numeral : Lexer.Numeral} (h : Lexer.IsNumeral s numeral) :
    ∀ c ∈ s, c ∉ marks := by
  obtain @⟨negative, whole, point, part, marked, exponent, hwhole, hpoint, hmarked⟩ := h
  have hsign : ∀ c ∈ signText negative, c ∉ marks := by
    cases negative <;> simp [signText, marks]
  have hfraction : ∀ c ∈ point, c ∉ marks := by
    cases hpoint with
    | none => exact List.forall_mem_nil _
    | some hds => exact List.forall_mem_cons.mpr ⟨by decide, isDigits_unmarked hds⟩
  have hexponent : ∀ c ∈ marked, c ∉ marks := by
    cases hmarked with
    | none => exact List.forall_mem_nil _
    | some hc hsign hds =>
        refine List.forall_mem_cons.mpr ⟨by rcases hc with rfl | rfl <;> decide, ?_⟩
        refine List.forall_mem_append.mpr ⟨?_, isDigits_unmarked hds⟩
        cases hsign <;> simp [marks]
  simp only [List.forall_mem_append]
  exact ⟨hsign, isDigits_unmarked hwhole, hfraction, hexponent⟩

def closing? : Lexeme → Option Symbol
  | .symbol .leftParen => some .rightParen
  | .symbol .leftBracket => some .rightBracket
  | .symbol .leftBrace => some .rightBrace
  | _ => none

def isClosing : Lexeme → Bool
  | .symbol s => s == .rightParen || s == .rightBracket || s == .rightBrace
  | _ => false

theorem isClosing_of_closing? {l : Lexeme} {x : Symbol} (h : closing? l = some x) :
    isClosing (.symbol x) = true := by
  unfold closing? at h
  split at h <;> cases h <;> rfl

variable {k : Lexer.Class} {l : Lexeme}

/-- **A lexeme that is no bracket is passed over.** -/
theorem carries_lexeme (h : Spells k s l) (hopening : closing? l = none)
    (hclosing : isClosing l = false) (depth : Nat) : Carries depth depth s := by
  cases k with
  | symbol =>
      obtain ⟨x⟩ := h
      refine carries_unmarked ?_ depth
      cases x with
      | leftParen | leftBracket | leftBrace => cases hopening
      | rightParen | rightBracket | rightBrace => cases hclosing
      | _ => simp [Symbol.text, marks]
  | string =>
      obtain _ | ⟨hquote, hs⟩ := h
      exact carries_string hquote hs depth
  | number =>
      obtain _ | _ | ⟨hs, -⟩ := h
      exact carries_unmarked (isNumeral_unmarked hs) depth
  | word =>
      obtain ⟨c, more, rfl, hc, hmore, -⟩ := h.of_word
      refine carries_unmarked (List.forall_mem_cons.mpr ⟨?_, fun d hd => ?_⟩) depth
      · exact not_mem_marks hc (by simp [marks, Lexer.startsWord])
      · exact not_mem_marks (hmore d hd) (by
          simp [marks, Lexer.continuesWord, Lexer.startsWord, isDigit])

theorem symbol_of_spells {x : Symbol} (h : Spells k s (.symbol x)) : s = x.text.toList := by
  obtain ⟨⟩ := h
  rfl

theorem carries_opener (h : Spells k s l) {x : Symbol} (hl : closing? l = some x) (depth : Nat) :
    Carries depth (depth + 1) s := by
  obtain ⟨y, rfl⟩ : ∃ y, l = .symbol y := by
    cases l with
    | symbol y => exact ⟨y, rfl⟩
    | _ => cases hl
  rw [symbol_of_spells h]
  cases y with
  | leftParen | leftBracket | leftBrace => exact carries_opening rfl depth
  | _ => cases hl

theorem carries_closer {x : Symbol} (h : Spells k s (.symbol x)) (hx : isClosing (.symbol x) = true)
    (depth : Nat) : Carries (depth + 1) depth s := by
  rw [symbol_of_spells h]
  cases x with
  | rightParen | rightBracket | rightBrace => exact carries_closing rfl depth
  | _ => cases hx

/-! ## Tokens -/

/-- Tokens whose brackets are nested: each opening one is closed by one of its kind, and no other
one is closed. -/
inductive Nested : List Token → Prop
  | nil : Nested []
  | other {t : Token} {ts : List Token} : closing? t.lexeme = none → isClosing t.lexeme = false →
      Nested ts → Nested (t :: ts)
  | pair {t u : Token} {x : Symbol} {inner ts : List Token} : closing? t.lexeme = some x →
      u.lexeme = .symbol x → Nested inner → Nested ts → Nested (t :: (inner ++ u :: ts))

variable {offset : Nat} {t : Token} {ts us : List Token}

/-- The first token of a text is spelled in it behind a gap. -/
theorem first_of_scanned (h : Scanned offset s (t :: ts)) :
    ∃ gap k spelling rest, s = (gap ++ spelling) ++ rest ∧ IsGap gap ∧ Spells k spelling t.lexeme ∧
      t.start = offset + byteLength gap ∧ t.stop = offset + byteLength (gap ++ spelling) ∧
      Scanned (offset + byteLength (gap ++ spelling)) rest ts := by
  cases h with
  | @token _ gap rest c l n _ hgap _ hl hrest =>
      obtain ⟨k, hlongest⟩ := Lexer.longest_of_lexeme hl
      have hsplit : c :: rest = (c :: rest.take n) ++ rest.drop n := by
        rw [List.cons_append, List.take_append_drop]
      have hstop : offset + byteLength (gap ++ c :: rest.take n)
          = offset + byteLength gap + byteLength (c :: rest.take n) := by
        rw [byteLength_append, Nat.add_assoc]
      refine ⟨gap, k, c :: rest.take n, rest.drop n, ?_, hgap, hlongest.spells, rfl, hstop.symm, ?_⟩
      · rw [List.append_assoc, ← hsplit]
      · rwa [hstop]

/-- The tokens of a text stand in it one after the other. -/
theorem exists_front (h : Scanned offset s (ts ++ us)) :
    ∃ front rest, s = front ++ rest ∧ Scanned (offset + byteLength front) rest us := by
  induction ts generalizing offset s with
  | nil => exact ⟨[], s, rfl, h⟩
  | cons t ts ih =>
      obtain ⟨gap, k, spelling, rest, rfl, -, -, -, -, hrest⟩ := first_of_scanned h
      obtain ⟨front, behind, rfl, hbehind⟩ := ih hrest
      refine ⟨gap ++ spelling ++ front, behind, (List.append_assoc _ _ _).symm, ?_⟩
      rwa [byteLength_append, ← Nat.add_assoc]

/-- **Tokens whose brackets are nested are passed over**, with the gaps between them. -/
theorem exists_passed (hts : Nested ts) (h : Scanned offset s (ts ++ us)) :
    ∃ passed rest, s = passed ++ rest ∧ Scanned (offset + byteLength passed) rest us ∧
      ∀ depth, Carries depth depth passed := by
  -- The induction is on the nesting. The tokens behind are arbitrary, since inside of a pair they
  -- start with the bracket that closes it.
  induction hts generalizing offset s us with
  | nil => exact ⟨[], s, rfl, h, fun _ _ => rfl⟩
  | @other t ts hopening hclosing _ ih =>
      obtain ⟨gap, k, spelling, rest, rfl, hgap, hspells, -, -, hrest⟩ := first_of_scanned h
      obtain ⟨passed, behind, rfl, hbehind, hpassed⟩ := ih hrest
      refine ⟨gap ++ spelling ++ passed, behind, (List.append_assoc _ _ _).symm, ?_,
        fun depth => ?_⟩
      · rwa [byteLength_append, ← Nat.add_assoc]
      · have hfirst := (carries_gap hgap depth).append
          (carries_lexeme hspells hopening hclosing depth)
        exact hfirst.append (hpassed depth)
  | @pair t u x inner ts hopening hclosing _ _ ihinner ihts =>
      rw [List.cons_append, List.append_assoc, List.cons_append] at h
      obtain ⟨gap, k, spelling, rest, rfl, hgap, hspells, -, -, hrest⟩ := first_of_scanned h
      obtain ⟨inside, rest, rfl, hrest, hinside⟩ := ihinner hrest
      obtain ⟨gap', k', spelling', rest, rfl, hgap', hspells', -, -, hrest⟩ := first_of_scanned hrest
      obtain ⟨passed, rest, rfl, hrest, hpassed⟩ := ihts hrest
      refine ⟨gap ++ spelling ++ (inside ++ (gap' ++ spelling' ++ passed)), rest, by simp, ?_,
        fun depth => ?_⟩
      · simpa only [byteLength_append, Nat.add_assoc] using hrest
      · -- Between the two brackets one more is open.
        rw [hclosing] at hspells'
        have hfirst := (carries_gap hgap depth).append (carries_opener hspells hopening depth)
        have hlast := (carries_gap hgap' (depth + 1)).append
          (carries_closer hspells' (isClosing_of_closing? hopening) depth)
        exact hfirst.append ((hinside (depth + 1)).append (hlast.append (hpassed depth)))

/-! ## Argument lists -/

variable {source : List Char} {front inner behind : List Token} {opening closing : Token}

/-- **Where the brackets behind a token are nested up to a closing parenthesis, the text of the
list that begins there is what stands between the two.** -/
theorem argumentText_enclosed
    (h : Lexer.scan 0 source = .ok (front ++ opening :: (inner ++ closing :: behind)))
    (hinner : Nested inner) (hclosing : closing.lexeme = .symbol .rightParen) :
    ∃ list, Checked.slice source opening.stop closing.start = .ok list ∧
      argumentText source opening.stop = Text.trim list ∧
      Checked.argumentText source opening.stop = .ok (Text.trim list) ∧
      Text.Trims list (Text.trim list) := by
  obtain ⟨before, s, rfl, hs⟩ := exists_front (Lexer.scanned_of_scan h)
  obtain ⟨gap, _, spelling, s, rfl, -, -, -, hstop, hs⟩ := first_of_scanned hs
  obtain ⟨passed, s, rfl, hs, hpassed⟩ := exists_passed hinner hs
  obtain ⟨gap', _, spelling', s, rfl, hgap', hspells, hstart, -, -⟩ := first_of_scanned hs
  rw [hclosing] at hspells
  have hparen : spelling' = [')'] := symbol_of_spells hspells
  subst hparen
  have hsource : before ++ (gap ++ spelling ++ (passed ++ (gap' ++ [')'] ++ s)))
      = (before ++ (gap ++ spelling)) ++ ((passed ++ gap') ++ ')' :: s) := by simp
  have hopens : opening.stop = byteLength (before ++ (gap ++ spelling)) := by
    rw [hstop, Nat.zero_add, ← byteLength_append]
  have hcloses : closing.start
      = byteLength (before ++ (gap ++ spelling)) + byteLength (passed ++ gap') := by
    rw [hstart, Nat.zero_add, ← byteLength_append, byteLength_append passed, Nat.add_assoc]
  -- The list is passed over with the gap at its end, and the parenthesis ends the search.
  have hsearch : upToClosing 0 none ((passed ++ gap') ++ ')' :: s) = passed ++ gap' := by
    have hend : upToClosing 0 none (')' :: s) = [] := by
      simp [upToClosing, opens]
    rw [(hpassed 0).append (carries_gap hgap' 0) (')' :: s), hend, List.append_nil]
  refine ⟨passed ++ gap', ?_⟩
  rw [hsource, hopens, hcloses, Checked.argumentText_checked, argumentText,
    Checked.dropBytes?_append, Option.getD_some, hsearch]
  exact ⟨Checked.slice_append _ _ _, rfl, rfl, Text.trims_trim _⟩

end WhenClause.Source

namespace WhenClause.Expression

open Source (Nested)

/-- **The error for a stray token names exactly the argument list.** Behind each opening
parenthesis of the text, where the brackets are nested up to the closing one, the list that is shown
is the text between the two without the blanks at its ends. The error of a text shows the list
behind one of its opening parentheses. -/
theorem argument_list_shown {text : String} {tokens : Tokens}
    (h : Lexer.tokenize text.toList = .ok tokens) :
    (∀ (front inner behind : List Token) (opening closing : Token),
      tokens.list = front ++ opening :: (inner ++ closing :: behind) →
      opening.lexeme = .symbol .leftParen → Nested inner → closing.lexeme = .symbol .rightParen →
      ∃ list, Checked.slice text.toList opening.stop closing.start = .ok list ∧
        Source.argumentText text.toList opening.stop = Text.trim list ∧
        Checked.argumentText text.toList opening.stop = .ok (Text.trim list) ∧
        Text.Trims list (Text.trim list)) ∧
    ∀ list message, parse text = .error (.argumentParse list message) →
      ∃ opening ∈ tokens.list, opening.lexeme = .symbol .leftParen ∧
        list = String.ofList (Source.argumentText text.toList opening.stop) := by
  refine ⟨fun front inner behind opening closing hlist _ hinner hclosing => ?_,
    fun list message herror => ?_⟩
  · obtain ⟨ts, hts, rfl⟩ := Lexer.map_eq_ok h
    obtain rfl : ts = front ++ opening :: (inner ++ closing :: behind) := hlist
    exact Source.argumentText_enclosed hts hinner hclosing
  · rw [parse, Source.read, h] at herror
    change (Parser.readAll tokens).mapError (Source.errorOf text.toList) = _ at herror
    cases hread : Parser.readAll tokens with
    | ok e => rw [hread] at herror; cases herror
    | error reason =>
        rw [hread] at herror
        have hreason := Except.error.inj herror
        cases reason with
        | fault cause position => cases hreason
        | «arguments» offset found =>
            obtain ⟨opening, hmem, hparen, hstop⟩ := Parser.readAll_opening hread
            have hlist := (Error.argumentParse.inj hreason).1
            exact ⟨opening, hmem, hparen, by rw [hstop, ← hlist]⟩

/-- A stray word in a list whose strings hold brackets, an escaped quote and a character of two
bytes. -/
def strayWord : String := "f(['é)\\''] x \"(\")"

/-- The message shows the list up to its own parenthesis. -/
theorem stray_word_shown :
    Lexer.tokenize strayWord.toList = .ok ⟨[⟨.word "f", 0, 1⟩, ⟨.symbol .leftParen, 1, 2⟩,
        ⟨.symbol .leftBracket, 2, 3⟩, ⟨.string "é)'", 3, 10⟩, ⟨.symbol .rightBracket, 10, 11⟩,
        ⟨.word "x", 12, 13⟩, ⟨.string "(", 14, 17⟩, ⟨.symbol .rightParen, 17, 18⟩], 18⟩ ∧
      Nested [⟨.symbol .leftBracket, 2, 3⟩, ⟨.string "é)'", 3, 10⟩, ⟨.symbol .rightBracket, 10, 11⟩,
        ⟨.word "x", 12, 13⟩, ⟨.string "(", 14, 17⟩] ∧
      (∃ list, Checked.slice strayWord.toList 2 17 = .ok list ∧
        Source.argumentText strayWord.toList 2 = Text.trim list ∧
        Checked.argumentText strayWord.toList 2 = .ok (Text.trim list) ∧
        Text.Trims list (Text.trim list)) ∧
      parse strayWord
        = .error (.argumentParse "['é)\\''] x \"(\"" "Expected ',' or ')', found 'x'") ∧
      ∃ opening : Token, opening.lexeme = .symbol .leftParen ∧
        "['é)\\''] x \"(\"" = String.ofList (Source.argumentText strayWord.toList opening.stop) := by
  have htokens : Lexer.tokenize strayWord.toList = .ok ⟨[⟨.word "f", 0, 1⟩,
      ⟨.symbol .leftParen, 1, 2⟩, ⟨.symbol .leftBracket, 2, 3⟩, ⟨.string "é)'", 3, 10⟩,
      ⟨.symbol .rightBracket, 10, 11⟩, ⟨.word "x", 12, 13⟩, ⟨.string "(", 14, 17⟩,
      ⟨.symbol .rightParen, 17, 18⟩], 18⟩ := by cbv
  have hstring : Nested [⟨.string "é)'", 3, 10⟩] := .other rfl rfl .nil
  have hnested : Nested [⟨.symbol .leftBracket, 2, 3⟩, ⟨.string "é)'", 3, 10⟩,
      ⟨.symbol .rightBracket, 10, 11⟩, ⟨.word "x", 12, 13⟩, ⟨.string "(", 14, 17⟩] :=
    .pair rfl rfl hstring (.other rfl rfl (.other rfl rfl .nil))
  have hparse : parse strayWord
      = .error (.argumentParse "['é)\\''] x \"(\"" "Expected ',' or ')', found 'x'") := by
    have hread : Source.read strayWord.toList = .error (.arguments 2 (.word "x")) := by cbv
    have hlist : Source.argumentText strayWord.toList 2 = "['é)\\''] x \"(\"".toList := by cbv
    rw [parse, hread]
    show Except.error (Source.errorOf _ _) = _
    rw [Source.errorOf, hlist, String.ofList_toList]
    rfl
  obtain ⟨hlists, herrors⟩ := argument_list_shown htokens
  obtain ⟨opening, -, hopening⟩ := herrors _ _ hparse
  exact ⟨htokens, hnested, hlists [⟨.word "f", 0, 1⟩] _ [] _ _ rfl rfl hnested rfl, hparse, opening,
    hopening⟩

end WhenClause.Expression
