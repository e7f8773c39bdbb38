import WhenClause.Proofs.Expression.Embedding
import WhenClause.Proofs.Expression.Outcomes
import WhenClause.Proofs.Safety.Checked
import WhenClause.Proofs.Token.Classes

set_option autoImplicit false

/-! # Fields of records

A record takes any spelling of a word as a key, also the spelling of a literal. Behind a point the
spelling of a literal is no member name. So a field of a record can be read back with a chain
(`Expression.parse_fieldText`), unless its key is `true`, `false` or `null`
(`Expression.parse_fieldText_literal`). -/

namespace WhenClause

open WhenClause.Parser WhenClause.Lexer

/-! ## Texts -/

def recordText (key t : String) : String := "\x7b" ++ key ++ ": " ++ t ++ "\x7d"

/-- A call on such a record, up to the point behind it. -/
def callText (key t : String) : String := "first(" ++ recordText key t ++ ")."

/-- The text that puts a text into a record and takes it out again, by way of a command. -/
def fieldText (key t : String) : String := callText key t ++ key

/-- The expression of such a text. -/
def fieldOf (key : String) (e : Expression) : Expression :=
  .invocation "first" [.record [(key, e)]] false [.property key]

theorem toList_recordText (key t : String) :
    (recordText key t).toList = '\x7b' :: (key.toList ++ ':' :: ' ' :: (t.toList ++ ['\x7d'])) := by
  simp [recordText]

theorem toList_callText (key t : String) :
    (callText key t).toList = "first".toList ++ '(' :: ((recordText key t).toList ++ [')', '.']) := by
  simp [callText]

theorem toList_fieldText (key t : String) :
    (fieldText key t).toList = (callText key t).toList ++ key.toList := String.toList_append

/-! ## Keys -/

/-- A key in front of a colon is spelled as a word, unless it is a string. -/
theorem Lexer.isSpelling_of_scan {offset : Nat} {s r : List Char} {u : Token} {ts : List Token}
    {key : String} (hquote : ∀ c ∈ s, ¬ IsQuote c)
    (h : scan offset (s ++ ':' :: r) = .ok (u :: ts)) (hkey : u.lexeme.recordKey? = some key) :
    isSpelling key = true := by
  induction s generalizing offset with
  | nil =>
      obtain ⟨l, n, after, hl, -, hts⟩ := scan_eq_ok rfl h
      cases hts
      rw [Grammar.lexeme_alone Grammar.alone_colon] at hl
      cases hl
      cases hkey
  | cons c s ih =>
      cases hc : Text.isBlank c with
      | true =>
          rw [List.cons_append, scan_blank hc] at h
          exact ih (fun d hd => hquote d (List.mem_cons_of_mem _ hd)) h
      | false =>
          obtain ⟨l, n, after, hl, -, hts⟩ := scan_eq_ok hc h
          cases hts
          rcases lexeme_of_recordKey? hl hkey with ⟨hstring, -⟩ | ⟨hspelling, -⟩
          · exact absurd hstring (hquote c List.mem_cons_self)
          · exact hspelling

theorem describe_wordLexeme (name : String) : (wordLexeme name).describe = s!"'{name}'" := by
  rcases wordLexeme_cases name with h | ⟨rfl, h⟩ | ⟨rfl, h⟩ | ⟨rfl, h⟩ <;> rw [h] <;> rfl

theorem message_memberName (name : String) :
    (Fault.expected .memberName (some (wordLexeme name))).message
      = s!"Expected member name after '.', found '{name}'" := by
  have hlead : "Expected " ++ "member name after '.'" ++ ", found " ++ "'"
      = "Expected member name after '.', found '" := by decide +kernel
  show s!"Expected {Expected.memberName.text}, found {(wordLexeme name).describe}" = _
  rw [describe_wordLexeme, Expected.text]
  simp only [toString, ← hlead, String.append_assoc]

theorem wordLexeme_ne_word {name : String} (hname : isSpelling name = true)
    (hword : isWord name = false) (other : String) : wordLexeme name ≠ .word other := by
  intro h
  obtain ⟨-, htrue, hfalse, hnull⟩ := wordLexeme_eq_word h
  rw [isWord_eq, hname, bne_iff_ne.mpr htrue, bne_iff_ne.mpr hfalse, bne_iff_ne.mpr hnull] at hword
  cases hword

namespace Grammar

variable {inside : Bool} {key t : String} {e : Expression}

theorem delimits_brace (r : List Char) : Delimits ('\x7d' :: r) := rfl

theorem stands_recordText (hkey : isSpelling key = true) (ht : Expression.parse t = .ok e) :
    Stands inside (.unary (.record [(key, e)])) (recordText key t).toList := by
  intro offset r behind hbehind
  rw [toList_recordText] at hbehind ⊢
  rw [byteLength_cons, byteLength_append, byteLength_cons, byteLength_cons, byteLength_append,
    ← Nat.add_assoc, ← Nat.add_assoc, ← Nat.add_assoc, ← Nat.add_assoc, ← Nat.add_assoc] at hbehind
  have hclose := scan_alone alone_rightBrace hbehind
  obtain ⟨ts, hts, hd⟩ := scan_text inside ht (delimits_brace r) hclose
  rw [← scan_blank (c := ' ') rfl] at hts
  have hcolon := scan_alone alone_colon hts
  have hword := scan_spelling (r := ':' :: ' ' :: (t.toList ++ '\x7d' :: r)) hkey rfl
    (offset + '\x7b'.utf8Size)
  rw [hcolon] at hword
  have hopen := scan_alone alone_leftBrace hword
  refine ⟨_, by simpa using hopen, .term rfl (.record rfl ?_)⟩
  exact .lastEntry (recordKey?_wordLexeme key) rfl hd rfl

/-- Behind the brace of a record stands its first key. -/
theorem Derives.recordKey {admits : String → List Step → Prop} {p : Phrase}
    {tokens rest : List Token} (h : Derives admits inside p tokens rest) {t : Token}
    {ts : List Token} (htokens : tokens = t :: ts) (hbrace : t.lexeme = .symbol .leftBrace)
    {entries : List (String × Expression)}
    (he : p.expression? = some (.record ((key, e) :: entries))) :
    ∃ u more, ts = u :: more ∧ u.lexeme.recordKey? = some key := by
  induction h with
  | @level _ l first more _ _ _ _ _ ih =>
      have hlevel := Option.some.inj he
      rcases tree_cases l first more with hfirst | ⟨op, operands, hcall⟩
      · rw [hfirst] at hlevel
        exact ih htokens ((expression?_operand _ _).trans (congrArg some hlevel))
      · rw [hcall] at hlevel
        cases hlevel
  | negation hnegation =>
      cases htokens
      rcases hnegation with hbang | hnot
      · rw [hbrace] at hbang
        cases hbang
      · simp [startsNegation, hbrace] at hnot
  | term _ _ ih => exact ih htokens he
  | group hparen =>
      cases htokens
      rw [hbrace] at hparen
      cases hparen
  | record _ hentries =>
      cases htokens
      cases he
      cases hentries with
      | lastEntry hkey => exact ⟨_, _, rfl, hkey⟩
      | entry hkey => exact ⟨_, _, rfl, hkey⟩
  | _ => cases he

/-- The tokens of the whole text: the call of a command, and behind it a point and the key. -/
theorem scan_fieldText (hkey : isSpelling key = true) (ht : Expression.parse t = .ok e) :
    ∃ first opening args dot member,
      scan 0 (fieldText key t).toList = .ok (first :: opening :: args) ∧
      first.lexeme = .word "first" ∧ startsNegation first (opening :: args) = false ∧
      opening.lexeme = .symbol .leftParen ∧
      Derives unchained false (.arguments [.record [(key, e)]]) args [dot, member] ∧
      dot.lexeme = .symbol .dot ∧ member.lexeme = wordLexeme key ∧
      member.start = byteLength (callText key t).toList := by
  have hrecord : Stands true (.level .or (.record [(key, e)])) (recordText key t).toList :=
    ((stands_recordText hkey ht).operand .or).level
  -- From the last token to the first one.
  set opening := 0 + byteLength "first".toList with hopening
  set closing := opening + '('.utf8Size + byteLength (recordText key t).toList with hclosing
  set last := closing + ')'.utf8Size + '.'.utf8Size with hlast
  have hmember : scan last key.toList
      = .ok [⟨wordLexeme key, last, last + byteLength key.toList⟩] := by
    have h := scan_spelling (r := []) hkey rfl last
    rwa [List.append_nil, scan_nil] at h
  have hdot := scan_alone alone_dot hmember
  have hclose : scan closing (')' :: '.' :: key.toList) = .ok [_, _, _] :=
    scan_alone Listing.arguments.alone_mark hdot
  obtain ⟨args, hargs, hd⟩ := hrecord _ _ _ hclose
  have hopen := scan_alone alone_leftParen hargs
  have hword : isWord "first" = true := rfl
  have hfirst := scan_word hword
    (r := '(' :: ((recordText key t).toList ++ ')' :: '.' :: key.toList)) rfl 0
  rw [hopen] at hfirst
  refine ⟨⟨.word "first", 0, opening⟩, ⟨.symbol .leftParen, opening, opening + '('.utf8Size⟩, args,
    _, _, ?_, rfl, startsNegation_adjacent ?_ hopen, rfl, .arguments (.lastItem hd rfl), rfl, rfl,
    ?_⟩
  · have htext : (fieldText key t).toList
        = "first".toList ++ '(' :: ((recordText key t).toList ++ ')' :: '.' :: key.toList) := by
      simp [toList_fieldText, toList_callText]
    rw [htext]
    exact hfirst
  · rfl
  · have hpoint : byteLength [')', '.'] = ')'.utf8Size + '.'.utf8Size := rfl
    rw [toList_callText, byteLength_append, byteLength_cons, byteLength_append, hpoint]
    show last = _
    omega

end Grammar

/-! ## Reading them back -/

namespace Parser

variable {α : Type} {n stop : Nat} {bare : Bool}

theorem outcome_of_gives {r : Read α n} {x : α} {rest : List Token} (h : Gives r x rest) :
    outcome r = .ok (x, rest) := by
  obtain ⟨reading, rfl, rfl, rfl⟩ := h
  rfl

/-- Where a term is rejected, so is the expression that begins with it. -/
theorem outcome_readLevel_rejected {t : Token} {rest : List Token} {reason : Rejection}
    (hbang : t.lexeme ≠ .symbol .bang) (hnot : startsNegation t rest = false)
    (h : outcome (readTerm stop bare t rest) = .error reason) (l : Level) :
    outcome (readLevel stop bare l (t :: rest)) = .error reason := by
  have hreject {l : Level} (h : operandOutcome stop bare (t :: rest) l = .error reason) :
      outcome (readLevel stop bare l (t :: rest)) = .error reason := by
    rw [outcome_readLevel, outcome_readOperand, h]
    rfl
  have hunary : outcome (readUnary stop bare (t :: rest)) = .error reason := by
    rw [outcome_readUnary, if_neg (by simp [hbang, hnot]), h]
  have hrelational := hreject (l := .relational) hunary
  have hequality := hreject (l := .equality) hrelational
  have hand := hreject (l := .and) hequality
  cases l with
  | or => exact hreject hand
  | and => exact hand
  | equality => exact hequality
  | relational => exact hrelational

/-- A chain goes on with words only: behind a point anything else is rejected. -/
theorem outcome_readChain_rejected {dot member : Token} {rest : List Token}
    (hdot : dot.lexeme = .symbol .dot) (hmember : ∀ key, member.lexeme ≠ .word key) :
    outcome (readChain stop (dot :: member :: rest))
      = .error (.fault (.expected .memberName (some member.lexeme)) member.start) := by
  rw [outcome_readChain, if_pos hdot]
  cases hlexeme : member.lexeme with
  | word key => exact absurd hlexeme (hmember key)
  | _ => simp only [hlexeme]; rfl

/-- Where the chain behind a call is rejected, so is the call. -/
theorem outcome_readTerm_rejected {first opening : Token} {name : String} {args mid : List Token}
    {es : List Expression} {reason : Rejection} (hfirst : first.lexeme = .word name)
    (hopening : opening.lexeme = .symbol .leftParen)
    (hargs : Grammar.Derives Grammar.unchained false (.arguments es) args mid)
    (hchain : outcome (readChain stop mid) = .error reason) :
    outcome (readTerm stop false first (opening :: args)) = .error reason := by
  have hdotted : outcome (readDotted stop (opening :: args)) = .ok ([], opening :: args) := by
    rw [outcome_readDotted, hopening]
    rfl
  have hread : outcome (readArguments stop opening.stop args) = .ok (es, mid) :=
    outcome_of_gives (hargs.reads trivial opening.stop)
  rw [outcome_readTerm, hfirst]
  dsimp only
  rw [outcome_readName, hdotted]
  show nameOutcome stop false first.start _ (opening :: args) = _
  rw [nameOutcome, if_pos hopening, callOutcome, hread]
  show outcome (readChain stop mid) >>= _ = _
  rw [hchain]
  rfl

/-- A text that begins with a term that is rejected is rejected. -/
theorem readAll_rejected {t : Token} {rest : List Token} {reason : Rejection}
    (hbang : t.lexeme ≠ .symbol .bang) (hnot : startsNegation t rest = false)
    (h : outcome (readTerm stop false t rest) = .error reason) :
    readAll ⟨t :: rest, stop⟩ = .error reason := by
  rw [readAll_eq]
  show outcome (readLevel stop false .or (t :: rest)) >>= _ = _
  rw [outcome_readLevel_rejected hbang hnot h]
  rfl

end Parser

namespace Expression

open Grammar

variable {key t : String} {e : Expression}

/-- A record takes every spelling as a key. -/
theorem parse_recordText (hkey : isSpelling key = true) (ht : parse t = .ok e) :
    parse (recordText key t) = .ok (.record [(key, e)]) :=
  ((stands_recordText hkey ht).operand .or).level.parse

/-- What a record takes as a key without quotes is a spelling. -/
theorem isSpelling_of_parse (hquote : ∀ c ∈ key.toList, ¬ IsQuote c)
    (h : parse (recordText key t) = .ok (.record [(key, e)])) : isSpelling key = true := by
  obtain ⟨ts, hts, hmeans⟩ := tokens_of_parse h
  rw [toList_recordText] at hts
  obtain ⟨l, n, after, hl, hafter, rfl⟩ := scan_eq_ok rfl hts
  rw [lexeme_alone alone_leftBrace] at hl
  cases hl
  obtain ⟨u, more, rfl, hkey⟩ := hmeans.recordKey rfl rfl rfl
  exact isSpelling_of_scan hquote hafter hkey

theorem parse_fieldText (hkey : isWord key = true) (ht : parse t = .ok e) :
    parse (fieldText key t) = .ok (fieldOf key e) := by
  have hspelling : isSpelling key = true := by
    rw [isWord_eq, Bool.and_eq_true] at hkey
    exact hkey.1
  obtain ⟨first, opening, args, dot, member, hscan, hfirst, hnegation, hopening, hargs, hdot,
    hmember, -⟩ := scan_fieldText hspelling ht
  obtain ⟨-, -, -, -, -, hlexeme⟩ := isWord_cons hkey
  rw [hlexeme] at hmember
  have hcall : Derives unchained false (.primary (fieldOf key e)) (first :: opening :: args) [] :=
    .call hfirst .noPart hopening hargs (.property hdot hmember .noStep) fun _ => by decide +kernel
  exact parse_of_tokens hscan (means_of_primary hnegation hcall)

/-- The spelling of a literal is none. -/
theorem parse_fieldText_literal (hkey : isSpelling key = true) (hword : isWord key = false)
    (ht : parse t = .ok e) :
    parse (fieldText key t) = .error (.malformed
      s!"Expected member name after '.', found '{key}'" key (byteLength (callText key t).toList)) := by
  obtain ⟨first, opening, args, dot, member, hscan, hfirst, hnegation, hopening, hargs, hdot,
    hmember, hstart⟩ := scan_fieldText hkey ht
  have hne := wordLexeme_ne_word hkey hword
  have hread : Source.read (fieldText key t).toList
      = .error (.fault (.expected .memberName (some (wordLexeme key))) member.start) := by
    rw [← hmember] at hne ⊢
    rw [Source.read, tokenize, hscan]
    exact readAll_rejected (by simp [hfirst]) hnegation
      (outcome_readTerm_rejected hfirst hopening hargs (outcome_readChain_rejected hdot hne))
  have hfragment : Source.fragment (fieldText key t).toList member.start = key.toList := by
    rw [Source.fragment, toList_fieldText, hstart, Checked.dropBytes?_append]
    rcases wordLexeme_cases key with h | ⟨rfl, -⟩ | ⟨rfl, -⟩ | ⟨rfl, -⟩
    · exact absurd h (hne key)
    · rfl
    · rfl
    · rfl
  rw [parse, hread, Except.mapError, Source.errorOf, hfragment, String.ofList_toList, hstart,
    message_memberName]

end Expression

end WhenClause
