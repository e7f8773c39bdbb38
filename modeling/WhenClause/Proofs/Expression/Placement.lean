import WhenClause.Proofs.Expression.Completeness
import WhenClause.Proofs.Token.Words

set_option autoImplicit false

/-! # Texts in front of texts

What derives alone derives in any place, in front of tokens that start no term
(`Grammar.Derives.placed`). So a text in front of a comma or a closing bracket means what it means
alone, wherever it begins (`Grammar.scan_text`). -/

namespace WhenClause

open WhenClause.Parser WhenClause.Lexer

/-! ## Derivations in front of more tokens -/

namespace Grammar

/-- The tokens do not begin with one that starts a term. -/
def Closes (behind : List Token) : Prop := ∀ x, next behind = some x → x.startsTerm = false

/-- Tokens moved to another place, in front of others. -/
def placed (k : Nat) (behind ts : List Token) : List Token := ts.map (Token.shift k) ++ behind

section

variable {k : Nat} {behind : List Token}

@[simp] theorem placed_nil : placed k behind [] = behind := rfl

@[simp] theorem placed_cons (t : Token) (ts : List Token) :
    placed k behind (t :: ts) = t.shift k :: placed k behind ts := rfl

/-- Whether a word is a negation depends on the space behind it, not on its place. -/
theorem startsNegation_placed (hbehind : Closes behind) (t : Token) (ts : List Token) :
    startsNegation (t.shift k) (placed k behind ts) = startsNegation t ts := by
  cases ts with
  | cons u ts => simp [startsNegation, Token.shift]
  | nil =>
      cases behind with
      | nil => rfl
      | cons u behind =>
          have hu : u.lexeme.startsTerm = false := hbehind u.lexeme rfl
          simp [startsNegation, Token.shift, hu]

theorem next_placed (hbehind : Closes behind) {ts : List Token}
    (h : next ts ≠ some (.symbol .leftParen)) :
    next (placed k behind ts) ≠ some (.symbol .leftParen) := by
  cases ts with
  | cons u ts => exact h
  | nil =>
      intro hnext
      exact absurd (hbehind _ hnext) (by decide)

/-- **What derives alone derives in any place**, in front of tokens that start no term, and inside
an argument list too. -/
theorem Derives.placed {admits : String → List Step → Prop} {inside outer : Bool} {p : Phrase}
    {ts rest : List Token} (h : Derives admits inside p ts rest) (hbehind : Closes behind)
    (houter : inside = true → outer = true) :
    Derives admits outer p (Grammar.placed k behind ts) (Grammar.placed k behind rest) := by
  induction h generalizing outer with
  | level _ _ ihfirst ihmore => exact .level (ihfirst houter) (ihmore houter)
  | noMore => exact .noMore
  | more hop _ _ ihe ihmore => exact .more hop (ihe houter) (ihmore houter)
  | negation hneg _ ih =>
      exact .negation (hneg.imp_right (startsNegation_placed hbehind _ _).trans) (ih houter)
  | term hnot _ ih =>
      exact .term ((startsNegation_placed hbehind _ _).trans hnot) (ih houter)
  | literal hl => exact .literal hl
  | group ht _ hu ih => exact .group ht (ih houter) hu
  | emptySequence ht hu => exact .emptySequence ht hu
  | sequence ht _ ih => exact .sequence ht (ih houter)
  | emptyRecord ht hu => exact .emptyRecord ht hu
  | record ht _ ih => exact .record ht (ih houter)
  | call ht _ hu _ _ hadmits ihparts ihargs ihsteps =>
      exact .call ht (ihparts houter) hu (ihargs houter) (ihsteps houter) hadmits
  | word ht _ hnext ihparts =>
      -- A bare word stands inside an argument list already.
      obtain rfl := houter rfl
      exact .word ht (ihparts houter) (next_placed hbehind hnext)
  | @lastItem _ k _ _ _ _ _ hu ih =>
      exact .lastItem (ih (by cases k <;> simp_all [Listing.inside])) hu
  | @item _ k _ _ _ _ _ _ _ hu _ ih ihmore =>
      exact .item (ih (by cases k <;> simp_all [Listing.inside])) hu (ihmore houter)
  | noArguments ht => exact .noArguments ht
  | arguments _ ih => exact .arguments (ih houter)
  | lastEntry hkey hcolon _ hu ih => exact .lastEntry hkey hcolon (ih houter) hu
  | entry hkey hcolon _ hu _ ih ihmore =>
      exact .entry hkey hcolon (ih houter) hu (ihmore houter)
  | noPart => exact .noPart
  | part ht hu _ ih => exact .part ht hu (ih houter)
  | noStep => exact .noStep
  | property ht hu _ ih => exact .property ht hu (ih houter)
  | method ht hu hp _ _ ihargs ihsteps =>
      exact .method ht hu hp (ihargs houter) (ihsteps houter)

end

/-! ## Texts in front of texts -/

/-- A symbol of one character, with which no other symbol begins. -/
def Alone (c : Char) (x : Symbol) : Prop :=
  Text.isBlank c = false ∧ singleSymbol? c = some x ∧ ∀ d, doubleSymbol? c d = none

theorem alone_leftParen : Alone '(' .leftParen := ⟨rfl, rfl, by simp [doubleSymbol?]⟩

theorem alone_leftBracket : Alone '[' .leftBracket := ⟨rfl, rfl, by simp [doubleSymbol?]⟩

theorem alone_comma : Alone ',' .comma := ⟨rfl, rfl, by simp [doubleSymbol?]⟩

theorem alone_dot : Alone '.' .dot := ⟨rfl, rfl, by simp [doubleSymbol?]⟩

theorem alone_colon : Alone ':' .colon := ⟨rfl, rfl, by simp [doubleSymbol?]⟩

theorem alone_leftBrace : Alone '\x7b' .leftBrace := ⟨rfl, rfl, by simp [doubleSymbol?]⟩

theorem alone_rightBrace : Alone '\x7d' .rightBrace := ⟨rfl, rfl, by simp [doubleSymbol?]⟩

namespace Listing

def mark : Listing → Char
  | sequence => ']'
  | arguments => ')'

theorem alone_mark (k : Listing) : Alone k.mark k.closing := by
  cases k <;> exact ⟨rfl, rfl, by simp [mark, doubleSymbol?]⟩

theorem delimits_mark (k : Listing) (r : List Char) : Delimits (k.mark :: r) := by
  cases k <;> rfl

end Listing

variable {offset : Nat} {r : List Char} {behind : List Token} {inside : Bool}

theorem lexeme_alone {c : Char} {x : Symbol} (h : Alone c x) (r : List Char) :
    lexeme c r = .ok (.symbol x, 0) := by
  obtain ⟨-, hsingle, hdouble⟩ := h
  have hsymbol : symbol? c r = some (x, 0) := by
    cases r <;> simp [symbol?, hsingle, hdouble]
  simp [lexeme, hsymbol]

theorem scan_symbol {c : Char} {x : Symbol} (hc : Text.isBlank c = false)
    (hl : lexeme c r = .ok (.symbol x, 0)) (hr : scan (offset + c.utf8Size) r = .ok behind) :
    scan offset (c :: r) = .ok (⟨.symbol x, offset, offset + c.utf8Size⟩ :: behind) := by
  have hlength : byteLength (c :: r.take 0) = c.utf8Size := by
    simp [byteLength]
  rw [scan_lexeme hc hl, hlength, List.drop_zero, hr]
  rfl

theorem scan_alone {c : Char} {x : Symbol} (h : Alone c x)
    (hr : scan (offset + c.utf8Size) r = .ok behind) :
    scan offset (c :: r) = .ok (⟨.symbol x, offset, offset + c.utf8Size⟩ :: behind) :=
  scan_symbol h.1 (lexeme_alone h r) hr

theorem delimits_comma (r : List Char) : Delimits (',' :: r) := rfl

/-- A delimiter is a symbol that starts no term. -/
theorem closes_of_delimits (hr : Delimits r) (h : scan offset r = .ok behind) : Closes behind := by
  obtain ⟨d, after, rfl, hd⟩ := delimits_cons hr
  have hdelimiter : ∃ x, Alone d x ∧ (Lexeme.symbol x).startsTerm = false := by
    rcases isDelimiter_cases hd with rfl | rfl | rfl | rfl
    · exact ⟨.comma, alone_comma, rfl⟩
    · exact ⟨.rightParen, Listing.arguments.alone_mark, rfl⟩
    · exact ⟨.rightBracket, Listing.sequence.alone_mark, rfl⟩
    · exact ⟨.rightBrace, alone_rightBrace, rfl⟩
  obtain ⟨x, halone, hx⟩ := hdelimiter
  obtain ⟨l, n, rest, hl, -, rfl⟩ := scan_eq_ok halone.1 h
  rw [lexeme_alone halone] at hl
  cases hl
  intro y hy
  cases hy
  exact hx

end Grammar

namespace Expression

open Grammar

theorem tokens_of_parse {text : String} {e : Expression} (h : parse text = .ok e) :
    ∃ ts, scan 0 text.toList = .ok ts ∧ Means unchained ts e := by
  cases htokens : tokenize text.toList with
  | error r =>
      unfold parse Source.read at h
      rw [htokens] at h
      cases h
  | ok tokens =>
      have hmeans := (parse_eq_ok_iff_of_tokenize htokens e).mp h
      obtain ⟨ts, hts, rfl⟩ := map_eq_ok htokens
      exact ⟨ts, hts, hmeans⟩

theorem parse_of_tokens {text : String} {e : Expression} {ts : List Token}
    (hts : scan 0 text.toList = .ok ts) (h : Means unchained ts e) : parse text = .ok e := by
  have htokens : tokenize text.toList = .ok ⟨ts, byteLength text.toList⟩ := by
    rw [tokenize, hts]
    rfl
  exact (parse_eq_ok_iff_of_tokenize htokens e).mpr h

end Expression

namespace Grammar

variable {offset : Nat} {r : List Char} {behind : List Token} {inside : Bool}

/-- **A text in front of a delimiter means what it means alone.** -/
theorem scan_text (inside : Bool) {t : String} {e : Expression} (h : Expression.parse t = .ok e)
    (hr : Delimits r) (hbehind : scan (offset + byteLength t.toList) r = .ok behind) :
    ∃ ts, scan offset (t.toList ++ r) = .ok ts ∧
      Derives unchained inside (.level .or e) ts behind := by
  obtain ⟨ts, hts, hmeans⟩ := Expression.tokens_of_parse h
  have hplaced := scan_shift offset hts
  rw [Nat.zero_add] at hplaced
  refine ⟨placed offset behind ts, ?_, ?_⟩
  · rw [scan_append hr hplaced, hbehind]
    rfl
  · exact hmeans.placed (closes_of_delimits hr hbehind) fun hfalse => by cases hfalse

/-! ## Dotted names -/

def partsText (parts : List String) : List Char := parts.flatMap fun part => '.' :: part.toList

theorem toList_dottedName (first : String) (parts : List String) :
    (dottedName first parts).toList = first.toList ++ partsText parts := by
  induction parts generalizing first with
  | nil => simp [dottedName, partsText]
  | cons part parts ih =>
      have hsplit : dottedName first (part :: parts) = first ++ "." ++ dottedName part parts :=
        String.intercalate_cons_cons
      rw [hsplit, String.toList_append, String.toList_append, ih, List.append_assoc]
      rfl

end Grammar

end WhenClause
