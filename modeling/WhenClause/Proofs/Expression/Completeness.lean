import Mathlib
import WhenClause.Expression.Source
import WhenClause.Proofs.Expression.Soundness

set_option autoImplicit false

/-! # What derives is read

The readers take the longest match, and the grammar does not ask for it. A derivation is read all
the same when nothing behind it could go on with its phrase (`Follows`). Inside a derivation this
holds of every part, since the token behind a part is fixed by the rule or is the token behind the
whole; at the end of a text there is no token at all. -/

namespace WhenClause.Grammar

open WhenClause.Parser

/-! ## What may stand behind a phrase -/

def tighter : Level → List Level
  | .or => [.and, .equality, .relational]
  | .and => [.equality, .relational]
  | .equality => [.relational]
  | .relational => []

def extendsTerm (x : Lexeme) : Bool := x == .symbol .dot || x == .symbol .leftParen

/-- The lexeme would go on with an operand of a level. -/
def extendsOperand (l : Level) (x : Lexeme) : Bool :=
  (tighter l).any (fun l' => (l'.operator? x).isSome) || extendsTerm x

/-- The lexeme would go on with an expression of a level. -/
def extendsLevel (l : Level) (x : Lexeme) : Bool := (l.operator? x).isSome || extendsOperand l x

/-- The next token, if there is one, does not go on with what is before it. -/
def Ends (goesOn : Lexeme → Bool) (rest : List Token) : Prop :=
  ∀ x, next rest = some x → goesOn x = false

/-- The tokens may stand behind a phrase. -/
def Follows : Phrase → List Token → Prop
  | .level l _, rest | .more l _, rest => Ends (extendsLevel l) rest
  | .unary _, rest | .primary _, rest | .chain _, rest => Ends extendsTerm rest
  | .dotted _, rest => next rest ≠ some (.symbol .dot)
  | .items _ _, _ | .arguments _, _ | .entries _, _ => True

theorem ends_nil (goesOn : Lexeme → Bool) : Ends goesOn [] := fun x h => by cases h

theorem ends_cons {goesOn : Lexeme → Bool} {u : Token} {x : Lexeme} {rest : List Token}
    (hu : u.lexeme = x) (h : goesOn x = false) : Ends goesOn (u :: rest) := by
  intro x' hx'
  cases hx'
  rw [hu]
  exact h

/-- An operator of a level does not go on with the operand before it. -/
theorem extendsOperand_operator {l : Level} {x : Lexeme} {op : Operator}
    (h : Joins l x op) : extendsOperand l x = false := by
  -- One row of the table after the other: no two levels share an operator.
  cases h <;> rfl

/-- What does not go on with an operand may stand behind it. -/
theorem follows_operand {l : Level} {e : Expression} {rest : List Token}
    (h : Ends (extendsOperand l) rest) : Follows (operand l e) rest := by
  cases l <;> intro x hx <;> have hx' := h x hx
  · simpa [extendsLevel, extendsOperand, tighter, and_assoc] using hx'
  · simpa [extendsLevel, extendsOperand, tighter, and_assoc] using hx'
  · simpa [extendsLevel, extendsOperand, tighter, and_assoc] using hx'
  · simpa [extendsOperand, tighter] using hx'

section

variable {admits : String → List Step → Prop} {inside : Bool} {ts rest : List Token}

/-- Behind an operand stands an operator of its level, or what is behind the level. -/
theorem Derives.more_ends {l : Level} {more : List (Operator × Expression)}
    (h : Derives admits inside (.more l more) ts rest) (hrest : Ends (extendsLevel l) rest) :
    Ends (extendsOperand l) ts := by
  cases h with
  | noMore =>
      intro x hx
      have hx' := hrest x hx
      rw [extendsLevel, Bool.or_eq_false_iff] at hx'
      exact hx'.2
  | more hop _ _ => exact ends_cons rfl (extendsOperand_operator hop)

theorem Derives.chain_starts {steps : List Step} (h : Derives admits inside (.chain steps) ts rest)
    (hrest : Ends extendsTerm rest) : next ts ≠ some (.symbol .leftParen) := by
  intro hnext
  cases h with
  | noStep => exact absurd (hrest _ hnext) (by decide)
  | property ht _ _ =>
      rw [next, List.head?_cons, Option.map_some, ht] at hnext
      exact absurd hnext (by decide)
  | method ht _ _ _ _ =>
      rw [next, List.head?_cons, Option.map_some, ht] at hnext
      exact absurd hnext (by decide)

end

/-! ## Reading what derives -/

def Reads (stop : Nat) (inside : Bool) : Phrase → List Token → List Token → Prop
  | .level l e, ts, rest => Gives (readLevel stop inside l ts) e rest
  | .more l pairs, ts, rest => Gives (readMore stop inside l ts) pairs rest
  | .unary e, ts, rest => Gives (readUnary stop inside ts) e rest
  | .primary e, ts, rest =>
      ∃ t after, ts = t :: after ∧ Gives (readTerm stop inside t after) e rest
  | .items .sequence es, ts, rest => Gives (readItems stop inside ts) es rest
  | .items .arguments es, ts, rest =>
      ∀ opening, Gives (readArgumentItems stop opening ts) es rest
  | .arguments es, ts, rest => ∀ opening, Gives (readArguments stop opening ts) es rest
  | .entries es, ts, rest => Gives (readEntries stop inside ts) es rest
  | .dotted parts, ts, rest => Gives (readDotted stop ts) parts rest
  | .chain steps, ts, rest => Gives (readChain stop ts) steps rest

theorem reads_operand {stop : Nat} {inside : Bool} {l : Level} {e : Expression}
    {ts rest : List Token} (h : Reads stop inside (operand l e) ts rest) :
    Gives (readOperand stop inside l ts) e rest := by
  rw [readOperand.eq_def]
  cases l <;> exact h

/-- **What derives is read**, if what is behind it may stand there. -/
theorem Derives.reads {stop : Nat} {inside : Bool} {p : Phrase} {ts rest : List Token}
    (h : Derives unchained inside p ts rest) (hrest : Follows p rest) :
    Reads stop inside p ts rest := by
  -- By induction on the derivation. What may stand behind the whole may stand behind its last
  -- part, and behind every other part the rule itself puts a token that ends it.
  induction h with
  | level hfirst hmore ihfirst ihmore =>
      have hmid := hmore.more_ends hrest
      exact gives_readLevel.mpr ⟨_, _, reads_operand (ihfirst (follows_operand hmid)), _,
        ihmore hrest, (tree_eq_assemble _ _ _).symm⟩
  | noMore =>
      refine (gives_readMore_stop fun x hx => ?_).mpr ⟨rfl, rfl⟩
      have hx' := hrest x hx
      rw [extendsLevel, Bool.or_eq_false_iff, Option.isSome_eq_false_iff,
        Option.isNone_iff_eq_none] at hx'
      exact hx'.1
  | more hop he hmore ihe ihmore =>
      have hmid := hmore.more_ends hrest
      exact (gives_readMore (joins_iff.mp hop)).mpr
        ⟨_, _, reads_operand (ihe (follows_operand hmid)), _, ihmore hrest, rfl⟩
  | negation hneg _ ih => exact (gives_readUnary_negation hneg).mpr ⟨_, ih hrest, rfl⟩
  | term hnot _ ih =>
      obtain ⟨t, after, heq, hread⟩ := ih hrest
      cases heq
      exact (gives_readUnary_term (readTerm_ne_bang hread) hnot).mpr hread
  | literal hl => exact ⟨_, _, rfl, (gives_readTerm_literal hl).mpr ⟨rfl, rfl⟩⟩
  | group ht _ hu ih =>
      have he := ih (ends_cons hu (by decide))
      exact ⟨_, _, rfl, (gives_readTerm_group ht).mpr ⟨_, _, he, _, _, rfl, hu, rfl, rfl⟩⟩
  | emptySequence ht hu =>
      exact ⟨_, _, rfl, (gives_readTerm_sequence ht).mpr ⟨_, _, rfl, Or.inl ⟨hu, rfl, rfl⟩⟩⟩
  | sequence ht _ ih =>
      have hes := ih trivial
      obtain ⟨_, _, he, -⟩ := gives_readItems.mp hes
      obtain ⟨u, after, rfl, hopen⟩ := readLevel_starts_ne (x := .symbol .rightBracket) rfl he
      exact ⟨_, _, rfl, (gives_readTerm_sequence ht).mpr
        ⟨u, after, rfl, Or.inr ⟨hopen, _, hes, rfl⟩⟩⟩
  | emptyRecord ht hu =>
      exact ⟨_, _, rfl, (gives_readTerm_record ht).mpr ⟨_, _, rfl, Or.inl ⟨hu, rfl, rfl⟩⟩⟩
  | record ht _ ih =>
      have hes := ih trivial
      obtain ⟨u, c, after, key, rfl, hkey, -⟩ := readEntries_starts hes
      refine ⟨_, _, rfl, (gives_readTerm_record ht).mpr
        ⟨u, _, rfl, Or.inr ⟨?_, _, hes, rfl⟩⟩⟩
      intro hclose
      rw [hclose] at hkey
      cases hkey
  | call ht _ hu _ _ hchained ihparts ihargs ihsteps =>
      have hparts := ihparts (by simp [Follows, next, hu])
      refine ⟨_, _, rfl, (gives_readTerm_word ht).mpr (gives_readName.mpr ⟨_, _, hparts, Or.inl ?_⟩)⟩
      exact ⟨_, _, rfl, hu, _, _, ihargs trivial _, _, ihsteps hrest, hchained, rfl⟩
  | word ht _ hnext ihparts =>
      have hdot : next _ ≠ some (.symbol .dot) := fun hdot =>
        absurd (hrest _ hdot) (by decide)
      exact ⟨_, _, rfl, (gives_readTerm_word ht).mpr
        (gives_readName.mpr ⟨_, _, ihparts hdot, Or.inr ⟨hnext, rfl, rfl, rfl⟩⟩)⟩
  | @lastItem _ k _ _ _ _ _ hu ih =>
      have he := ih (ends_cons hu (by cases k <;> decide))
      cases k with
      | sequence =>
          exact gives_readItems.mpr ⟨_, _, he, _, _, rfl, Or.inr ⟨hu, rfl, rfl⟩⟩
      | arguments =>
          exact fun _ =>
            gives_readArgumentItems.mpr ⟨_, _, he, _, _, rfl, Or.inr ⟨hu, rfl, rfl⟩⟩
  | @item _ k _ _ _ _ _ _ _ hu _ ih ihmore =>
      have he := ih (ends_cons hu (by decide))
      cases k with
      | sequence =>
          exact gives_readItems.mpr
            ⟨_, _, he, _, _, rfl, Or.inl ⟨hu, _, ihmore trivial, rfl⟩⟩
      | arguments =>
          exact fun opening => gives_readArgumentItems.mpr
            ⟨_, _, he, _, _, rfl, Or.inl ⟨hu, _, ihmore trivial opening, rfl⟩⟩
  | noArguments ht => exact fun _ => gives_readArguments.mpr ⟨_, _, rfl, Or.inl ⟨ht, rfl, rfl⟩⟩
  | arguments _ ih =>
      intro opening
      have hes := ih trivial opening
      obtain ⟨_, _, he, -⟩ := gives_readArgumentItems.mp hes
      obtain ⟨u, after, rfl, hopen⟩ := readLevel_starts_ne (x := .symbol .rightParen) rfl he
      exact gives_readArguments.mpr ⟨u, after, rfl, Or.inr ⟨hopen, hes⟩⟩
  | lastEntry hkey hcolon _ hu ih =>
      have he := ih (ends_cons hu (by decide))
      exact (gives_readEntries hkey hcolon).mpr ⟨_, _, he, _, _, rfl, Or.inr ⟨hu, rfl, rfl⟩⟩
  | entry hkey hcolon _ hu _ ih ihmore =>
      have he := ih (ends_cons hu (by decide))
      exact (gives_readEntries hkey hcolon).mpr
        ⟨_, _, he, _, _, rfl, Or.inl ⟨hu, _, ihmore trivial, rfl⟩⟩
  | noPart => exact (gives_readDotted_stop hrest).mpr ⟨rfl, rfl⟩
  | part ht hu _ ih => exact (gives_readDotted ht hu).mpr ⟨_, ih hrest, rfl⟩
  | noStep =>
      exact (gives_readChain_stop fun hdot => absurd (hrest _ hdot) (by decide)).mpr ⟨rfl, rfl⟩
  | property ht hu hsteps ih =>
      exact (gives_readChain_property ht hu (hsteps.chain_starts hrest)).mpr ⟨_, ih hrest, rfl⟩
  | method ht hu hp _ _ ihargs ihsteps =>
      exact (gives_readChain_method ht hu hp).mpr
        ⟨_, _, ihargs trivial _, _, ihsteps hrest, rfl⟩

/-! ## Roots -/

/-- The expression is no call of an operator with a chain. -/
def RootUnchained : Expression → Prop
  | .invocation name _ _ steps => unchained name steps
  | _ => True

theorem rootUnchained_operator (op : Operator) (operands : List Expression) :
    RootUnchained (.operator op operands) := fun h => absurd rfl h

/-- The expression of a level is its first operand, or a call of an operator. -/
theorem tree_cases (l : Level) (first : Expression) (more : List (Operator × Expression)) :
    tree l first more = first ∨ ∃ op operands, tree l first more = .operator op operands := by
  induction more generalizing first with
  | nil =>
      left
      cases l <;> rfl
  | cons pair more ih =>
      right
      -- Comparisons are chained to the left, so the root is the last one.
      have hchain : ∃ op operands,
          tree l (.operator pair.1 [first, pair.2]) more = .operator op operands := by
        rcases ih (.operator pair.1 [first, pair.2]) with hfirst | hcall
        · exact ⟨_, _, hfirst⟩
        · exact hcall
      cases l with
      | or => exact ⟨.or, _, rfl⟩
      | and => exact ⟨.and, _, rfl⟩
      | equality | relational => exact hchain

theorem rootUnchained_tree {l : Level} {first : Expression} (h : RootUnchained first)
    (more : List (Operator × Expression)) : RootUnchained (tree l first more) := by
  rcases tree_cases l first more with hfirst | ⟨op, operands, hcall⟩
  · rw [hfirst]
    exact h
  · rw [hcall]
    exact rootUnchained_operator op operands

theorem rootUnchained_negate {e : Expression} (h : RootUnchained e) : RootUnchained e.negate := by
  unfold Expression.negate
  split
  · exact h
  · exact trivial

/-- What a phrase that is an expression means. -/
def Phrase.expression? : Phrase → Option Expression
  | .level _ e | .unary e | .primary e => some e
  | _ => none

theorem expression?_operand (l : Level) (e : Expression) :
    (operand l e).expression? = some e := by
  cases l <;> rfl

/-- No call of an operator has a chain. -/
theorem Derives.rootUnchained {inside : Bool} {p : Phrase} {ts rest : List Token}
    (h : Derives unchained inside p ts rest) {e : Expression} (he : p.expression? = some e) :
    RootUnchained e := by
  induction h generalizing e with
  | level _ _ ih =>
      cases he
      exact rootUnchained_tree (ih (expression?_operand _ _)) _
  | negation _ _ ih =>
      cases he
      exact rootUnchained_negate (ih rfl)
  | term _ _ ih => exact ih he
  | group _ _ _ ih => exact ih he
  | call _ _ _ _ _ hchained =>
      cases he
      exact hchained
  | _ => cases he <;> exact trivial

/-! ## Texts -/

/-- Tokens are read as an expression exactly when they mean it. -/
theorem readAll_eq_ok_iff (tokens : Tokens) (e : Expression) :
    readAll tokens = .ok e ↔ Means unchained tokens.list e := by
  have hlevel : Gives (readLevel tokens.stop false .or tokens.list) e [] ↔
      Means unchained tokens.list e :=
    ⟨readLevel_sound, fun h => h.reads (ends_nil _)⟩
  rw [← hlevel, readAll]
  cases hempty : tokens.list.isEmpty with
  | true =>
      refine ⟨fun h => (by cases h), fun h => ?_⟩
      obtain ⟨t, after, hlist, -⟩ := readLevel_starts h
      rw [hlist] at hempty
      cases hempty
  | false =>
      rw [if_neg Bool.false_ne_true]
      cases hread : readLevel tokens.stop false .or tokens.list with
      | error r => exact ⟨fun h => (by cases h), fun h => absurd h not_gives_error⟩
      | ok whole =>
          obtain ⟨result, rest, shorter⟩ := whole
          rw [gives_ok]
          cases rest with
          | nil => exact ⟨fun h => (by cases h; exact ⟨rfl, rfl⟩), fun h => (by rw [← h.1]; rfl)⟩
          | cons t rest => exact ⟨fun h => (by cases h), fun h => (by cases h.2)⟩

theorem means_of_primary {admits : String → List Step → Prop} {e : Expression} {t : Token}
    {ts : List Token} (hnot : startsNegation t ts = false)
    (h : Derives admits false (.primary e) (t :: ts) []) : Means admits (t :: ts) e :=
  .level (.level (.level (.level (.term hnot h) .noMore) .noMore) .noMore) .noMore

end WhenClause.Grammar

namespace WhenClause.Expression

open Grammar

theorem parse_eq_ok_iff_of_tokenize {text : String} {tokens : Tokens}
    (h : Lexer.tokenize text.toList = .ok tokens) (e : Expression) :
    parse text = .ok e ↔ Means unchained tokens.list e := by
  rw [← readAll_eq_ok_iff]
  unfold parse Source.read
  rw [h]
  show (Parser.readAll tokens).mapError _ = _ ↔ _
  cases Parser.readAll tokens <;> simp [Except.mapError]

/-- **The parser recognises the grammar.** A text is read as an expression exactly when its tokens
mean the expression, and no call of an operator has a chain. So no text means two expressions, and
a text without a meaning is rejected. -/
theorem parse_eq_ok_iff (text : String) (e : Expression) :
    parse text = .ok e ↔
      ∃ tokens, Lexer.tokenize text.toList = .ok tokens ∧ Means unchained tokens.list e := by
  cases htokens : Lexer.tokenize text.toList with
  | error r =>
      unfold parse Source.read
      rw [htokens]
      refine ⟨fun h => (by cases h), ?_⟩
      rintro ⟨tokens, h, -⟩
      cases h
  | ok tokens =>
      rw [parse_eq_ok_iff_of_tokenize htokens]
      constructor
      · exact fun h => ⟨tokens, rfl, h⟩
      · rintro ⟨_, ⟨rfl⟩, h⟩
        exact h

/-- Without the condition on calls of operators, a text that the parser rejects has a meaning. -/
theorem parse_ne_ok_of_chained_operator :
    ∃ tokens, Lexer.tokenize "and().x".toList = .ok tokens ∧
      Means (fun _ _ => True) tokens.list (.invocation "and" [] false [.property "x"]) ∧
      parse "and().x" ≠ .ok (.invocation "and" [] false [.property "x"]) := by
  have htokens : Lexer.tokenize "and().x".toList =
      .ok ⟨[⟨.word "and", 0, 3⟩, ⟨.symbol .leftParen, 3, 4⟩, ⟨.symbol .rightParen, 4, 5⟩,
        ⟨.symbol .dot, 5, 6⟩, ⟨.word "x", 6, 7⟩], 7⟩ := by cbv
  refine ⟨_, htokens, means_of_primary (by decide) ?_, ?_⟩
  · show Derives _ _ (.primary (.invocation (Parser.dottedName "and" []) [] false _)) _ _
    exact .call rfl .noPart rfl (.noArguments rfl) (.property rfl rfl .noStep) trivial
  · rw [Ne, parse_eq_ok_iff_of_tokenize htokens]
    intro h
    have hroot : unchained "and" [.property "x"] := Derives.rootUnchained h rfl
    exact absurd (hroot (by simp)) (by decide)

end WhenClause.Expression
