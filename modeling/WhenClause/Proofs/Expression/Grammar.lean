import WhenClause.Expression.Parser

set_option autoImplicit false

/-! # The grammar of expressions

The grammar says which tokens mean which expression, and nothing about how to find out. A rule
never asks for the longest match: where a list of operators, a dotted name or a chain may end, it
may end anywhere.

    level    ::= operand (operator operand)*     for each of the four levels
    operand  ::= level of the next tighter operators, or unary behind the tightest
    unary    ::= `!` unary | `not` unary | primary
    primary  ::= literal | `(` level `)` | `[` `]` | `[` items `]` | record
               | dotted `(` arguments chain | dotted
    items    ::= level `,` items | level
    chain    ::= (`.` word | `.` word `(` arguments)*
    dotted   ::= word (`.` word)*

The word `not` is a negation exactly when a blank separates it from a token that starts a term,
and a dotted name stands for itself exactly inside an argument list and where no parenthesis
follows. Both depend on the tokens behind, so the rules speak of the tokens that are left. -/

namespace WhenClause.Grammar

open WhenClause.Parser (Level startsNegation dottedName next)

/-! ## Phrases -/

/-- The lists of expressions between commas: the items of a sequence and the arguments of a call. -/
inductive Listing where
  | sequence
  | arguments
deriving DecidableEq

namespace Listing

def closing : Listing → Symbol
  | sequence => .rightBracket
  | arguments => .rightParen

/-- Whether the items stand inside an argument list, when the list itself does or does not. -/
def inside : Listing → Bool → Bool
  | sequence, outer => outer
  | arguments, _ => true

end Listing

/-- The kinds of phrases, each with what it means. -/
inductive Phrase where
  /-- Operands with operators of a level between them. -/
  | level (l : Level) (e : Expression)
  /-- Operators of a level, each with its right operand. -/
  | more (l : Level) (pairs : List (Operator × Expression))
  | unary (e : Expression)
  | primary (e : Expression)
  /-- Items, at least one, and the symbol that closes them. -/
  | items (k : Listing) (es : List Expression)
  /-- Arguments, if any, and the parenthesis that closes them. -/
  | arguments (es : List Expression)
  /-- Entries of a record, at least one, and the brace that closes them. -/
  | entries (es : List (String × Expression))
  /-- The parts of a dotted name after its first word. -/
  | dotted (parts : List String)
  /-- The members that follow a call. -/
  | chain (steps : List Step)

def operand : Level → Expression → Phrase
  | .or, e => .level .and e
  | .and, e => .level .equality e
  | .equality, e => .level .relational e
  | .relational, e => .unary e

/-- The operators of the levels, as they are written. -/
inductive Joins : Level → Lexeme → Operator → Prop
  | or : Joins .or (.symbol .orOr) .or
  | orWord : Joins .or (.word "or") .or
  | and : Joins .and (.symbol .andAnd) .and
  | andWord : Joins .and (.word "and") .and
  | equal : Joins .equality (.symbol .equal) .equal
  | notEqual : Joins .equality (.symbol .notEqual) .notEqual
  | less : Joins .relational (.symbol .less) .less
  | lessEqual : Joins .relational (.symbol .lessEqual) .lessEqual
  | greater : Joins .relational (.symbol .greater) .greater
  | greaterEqual : Joins .relational (.symbol .greaterEqual) .greaterEqual

/-- The tree of an operand with operators of a level behind it. A logical operator takes all the
operands at once, and the comparisons associate to the left. -/
def tree : Level → Expression → List (Operator × Expression) → Expression
  | _, first, [] => first
  | .or, first, more => .operator .or (first :: more.map Prod.snd)
  | .and, first, more => .operator .and (first :: more.map Prod.snd)
  | l, first, (op, second) :: more => tree l (.operator op [first, second]) more

def literal? : Lexeme → Option Literal
  | .number x => some (.number x)
  | .string s => some (.string s)
  | .bool b => some (.bool b)
  | .null => some .null
  | _ => none

/-! ## Rules -/

/-- The tokens begin with a phrase, and the others are left. The flag tells whether the phrase
stands inside an argument list. Calls are those that `admits` lets pass, by their names and
chains. -/
inductive Derives (admits : String → List Step → Prop) :
    Bool → Phrase → List Token → List Token → Prop
  | level {inside l first more ts mid rest} :
      Derives admits inside (operand l first) ts mid →
      Derives admits inside (.more l more) mid rest →
      Derives admits inside (.level l (tree l first more)) ts rest
  | noMore {inside l rest} : Derives admits inside (.more l []) rest rest
  | more {inside l op e more t ts mid rest} : Joins l t.lexeme op →
      Derives admits inside (operand l e) ts mid →
      Derives admits inside (.more l more) mid rest →
      Derives admits inside (.more l ((op, e) :: more)) (t :: ts) rest
  | negation {inside e t ts rest} : t.lexeme = .symbol .bang ∨ startsNegation t ts = true →
      Derives admits inside (.unary e) ts rest →
      Derives admits inside (.unary e.negate) (t :: ts) rest
  | term {inside e t ts rest} : startsNegation t ts = false →
      Derives admits inside (.primary e) (t :: ts) rest →
      Derives admits inside (.unary e) (t :: ts) rest
  | literal {inside l t rest} : literal? t.lexeme = some l →
      Derives admits inside (.primary (.literal l)) (t :: rest) rest
  | group {inside e t ts u rest} : t.lexeme = .symbol .leftParen →
      Derives admits inside (.level .or e) ts (u :: rest) → u.lexeme = .symbol .rightParen →
      Derives admits inside (.primary e) (t :: ts) rest
  | emptySequence {inside t u rest} : t.lexeme = .symbol .leftBracket →
      u.lexeme = .symbol .rightBracket →
      Derives admits inside (.primary (.sequence [])) (t :: u :: rest) rest
  | sequence {inside es t ts rest} : t.lexeme = .symbol .leftBracket →
      Derives admits inside (.items .sequence es) ts rest →
      Derives admits inside (.primary (.sequence es)) (t :: ts) rest
  | emptyRecord {inside t u rest} : t.lexeme = .symbol .leftBrace →
      u.lexeme = .symbol .rightBrace →
      Derives admits inside (.primary (.record [])) (t :: u :: rest) rest
  | record {inside es t ts rest} : t.lexeme = .symbol .leftBrace →
      Derives admits inside (.entries es) ts rest →
      Derives admits inside (.primary (.record es)) (t :: ts) rest
  | call {inside first parts es steps t ts u args mid rest} : t.lexeme = .word first →
      Derives admits inside (.dotted parts) ts (u :: args) → u.lexeme = .symbol .leftParen →
      Derives admits inside (.arguments es) args mid →
      Derives admits inside (.chain steps) mid rest →
      admits (dottedName first parts) steps →
      Derives admits inside (.primary (.invocation (dottedName first parts) es false steps))
        (t :: ts) rest
  | word {first parts t ts rest} : t.lexeme = .word first →
      Derives admits true (.dotted parts) ts rest → next rest ≠ some (.symbol .leftParen) →
      Derives admits true (.primary (.literal (.string (dottedName first parts)))) (t :: ts) rest
  | lastItem {inside k e ts u rest} :
      Derives admits (k.inside inside) (.level .or e) ts (u :: rest) →
      u.lexeme = .symbol k.closing →
      Derives admits inside (.items k [e]) ts rest
  | item {inside k e es ts u mid rest} :
      Derives admits (k.inside inside) (.level .or e) ts (u :: mid) →
      u.lexeme = .symbol .comma →
      Derives admits inside (.items k es) mid rest →
      Derives admits inside (.items k (e :: es)) ts rest
  | noArguments {inside t rest} : t.lexeme = .symbol .rightParen →
      Derives admits inside (.arguments []) (t :: rest) rest
  | arguments {inside es ts rest} : Derives admits inside (.items .arguments es) ts rest →
      Derives admits inside (.arguments es) ts rest
  | lastEntry {inside key e t c ts u rest} : t.lexeme.recordKey? = some key →
      c.lexeme = .symbol .colon →
      Derives admits inside (.level .or e) ts (u :: rest) → u.lexeme = .symbol .rightBrace →
      Derives admits inside (.entries [(key, e)]) (t :: c :: ts) rest
  | entry {inside key e es t c ts u mid rest} : t.lexeme.recordKey? = some key →
      c.lexeme = .symbol .colon →
      Derives admits inside (.level .or e) ts (u :: mid) → u.lexeme = .symbol .comma →
      Derives admits inside (.entries es) mid rest →
      Derives admits inside (.entries ((key, e) :: es)) (t :: c :: ts) rest
  | noPart {inside rest} : Derives admits inside (.dotted []) rest rest
  | part {inside part parts t u ts rest} : t.lexeme = .symbol .dot → u.lexeme = .word part →
      Derives admits inside (.dotted parts) ts rest →
      Derives admits inside (.dotted (part :: parts)) (t :: u :: ts) rest
  | noStep {inside rest} : Derives admits inside (.chain []) rest rest
  | property {inside key steps t u ts rest} : t.lexeme = .symbol .dot → u.lexeme = .word key →
      Derives admits inside (.chain steps) ts rest →
      Derives admits inside (.chain (.property key :: steps)) (t :: u :: ts) rest
  | method {inside name es steps t u p ts mid rest} : t.lexeme = .symbol .dot →
      u.lexeme = .word name → p.lexeme = .symbol .leftParen →
      Derives admits inside (.arguments es) ts mid →
      Derives admits inside (.chain steps) mid rest →
      Derives admits inside (.chain (.method name es :: steps)) (t :: u :: p :: ts) rest

/-! ## Operators -/

/-- The table of the operators is the one that the readers go by. -/
theorem joins_iff {l : Level} {x : Lexeme} {op : Operator} :
    Joins l x op ↔ l.operator? x = some op := by
  constructor
  · rintro ⟨⟩ <;> rfl
  · intro h
    unfold Level.operator? at h
    split at h
    case h_2 | h_4 =>
      split at h
      · subst_vars
        cases h
        constructor
      · cases h
    all_goals cases h
    all_goals constructor

/-- So are the trees. -/
theorem tree_eq_assemble (l : Level) (first : Expression) (more : List (Operator × Expression)) :
    tree l first more = l.assemble first more := by
  induction more generalizing first with
  | nil => cases l <;> rfl
  | cons pair more ih =>
      cases l with
      | or | and => rfl
      | equality | relational => exact ih (.operator pair.1 [first, pair.2])

/-! ## Meaning -/

/-- A call that has no chain, or does not name an operator. -/
def unchained (name : String) (steps : List Step) : Prop :=
  steps ≠ [] → Operator.ofName? name = none

def Means (admits : String → List Step → Prop) (tokens : List Token) (e : Expression) : Prop :=
  Derives admits false (.level .or e) tokens []

end WhenClause.Grammar
