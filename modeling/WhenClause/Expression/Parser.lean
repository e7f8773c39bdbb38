import WhenClause.Expression.Basic
import WhenClause.Fault

set_option autoImplicit false

/-! # Reading expressions from tokens

From the loosest to the tightest binding: `||` and `or`, `&&` and `and`, the two equality
operators, the four order operators, the negations `!` and `not`, and then literals, brackets
and calls. The logical operators take all their operands at once; the others associate to the
left. Inside an argument list a name that is not called stands for itself, as a string;
elsewhere it must be called.

Each reader takes tokens from the front of a list and says what they mean and which tokens are
left, and it keeps the evidence that fewer are left. That evidence makes the readers total: they
are defined by recursion on the number of tokens and, for the same tokens, on how tightly the
reader binds. -/

namespace WhenClause.Parser

/-! ## Readings -/

/-- What was read, and the tokens left, fewer than `bound`. -/
structure Reading (α : Type) (bound : Nat) where
  /-- The meaning of the tokens taken. -/
  result : α
  rest : List Token
  /-- Something was taken. -/
  shorter : rest.length < bound

/-- A reading or the reason why there is none. -/
abbrev Read (α : Type) (bound : Nat) : Type := Except Rejection (Reading α bound)

namespace Reading

variable {α β : Type} {m n : Nat}

def weaken (r : Reading α m) (h : m ≤ n) : Reading α n :=
  ⟨r.result, r.rest, Nat.lt_of_lt_of_le r.shorter h⟩

def map (f : α → β) (r : Reading α n) : Reading β n := ⟨f r.result, r.rest, r.shorter⟩

end Reading

/-! ## Levels of binding -/

/-- The levels of the operators with two sides, loosest first. -/
inductive Level where
  | or
  | and
  | equality
  | relational
deriving DecidableEq

namespace Level

/-- The operator of a level that a lexeme stands for. -/
def operator? : Level → Lexeme → Option Operator
  | .or, .symbol .orOr => some .or
  | .or, .word name => if name = "or" then some .or else none
  | .and, .symbol .andAnd => some .and
  | .and, .word name => if name = "and" then some .and else none
  | .equality, .symbol .equal => some .equal
  | .equality, .symbol .notEqual => some .notEqual
  | .relational, .symbol .less => some .less
  | .relational, .symbol .lessEqual => some .lessEqual
  | .relational, .symbol .greater => some .greater
  | .relational, .symbol .greaterEqual => some .greaterEqual
  | _, _ => none

/-- The expression of an operand and the operators and operands after it. -/
def assemble : Level → Expression → List (Operator × Expression) → Expression
  | .or, first, more => Expression.combine .or first (more.map Prod.snd)
  | .and, first, more => Expression.combine .and first (more.map Prod.snd)
  | _, first, more =>
      more.foldl (fun left (op, right) => Expression.operator op [left, right]) first

/-- How many readers lie between the operands of a level and the tokens; a level on the same
tokens as a looser one has the smaller height. -/
@[simp] def height : Level → Nat
  | .or => 5
  | .and => 4
  | .equality => 3
  | .relational => 2

end Level

/-! ## Single tokens -/

/-- The lexeme of the next token. -/
def next (ts : List Token) : Option Lexeme := ts.head?.map Token.lexeme

/-- The place of the next token, or the end of the text. -/
def place (stop : Nat) (ts : List Token) : Nat := (ts.head?.map Token.start).getD stop

/-- A fault at the next token. -/
def reject {α : Type} (cause : Fault) (stop : Nat) (ts : List Token) : Except Rejection α :=
  .error (.fault cause (place stop ts))

/-- The word `not` before a term that it is separated from. Anywhere else `not` is a name. -/
def startsNegation (t : Token) (rest : List Token) : Bool :=
  t.lexeme == .word "not" &&
    rest.head?.any fun follower => t.stop < follower.start && follower.lexeme.startsTerm

def readDotted (stop : Nat) : (ts : List Token) → Read (List String) (ts.length + 1)
  | [] => .ok ⟨[], [], Nat.lt_succ_self _⟩
  | t :: rest =>
      if t.lexeme = .symbol .dot then
        match rest with
        | [] => reject (.expected .nameAfterDot none) stop []
        | u :: rest =>
            match u.lexeme with
            | .word part => do
                let more ← readDotted stop rest
                .ok ((more.map (part :: ·)).weaken (by simp only [List.length_cons]; omega))
            | found => reject (.expected .nameAfterDot (some found)) stop (u :: rest)
      else .ok ⟨[], t :: rest, Nat.lt_succ_self _⟩

/-- The name that a word and the parts after it spell. -/
def dottedName (first : String) (parts : List String) : String :=
  String.intercalate "." (first :: parts)

/-! ## The readers -/

mutual

/-- An expression of a level: operands with operators of that level between them. -/
def readLevel (stop : Nat) (bare : Bool) (level : Level) (ts : List Token) :
    Read Expression ts.length := do
  let first ← readOperand stop bare level ts
  have := first.shorter
  let more ← readMore stop bare level first.rest
  .ok ⟨level.assemble first.result more.result, more.rest, by
    have := more.shorter; omega⟩
termination_by (ts.length, 2 * level.height + 1)

/-- An operand of a level: an expression of the next level, which binds more tightly. -/
def readOperand (stop : Nat) (bare : Bool) (level : Level) (ts : List Token) :
    Read Expression ts.length :=
  match level with
  | .or => readLevel stop bare .and ts
  | .and => readLevel stop bare .equality ts
  | .equality => readLevel stop bare .relational ts
  | .relational => readUnary stop bare ts
termination_by (ts.length, 2 * level.height)

/-- The operators of a level that follow, each with its right operand. -/
def readMore (stop : Nat) (bare : Bool) (level : Level) (ts : List Token) :
    Read (List (Operator × Expression)) (ts.length + 1) :=
  match ts with
  | [] => .ok ⟨[], [], Nat.lt_succ_self _⟩
  | t :: rest =>
      match level.operator? t.lexeme with
      | none => .ok ⟨[], t :: rest, Nat.lt_succ_self _⟩
      | some op => do
          let operand ← readOperand stop bare level rest
          have := operand.shorter
          let more ← readMore stop bare level operand.rest
          .ok ⟨(op, operand.result) :: more.result, more.rest, by
            have := more.shorter; simp only [List.length_cons]; omega⟩
termination_by (ts.length, 0)

/-- A term with the negations before it. -/
def readUnary (stop : Nat) (bare : Bool) (ts : List Token) : Read Expression ts.length :=
  match ts with
  | [] => reject .missingOperand stop []
  | t :: rest =>
      if t.lexeme = .symbol .bang || startsNegation t rest then do
        let inner ← readUnary stop bare rest
        .ok ((inner.map Expression.negate).weaken (Nat.le_succ _))
      else readTerm stop bare t rest
termination_by (ts.length, 2)

def readTerm (stop : Nat) (bare : Bool) (t : Token) (rest : List Token) :
    Read Expression (t :: rest).length :=
  match t.lexeme with
  | .number x => .ok ⟨.literal (.number x), rest, Nat.lt_succ_self _⟩
  | .string s => .ok ⟨.literal (.string s), rest, Nat.lt_succ_self _⟩
  | .bool b => .ok ⟨.literal (.bool b), rest, Nat.lt_succ_self _⟩
  | .null => .ok ⟨.literal .null, rest, Nat.lt_succ_self _⟩
  | .word name => readName stop bare t name rest
  | .symbol .leftParen => do
      let inner ← readLevel stop bare .or rest
      match h : inner.rest with
      | [] => reject (.expected .closeParen none) stop []
      | u :: after =>
          if u.lexeme = .symbol .rightParen then
            .ok ⟨inner.result, after, by
              have := inner.shorter; rw [h] at this; simp only [List.length_cons] at *; omega⟩
          else reject (.expected .closeParen (some u.lexeme)) stop (u :: after)
  | .symbol .leftBracket =>
      match rest with
      | [] => reject .missingOperand stop []
      | u :: after =>
          if u.lexeme = .symbol .rightBracket then
            .ok ⟨.sequence [], after, by simp only [List.length_cons]; omega⟩
          else do
            let items ← readItems stop bare (u :: after)
            .ok ((items.map Expression.sequence).weaken (Nat.le_succ _))
  | .symbol .leftBrace =>
      match rest with
      | [] => reject (.expected .recordKey none) stop []
      | u :: after =>
          if u.lexeme = .symbol .rightBrace then
            .ok ⟨.record [], after, by simp only [List.length_cons]; omega⟩
          else do
            let entries ← readEntries stop bare (u :: after)
            .ok ((entries.map Expression.record).weaken (Nat.le_succ _))
  | found => reject (.unexpected (some found)) stop (t :: rest)
termination_by ((t :: rest).length, 1)

/-- The items of a sequence, from the first one on, and its closing bracket. -/
def readItems (stop : Nat) (bare : Bool) (ts : List Token) :
    Read (List Expression) ts.length := do
  let item ← readLevel stop bare .or ts
  have shorter := item.shorter
  match h : item.rest with
  | [] => reject (.expected .commaOrBracket none) stop []
  | u :: after =>
      have after_lt : after.length + 1 < ts.length := by
        rw [h] at shorter; simpa only [List.length_cons] using shorter
      if u.lexeme = .symbol .comma then do
        let more ← readItems stop bare after
        .ok ((more.map (item.result :: ·)).weaken (by omega))
      else if u.lexeme = .symbol .rightBracket then .ok ⟨[item.result], after, by omega⟩
      else reject (.expected .commaOrBracket (some u.lexeme)) stop (u :: after)
termination_by (ts.length, 12)

/-- The entries of a record, from the first key on, and its closing brace. -/
def readEntries (stop : Nat) (bare : Bool) (ts : List Token) :
    Read (List (String × Expression)) ts.length :=
  match ts with
  | [] => reject (.expected .recordKey none) stop []
  | t :: rest =>
      match t.lexeme.recordKey? with
      | none => reject (.expected .recordKey (some t.lexeme)) stop (t :: rest)
      | some key =>
          match rest with
          | [] => reject (.expected .colon none) stop []
          | c :: rest =>
              if c.lexeme = .symbol .colon then do
                let value ← readLevel stop bare .or rest
                have shorter := value.shorter
                match h : value.rest with
                | [] => reject (.expected .commaOrBrace none) stop []
                | u :: after =>
                    have after_lt : after.length + 1 < rest.length := by
                      rw [h] at shorter; simpa only [List.length_cons] using shorter
                    if u.lexeme = .symbol .comma then do
                      let more ← readEntries stop bare after
                      .ok ((more.map ((key, value.result) :: ·)).weaken (by
                        simp only [List.length_cons]; omega))
                    else if u.lexeme = .symbol .rightBrace then
                      .ok ⟨[(key, value.result)], after, by simp only [List.length_cons]; omega⟩
                    else reject (.expected .commaOrBrace (some u.lexeme)) stop (u :: after)
              else reject (.expected .colon (some c.lexeme)) stop (c :: rest)
termination_by (ts.length, 0)

/-- A call whose name starts with the word `first`, the token `t`; or a bare word. -/
def readName (stop : Nat) (bare : Bool) (t : Token) (first : String) (rest : List Token) :
    Read Expression (t :: rest).length := do
  let parts ← readDotted stop rest
  have parts_le := parts.shorter
  let name := dottedName first parts.result
  match h : parts.rest with
  | u :: after =>
      if u.lexeme = .symbol .leftParen then do
        have after_lt : after.length < rest.length := by
          rw [h] at parts_le; simp only [List.length_cons] at parts_le; omega
        let args ← readArguments stop u.stop after
        have args_lt := args.shorter
        let chain ← readChain stop args.rest
        have chain_le := chain.shorter
        if !chain.result.isEmpty && (Operator.ofName? name).isSome then
          .error (.fault (.operatorChain name) t.start)
        else
          .ok ⟨.invocation name args.result false chain.result, chain.rest, by
            simp only [List.length_cons] at *; omega⟩
      else if bare then
        .ok ⟨.literal (.string name), u :: after, by
          rw [h] at parts_le; simp only [List.length_cons] at *; omega⟩
      else .error (.fault (.bareName name) t.start)
  | [] =>
      if bare then .ok ⟨.literal (.string name), [], by simp⟩
      else .error (.fault (.bareName name) t.start)
termination_by (rest.length + 1, 0)
decreasing_by all_goals omega

/-- The arguments behind an opening parenthesis that ends at the offset `opening`, and the
closing parenthesis. -/
def readArguments (stop : Nat) (opening : Nat) (ts : List Token) :
    Read (List Expression) ts.length :=
  match ts with
  | [] => reject .missingOperand stop []
  | t :: rest =>
      if t.lexeme = .symbol .rightParen then .ok ⟨[], rest, Nat.lt_succ_self _⟩
      else readArgumentItems stop opening (t :: rest)
termination_by (ts.length, 13)

/-- The arguments of a list that has some, from the first one on, and the closing parenthesis. -/
def readArgumentItems (stop : Nat) (opening : Nat) (ts : List Token) :
    Read (List Expression) ts.length := do
  let item ← readLevel stop true .or ts
  have shorter := item.shorter
  match h : item.rest with
  | [] => reject .unclosedArguments stop []
  | u :: after =>
      have after_lt : after.length + 1 < ts.length := by
        rw [h] at shorter; simpa only [List.length_cons] using shorter
      if u.lexeme = .symbol .comma then do
        let more ← readArgumentItems stop opening after
        .ok ((more.map (item.result :: ·)).weaken (by omega))
      else if u.lexeme = .symbol .rightParen then .ok ⟨[item.result], after, by omega⟩
      else .error (.arguments opening u.lexeme)
termination_by (ts.length, 12)

def readChain (stop : Nat) (ts : List Token) : Read (List Step) (ts.length + 1) :=
  match ts with
  | [] => .ok ⟨[], [], Nat.lt_succ_self _⟩
  | t :: rest =>
      if t.lexeme = .symbol .dot then
        match rest with
        | [] => reject (.expected .memberName none) stop []
        | u :: after =>
            match u.lexeme with
            | .word key =>
                match after with
                | p :: inner =>
                    if p.lexeme = .symbol .leftParen then do
                      let args ← readArguments stop p.stop inner
                      have args_lt := args.shorter
                      let more ← readChain stop args.rest
                      have more_le := more.shorter
                      .ok ⟨.method key args.result :: more.result, more.rest, by
                        simp only [List.length_cons]; omega⟩
                    else do
                      let more ← readChain stop (p :: inner)
                      .ok ((more.map (.property key :: ·)).weaken (by
                        simp only [List.length_cons]; omega))
                | [] => .ok ⟨[.property key], [], by simp⟩
            | found => reject (.expected .memberName (some found)) stop (u :: after)
      else .ok ⟨[], t :: rest, Nat.lt_succ_self _⟩
termination_by (ts.length, 0)

end

/-- The expression that a text of tokens is. -/
def readAll (tokens : Tokens) : Except Rejection Expression :=
  if tokens.list.isEmpty then .error (.fault .emptyExpression 0)
  else do
    let whole ← readLevel tokens.stop false .or tokens.list
    match whole.rest with
    | [] => .ok whole.result
    | t :: rest => reject (.unexpected (some t.lexeme)) tokens.stop (t :: rest)

end WhenClause.Parser
