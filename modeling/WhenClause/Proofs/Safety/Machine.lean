import WhenClause.Proofs.Safety.Lexing
import WhenClause.Proofs.Safety.Messages

set_option autoImplicit false

/-! # A parser on a vector of tokens

The parser of expressions holds the vector of the tokens, the index of the current one and the
number of argument lists that are open. It looks at tokens by their indices, where the last token
is the end of the text, and counts the open lists up and down. Each of these steps may crash here;
`Proofs/Safety/Parsing.lean` shows that none does. -/

namespace WhenClause.Checked

open WhenClause.Parser (Level dottedName)

/-- Where the parser is. -/
structure Cursor where
  position : Nat
  /-- How many argument lists are open. -/
  depth : Nat

/-- A step of the parser: it moves the cursor and gives a result or an error, or it crashes. -/
abbrev Act (α : Type) : Type := ExceptT Error (StateT Cursor Guarded) α

def crash {α : Type} (reason : Crash) : Act α := liftM (Except.error reason : Guarded α)

/-- The token at an index. No index behind the last token is asked for. -/
def tokenAt (tokens : List Cell) (i : Nat) : Guarded Cell := do
  let last ← minus tokens.length 1
  if last < i then .error .pastEnd
  else
    match tokens[min i last]? with
    | some token => return token
    | none => .error .index

variable {α : Type}

section

variable (tokens : List Cell)

def peekAt (k : Nat) : Act Cell := do
  let cursor ← get
  liftM (tokenAt tokens (cursor.position + k))

def peek : Act Cell := peekAt tokens 0

/-- The current token; the cursor moves behind it, but not behind the end of the text. -/
def advance : Act Cell := do
  let token ← peek tokens
  if token.lexeme.isSome then modify fun cursor => { cursor with position := cursor.position + 1 }
  return token

/-- The word `not` in front of a term that it is separated from. -/
def startsNegation : Act Bool := do
  let token ← peek tokens
  if token.lexeme = some (.word "not") then
    let follower ← peekAt tokens 1
    return token.stop < follower.start && follower.lexeme.any Lexeme.startsTerm
  else return false

end

/-- A step inside an argument list. The list is counted out again whatever the step does. -/
def insideArguments (act : Act α) : Act α :=
  ExceptT.mk fun cursor => do
    let (result, after) ← act { cursor with depth := cursor.depth + 1 }
    let depth ← minus after.depth 1
    return (result, { after with depth })

/-- The operand of a level, given the expressions of the levels and the terms. -/
def operand (level : Level → Act Expression) (unary : Act Expression) : Level → Act Expression
  | .or => level .and
  | .and => level .equality
  | .equality => level .relational
  | .relational => unary

section

variable (source : List Char)

def fail (cause : Fault) (position : Nat) : Act α :=
  throw (Source.errorOf source (.fault cause position))

/-- The error of an argument list, whose text is cut out for the message. -/
def failArguments (opening : Nat) (found : Lexeme) : Act α := do
  let text ← liftM (argumentText source opening)
  throw (.argumentParse (String.ofList text) s!"Expected ',' or ')', found {found.describe}")

variable (tokens : List Cell)

/-- A symbol that must stand here. -/
def expect (symbol : Symbol) (what : Expected) : Act Unit := do
  let token ← peek tokens
  if token.lexeme = some (.symbol symbol) then
    let _ ← advance tokens
    return ()
  else fail source (.expected what token.lexeme) token.start

/-- What stands behind an item of a list: a comma and more items, the symbol that closes the list,
or a stray token. -/
def behindItem (closing : Symbol) (single : α) (more : Act α) (stray : Cell → Act α) : Act α := do
  let token ← peek tokens
  if token.lexeme = some (.symbol .comma) then
    let _ ← advance tokens
    more
  else if token.lexeme = some (.symbol closing) then
    let _ ← advance tokens
    return single
  else stray token

def dotted : Nat → Act (List String)
  | 0 => crash .exhausted
  | fuel + 1 => do
      let token ← peek tokens
      if token.lexeme = some (.symbol .dot) then
        let part ← peekAt tokens 1
        match part.lexeme with
        | some (.word name) => do
            let _ ← advance tokens
            let _ ← advance tokens
            let more ← dotted fuel
            return name :: more
        | found => fail source (.expected .nameAfterDot found) part.start
      else return []

mutual

def level : Nat → Level → Act Expression
  | 0, _ => crash .exhausted
  | fuel + 1, l => do
      let first ← operand (level fuel) (unary fuel) l
      let others ← operators fuel l
      return l.assemble first others

/-- The operators of a level that follow, each with its right operand. -/
def operators : Nat → Level → Act (List (Operator × Expression))
  | 0, _ => crash .exhausted
  | fuel + 1, l => do
      let token ← peek tokens
      match token.lexeme.bind l.operator? with
      | none => return []
      | some op => do
          let _ ← advance tokens
          let right ← operand (level fuel) (unary fuel) l
          let others ← operators fuel l
          return (op, right) :: others

def unary : Nat → Act Expression
  | 0 => crash .exhausted
  | fuel + 1 => do
      let token ← peek tokens
      if token.lexeme = some (.symbol .bang) then
        let _ ← advance tokens
        let inner ← unary fuel
        return inner.negate
      else if ← startsNegation tokens then
        let _ ← advance tokens
        let inner ← unary fuel
        return inner.negate
      else term fuel

def term : Nat → Act Expression
  | 0 => crash .exhausted
  | fuel + 1 => do
      let token ← peek tokens
      match token.lexeme with
      | none => fail source .missingOperand token.start
      | some (.number x) => do
          let _ ← advance tokens
          return .literal (.number x)
      | some (.string s) => do
          let _ ← advance tokens
          return .literal (.string s)
      | some (.bool b) => do
          let _ ← advance tokens
          return .literal (.bool b)
      | some .null => do
          let _ ← advance tokens
          return .literal .null
      | some (.word first) => do
          let _ ← advance tokens
          name fuel token.start first
      | some (.symbol .leftParen) => do
          let _ ← advance tokens
          let inner ← level fuel .or
          expect source tokens .rightParen .closeParen
          return inner
      | some (.symbol .leftBracket) => do
          let _ ← advance tokens
          let follower ← peek tokens
          if follower.lexeme = some (.symbol .rightBracket) then
            let _ ← advance tokens
            return .sequence []
          else
            let found ← items fuel
            return .sequence found
      | some (.symbol .leftBrace) => do
          let _ ← advance tokens
          let follower ← peek tokens
          if follower.lexeme = some (.symbol .rightBrace) then
            let _ ← advance tokens
            return .record []
          else
            let found ← entries fuel
            return .record found
      | found => fail source (.unexpected found) token.start

def items : Nat → Act (List Expression)
  | 0 => crash .exhausted
  | fuel + 1 => do
      let item ← level fuel .or
      behindItem tokens .rightBracket [item]
        (do let more ← items fuel; return item :: more)
        fun token => fail source (.expected .commaOrBracket token.lexeme) token.start

def entries : Nat → Act (List (String × Expression))
  | 0 => crash .exhausted
  | fuel + 1 => do
      let token ← advance tokens
      match token.lexeme.bind Lexeme.recordKey? with
      | none => fail source (.expected .recordKey token.lexeme) token.start
      | some key => do
          expect source tokens .colon .colon
          let value ← level fuel .or
          behindItem tokens .rightBrace [(key, value)]
            (do let more ← entries fuel; return (key, value) :: more)
            fun token => fail source (.expected .commaOrBrace token.lexeme) token.start

/-- A call or a bare word, behind its first word. -/
def name : Nat → Nat → String → Act Expression
  | 0, _, _ => crash .exhausted
  | fuel + 1, start, first => do
      let parts ← dotted source tokens fuel
      let token ← peek tokens
      if token.lexeme = some (.symbol .leftParen) then
        let args ← arguments fuel
        let members ← chain fuel
        if !members.isEmpty && (Operator.ofName? (dottedName first parts)).isSome then
          fail source (.operatorChain (dottedName first parts)) start
        else return .invocation (dottedName first parts) args false members
      else
        let cursor ← get
        if 0 < cursor.depth then return .literal (.string (dottedName first parts))
        else fail source (.bareName (dottedName first parts)) start

/-- An argument list, from its opening parenthesis on. -/
def arguments : Nat → Act (List Expression)
  | 0 => crash .exhausted
  | fuel + 1 => do
      let opening ← advance tokens
      let token ← peek tokens
      if token.lexeme = some (.symbol .rightParen) then
        let _ ← advance tokens
        return []
      else insideArguments (argumentItems fuel opening.stop)

/-- The arguments of a list that has some. -/
def argumentItems : Nat → Nat → Act (List Expression)
  | 0, _ => crash .exhausted
  | fuel + 1, opening => do
      let item ← level fuel .or
      behindItem tokens .rightParen [item]
        (do let more ← argumentItems fuel opening; return item :: more)
        fun token =>
          match token.lexeme with
          | none => fail source .unclosedArguments token.start
          | some found => failArguments source opening found

def chain : Nat → Act (List Step)
  | 0 => crash .exhausted
  | fuel + 1 => do
      let token ← peek tokens
      if token.lexeme = some (.symbol .dot) then
        let _ ← advance tokens
        let member ← advance tokens
        match member.lexeme with
        | some (.word key) => do
            let follower ← peek tokens
            if follower.lexeme = some (.symbol .leftParen) then
              let args ← arguments fuel
              let others ← chain fuel
              return .method key args :: others
            else
              let others ← chain fuel
              return .property key :: others
        | found => fail source (.expected .memberName found) member.start
      else return []

end

def parseTokens (fuel : Nat) : Act Expression := do
  let token ← peek tokens
  if token.lexeme = none then fail source .emptyExpression 0
  else
    let e ← level source tokens fuel .or
    let behind ← peek tokens
    if behind.lexeme = none then return e
    else fail source (.unexpected behind.lexeme) behind.start

end

/-- The expression of a text, found in at most so many steps. -/
def parse (float : List Char → Option Number) (fuel : Nat) (text : String) :
    Guarded (Except Error Expression) := do
  let source := text.toList
  match ← readTokens source float fuel 0 with
  | .error reason => return .error (Source.errorOf source reason)
  | .ok tokens =>
      let (result, _) ← parseTokens source tokens fuel ⟨0, 0⟩
      return result

end WhenClause.Checked
