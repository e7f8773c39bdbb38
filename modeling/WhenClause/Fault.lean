import WhenClause.Token.Basic

set_option autoImplicit false

/-! # Faults of expression texts

Why a text is no expression: the causes found while it is cut into tokens, and those found while
the tokens are read. Messages name the offending token, or the end of the expression. -/

namespace WhenClause

/-- What the reader of an expression waits for. -/
inductive Expected where
  | closeParen
  | commaOrBracket
  | recordKey
  | colon
  | commaOrBrace
  | nameAfterDot
  | memberName
deriving DecidableEq

def Expected.text : Expected → String
  | closeParen => "')'"
  | commaOrBracket => "',' or ']'"
  | recordKey => "record key"
  | colon => "':'"
  | commaOrBrace => "',' or '\x7d'"
  | nameAfterDot => "name after '.'"
  | memberName => "member name after '.'"

/-- A cause for which a text is no expression. -/
inductive Fault where
  /-- A character that starts no token. -/
  | unexpectedCharacter (c : Char)
  | unclosedString
  /-- Four digits are missing after the letter of a code, or no character has the code. -/
  | invalidCode
  /-- A backslash before a character that it does not go with. -/
  | invalidEscape (c : Char)
  | malformedExponent
  /-- A number that runs into a word. -/
  | malformedNumber
  | emptyExpression
  | missingOperand
  | unexpected (found : Option Lexeme)
  /-- Something else must stand where the token does. -/
  | expected (what : Expected) (found : Option Lexeme)
  /-- A name that is not followed by arguments, where bare words are not allowed. -/
  | bareName (name : String)
  | unclosedArguments
  | operatorChain (name : String)
deriving DecidableEq

/-- A token, or the end of the text, as messages show it. -/
def describeFound : Option Lexeme → String
  | some l => l.describe
  | none => "end of expression"

def Fault.message : Fault → String
  | unexpectedCharacter c => s!"Unexpected character '{c}'"
  | unclosedString => "Unclosed string literal"
  | invalidCode => "Invalid unicode escape"
  | invalidEscape c => s!"Invalid escape sequence: \\{c}"
  | malformedExponent => "Malformed number exponent"
  | malformedNumber => "Malformed number"
  | emptyExpression => "Empty expression"
  | missingOperand => "Missing operand"
  | unexpected found => s!"Unexpected {describeFound found}"
  | expected what found => s!"Expected {what.text}, found {describeFound found}"
  | bareName name => s!"Expected '(' after command name '{name}'"
  | unclosedArguments => "Expected ')' to close argument list"
  | operatorChain name => s!"Operator '{name}' cannot be followed by a chain"

/-- Why a text was rejected. -/
inductive Rejection where
  | fault (cause : Fault) (position : Nat)
  /-- A token that neither continues nor closes the argument list opened just before an offset. -/
  | arguments (opening : Nat) (found : Lexeme)
deriving DecidableEq

end WhenClause
