import WhenClause.Number.Shortest
import WhenClause.Text.Shown

set_option autoImplicit false

/-! # Tokens

The lexemes of expression texts, with the places at which they stand. Places are offsets in
bytes of the UTF-8 form of the text. The end of the text is no token of its own: it is where the
list of tokens ends. -/

namespace WhenClause

/-- The lexemes that are always spelled the same. -/
inductive Symbol where
  | andAnd
  | orOr
  | bang
  | equal
  | notEqual
  | less
  | lessEqual
  | greater
  | greaterEqual
  | leftParen
  | rightParen
  | leftBracket
  | rightBracket
  | leftBrace
  | rightBrace
  | comma
  | colon
  | dot
deriving DecidableEq

def Symbol.text : Symbol → String
  | andAnd => "&&"
  | orOr => "||"
  | bang => "!"
  | equal => "=="
  | notEqual => "!="
  | less => "<"
  | lessEqual => "<="
  | greater => ">"
  | greaterEqual => ">="
  | leftParen => "("
  | rightParen => ")"
  | leftBracket => "["
  | rightBracket => "]"
  | leftBrace => "\x7b"
  | rightBrace => "\x7d"
  | comma => ","
  | colon => ":"
  | dot => "."

/-- What a token means. -/
inductive Lexeme where
  | number (x : Number)
  | string (s : String)
  | word (name : String)
  | bool (b : Bool)
  | null
  | symbol (s : Symbol)
deriving DecidableEq

namespace Lexeme

/-- A lexeme as messages show it. -/
def describe : Lexeme → String
  | number x => "number " ++ String.ofList x.text
  | string s => "string " ++ Text.Shown.quote s
  | word name => s!"'{name}'"
  | bool b => if b then "'true'" else "'false'"
  | null => "'null'"
  | symbol s => s!"'{s.text}'"

/-- A lexeme that an expression can start with. -/
def startsTerm : Lexeme → Bool
  | number _ | string _ | word _ | bool _ | null => true
  | symbol s => s == .bang || s == .leftParen || s == .leftBracket || s == .leftBrace

/-- A lexeme that can stand before the colon of a record entry, with the key that it gives. -/
def recordKey? : Lexeme → Option String
  | word name => some name
  | string s => some s
  | bool b => some (if b then "true" else "false")
  | null => some "null"
  | _ => none

end Lexeme

/-- A lexeme and its place. -/
structure Token where
  lexeme : Lexeme
  /-- The offset of its first byte. -/
  start : Nat
  /-- The offset behind its last byte. -/
  stop : Nat
deriving DecidableEq

/-- The tokens of a text, and the offset of its end. -/
structure Tokens where
  /-- The tokens in the order of the text. -/
  list : List Token
  /-- The length of the text in bytes. -/
  stop : Nat
deriving DecidableEq

end WhenClause
