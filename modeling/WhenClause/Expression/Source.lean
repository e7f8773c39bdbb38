import WhenClause.Error
import WhenClause.Expression.Parser
import WhenClause.Token.Lexer

set_option autoImplicit false

/-! # Expression texts

An expression is read from a text in two steps, by cutting the text into tokens and by reading
the tokens. Where either step fails, the error shows the text near the place of the fault, or the
argument list in which a stray token was found. -/

namespace WhenClause.Source

/-- How many characters of the text a message shows. -/
def fragmentLength : Nat := 40

/-- The text from an offset on, without trailing blanks and cut to `fragmentLength` characters. -/
def fragment (source : List Char) (position : Nat) : List Char :=
  let rest := Text.trimEnd ((Lexer.dropBytes? position source).getD [])
  if fragmentLength < rest.length then rest.take fragmentLength ++ ['.', '.', '.'] else rest

def opens (c : Char) : Bool := c == '(' || c == '[' || c == '\x7b'

def closes (c : Char) : Bool := c == ')' || c == ']' || c == '\x7d'

/-- The text up to the parenthesis that closes the list, with `depth` brackets open; inside a
string `quote` holds the character that ends it. Without such a parenthesis the list runs to the
end of the text. -/
def upToClosing (depth : Nat) (quote : Option Char) : List Char → List Char
  | [] => []
  | c :: rest =>
      match quote with
      | some q =>
          if c = '\\' then
            match rest with
            | [] => [c]
            | d :: rest => c :: d :: upToClosing depth quote rest
          else c :: upToClosing depth (if c = q then none else quote) rest
      | none =>
          if c = '"' ∨ c = '\x27' then c :: upToClosing depth (some c) rest
          else if opens c then c :: upToClosing (depth + 1) none rest
          else if closes c && 0 < depth then c :: upToClosing (depth - 1) none rest
          else if c = ')' then []
          else c :: upToClosing depth none rest

/-- The text of the argument list that begins at an offset. -/
def argumentText (source : List Char) (opening : Nat) : List Char :=
  Text.trim (upToClosing 0 none ((Lexer.dropBytes? opening source).getD []))

def errorOf (source : List Char) : Rejection → Error
  | .fault cause position =>
      .malformed cause.message (String.ofList (fragment source position)) position
  | .arguments opening found =>
      .argumentParse (String.ofList (argumentText source opening))
        s!"Expected ',' or ')', found {found.describe}"

/-- The expression of a text, with the reason of a rejection. -/
def read (source : List Char) : Except Rejection Expression :=
  Lexer.tokenize source >>= Parser.readAll

end WhenClause.Source

namespace WhenClause

def Expression.parse (text : String) : Except Error Expression :=
  (Source.read text.toList).mapError (Source.errorOf text.toList)

end WhenClause
