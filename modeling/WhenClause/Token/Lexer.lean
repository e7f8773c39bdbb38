import WhenClause.Fault
import WhenClause.Text.Blank
import WhenClause.Text.Hex

set_option autoImplicit false

/-! # Cutting a text into tokens

At each place the blanks are skipped and the longest lexeme of the class that the next character
decides is taken. A lexeme is found by its meaning and by the number of characters that follow
its first one, so that every token takes at least one character and the text gets shorter. -/

namespace WhenClause.Lexer

open Decimal (isDigit natOfDigits)

/-! ## Bytes -/

-- The sum starts at the core library's zero, whatever else is imported.
attribute [local instance (high)] Zero.ofOfNat0

def byteLength (s : List Char) : Nat := (s.map Char.utf8Size).sum

/-- The rest of a text from a byte offset on, if a character starts there or the text ends. -/
def dropBytes? : Nat → List Char → Option (List Char)
  | 0, s => some s
  | _ + 1, [] => none
  | n + 1, c :: rest =>
      if c.utf8Size ≤ n + 1 then dropBytes? (n + 1 - c.utf8Size) rest else none
termination_by _ s => s.length

/-! ## Words -/

def startsWord (c : Char) : Bool :=
  ('a' ≤ c && c ≤ 'z') || ('A' ≤ c && c ≤ 'Z') || c == '_' || c == '$'

/-- A character that a word can go on with. -/
def continuesWord (c : Char) : Bool := startsWord c || isDigit c

/-- The meaning of a word: three words are literals. -/
def wordLexeme (name : String) : Lexeme :=
  if name = "true" then .bool true
  else if name = "false" then .bool false
  else if name = "null" then .null
  else .word name

/-! ## Numbers -/

def digitCount (s : List Char) : Nat := (s.takeWhile isDigit).length

/-- The parts of a numeral. -/
structure Numeral where
  negative : Bool
  /-- The digits before the point. -/
  whole : List Char
  /-- The digits after the point. -/
  part : List Char
  exponent : Int
deriving DecidableEq

def Numeral.decimal (n : Numeral) : Decimal :=
  ⟨n.negative, natOfDigits (n.whole ++ n.part), n.exponent - n.part.length⟩

/-- A point and at least one digit after it: the digits and the rest. A point with no digit after
it does not belong to the numeral. -/
def splitPart : List Char → List Char × List Char
  | '.' :: rest =>
      if 0 < digitCount rest then (rest.takeWhile isDigit, rest.dropWhile isDigit)
      else ([], '.' :: rest)
  | rest => ([], rest)

/-- An exponent marker, a sign and digits: the exponent and the rest. -/
def splitExponent : List Char → Except Fault (Int × List Char)
  | [] => .ok (0, [])
  | c :: rest =>
      if c = 'e' ∨ c = 'E' then
        let (negative, rest) := Decimal.readSign rest
        let ds := rest.takeWhile isDigit
        if ds.isEmpty then .error .malformedExponent
        else
          .ok (if negative then -(natOfDigits ds : Int) else natOfDigits ds,
            rest.dropWhile isDigit)
      else .ok (0, c :: rest)

/-- The numeral at the front of a text, and the rest. It must not run into a word. -/
def splitNumeral (s : List Char) : Except Fault (Numeral × List Char) := do
  let (negative, s) : Bool × List Char :=
    match s with
    | '-' :: rest => (true, rest)
    | rest => (false, rest)
  let whole := s.takeWhile isDigit
  let (part, s) := splitPart (s.dropWhile isDigit)
  let (exponent, s) ← splitExponent s
  if s.head?.any startsWord then .error .malformedNumber
  else .ok (⟨negative, whole, part, exponent⟩, s)

/-! ## Strings -/

def simpleEscape? (c : Char) : Option Char :=
  if c = '"' ∨ c = '\x27' ∨ c = '\\' ∨ c = '/' then some c
  else if c = 'b' then some '\x08'
  else if c = 'f' then some '\x0C'
  else if c = 'n' then some '\n'
  else if c = 'r' then some '\r'
  else if c = 't' then some '\t'
  else none

/-- The character with a code of four digits. Surrogates are no characters. -/
def codeEscape? (a b c d : Char) : Option Char := do
  let code ← Text.hexNumber? [a, b, c, d]
  if code.isValidChar then some (Char.ofNat code) else none

/-- The contents of a string whose opening quote has been read, and the number of characters up
to and with its closing quote. -/
def stringBody (quote : Char) : List Char → Except Fault (List Char × Nat)
  | [] => .error .unclosedString
  | '\\' :: 'u' :: a :: b :: c :: d :: rest =>
      match codeEscape? a b c d with
      | some decoded =>
          (stringBody quote rest).map fun (body, n) => (decoded :: body, n + 6)
      | none => .error .invalidCode
  | '\\' :: 'u' :: _ => .error .invalidCode
  | '\\' :: [] => .error .unclosedString
  | '\\' :: c :: rest =>
      match simpleEscape? c with
      | some decoded =>
          (stringBody quote rest).map fun (body, n) => (decoded :: body, n + 2)
      | none => .error (.invalidEscape c)
  | c :: rest =>
      if c = quote then .ok ([], 1)
      else (stringBody quote rest).map fun (body, n) => (c :: body, n + 1)

/-! ## Lexemes -/

def doubleSymbol? (c d : Char) : Option Symbol :=
  if c = '&' ∧ d = '&' then some .andAnd
  else if c = '|' ∧ d = '|' then some .orOr
  else if d = '=' then
    if c = '=' then some .equal
    else if c = '!' then some .notEqual
    else if c = '<' then some .lessEqual
    else if c = '>' then some .greaterEqual
    else none
  else none

def singleSymbol? (c : Char) : Option Symbol :=
  match c with
  | '(' => some .leftParen
  | ')' => some .rightParen
  | '[' => some .leftBracket
  | ']' => some .rightBracket
  | '\x7b' => some .leftBrace
  | '\x7d' => some .rightBrace
  | ',' => some .comma
  | ':' => some .colon
  | '.' => some .dot
  | '!' => some .bang
  | '<' => some .less
  | '>' => some .greater
  | _ => none

/-- The symbol at the front of a text and the number of characters after its first one. -/
def symbol? (c : Char) (rest : List Char) : Option (Symbol × Nat) :=
  match rest.head?.bind (doubleSymbol? c) with
  | some s => some (s, 1)
  | none => (singleSymbol? c).map fun s => (s, 0)

/-- A number starts here: a digit, or a minus sign before one. -/
def startsNumber (c : Char) (rest : List Char) : Bool :=
  isDigit c || (c == '-' && rest.head?.any isDigit)

/-- The lexeme that starts with the character `c`, which is not blank, and the number of
characters that it takes from `rest`. -/
def lexeme (c : Char) (rest : List Char) : Except Fault (Lexeme × Nat) :=
  match symbol? c rest with
  | some (s, n) => .ok (.symbol s, n)
  | none =>
      if c = '"' ∨ c = '\x27' then
        (stringBody c rest).map fun (body, n) => (.string (String.ofList body), n)
      else if startsNumber c rest then
        (splitNumeral (c :: rest)).map fun (numeral, after) =>
          (.number numeral.decimal.toNumber, rest.length - after.length)
      else if startsWord c then
        let more := rest.takeWhile continuesWord
        .ok (wordLexeme (String.ofList (c :: more)), more.length)
      else .error (.unexpectedCharacter c)

/-! ## Tokens -/

/-- The tokens of a text that starts at the given offset. -/
def scan (offset : Nat) : List Char → Except Rejection (List Token)
  | [] => .ok []
  | c :: rest =>
      if Text.isBlank c then scan (offset + c.utf8Size) rest
      else
        match lexeme c rest with
        | .error cause => .error (.fault cause offset)
        | .ok (l, n) =>
            let stop := offset + byteLength (c :: rest.take n)
            (scan stop (rest.drop n)).map (⟨l, offset, stop⟩ :: ·)
termination_by s => s.length
decreasing_by all_goals simp only [List.length_drop, List.length_cons]; omega

def tokenize (s : List Char) : Except Rejection Tokens :=
  (scan 0 s).map fun list => ⟨list, byteLength s⟩

end WhenClause.Lexer
