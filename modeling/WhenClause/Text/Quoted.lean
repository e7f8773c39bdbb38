import WhenClause.Text.Hex

set_option autoImplicit false

/-! # Quoted strings

The written form of a string inside a value: between double quotes, with a backslash before
a double quote or a backslash, and the controls below U+0020 written as escapes. Every other
character stands for itself. This is also how JSON texts write strings. -/

namespace WhenClause.Text.Quoted

/-- The written form of one character. Five controls have an escape letter of their own; the
others are written with four digits in base sixteen. -/
def escape (c : Char) : List Char :=
  if c = '"' then ['\\', '"']
  else if c = '\\' then ['\\', '\\']
  else if c = '\x08' then ['\\', 'b']
  else if c = '\x0C' then ['\\', 'f']
  else if c = '\n' then ['\\', 'n']
  else if c = '\r' then ['\\', 'r']
  else if c = '\t' then ['\\', 't']
  else if c.toNat < 0x20 then
    ['\\', 'u', '0', '0', hexDigit (c.toNat / 16), hexDigit (c.toNat % 16)]
  else [c]

/-- The characters of a string between the quotes. -/
def body (s : List Char) : List Char := s.flatMap escape

/-- The written form of a string. -/
def encode (s : List Char) : List Char := '"' :: (body s ++ ['"'])

def quote (s : String) : String := String.ofList (encode s.toList)

end WhenClause.Text.Quoted
