import WhenClause.Text.Invisible
import WhenClause.Text.Quoted

set_option autoImplicit false

/-! # Strings shown in messages

A message shows a string between double quotes, with escapes for the line controls, NUL, the
backslash and the double quote, and with the code of every other character that has no shape of
its own. The form is meant to be read by people; it is not the quoted form of values. -/

namespace WhenClause.Text.Shown

/-- The code of a character in base sixteen, without leading zeros. -/
def hexText (n : Nat) : List Char := Nat.toDigits 16 n

/-- The shown form of one character. -/
def escape (c : Char) : List Char :=
  if c = '\x00' then ['\\', '0']
  else if c = '\t' then ['\\', 't']
  else if c = '\n' then ['\\', 'n']
  else if c = '\r' then ['\\', 'r']
  else if c = '"' then ['\\', '"']
  else if c = '\\' then ['\\', '\\']
  else if isInvisible c then '\\' :: 'u' :: '\x7b' :: (hexText c.toNat ++ ['\x7d'])
  else [c]

def quote (s : String) : String :=
  String.ofList ('"' :: (s.toList.flatMap escape ++ ['"']))

end WhenClause.Text.Shown
