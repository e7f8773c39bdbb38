set_option autoImplicit false

/-! # Places in a YAML text

YAML is laid out by lines and columns. A cursor is the rest of a text with the place where it
starts. Columns count characters, and the length of a text is counted in bytes. Line breaks are
carriage return, line feed, both in this order, next line, and the line and paragraph separators of
Unicode. -/

namespace WhenClause.Yaml

/-- The rest of a text and its place. -/
structure Cursor where
  rest : List Char
  /-- The number of bytes before it in UTF-8. -/
  index : Nat
  line : Nat
  /-- The number of characters before it on its line. -/
  column : Nat

/-- A character that breaks lines. -/
def isBreak (c : Char) : Bool :=
  c == '\n' || c == '\r' || c == '\x85' || c == '\u2028' || c == '\u2029'

/-- A blank or a tab. -/
def isBlank (c : Char) : Bool := c == ' ' || c == '\t'

/-- The byte order mark. At the start of a line it is no part of the contents. -/
def byteOrderMark : Char := '\uFEFF'

/-- A character that YAML texts may hold. -/
def isPrintable (c : Char) : Bool :=
  let n := c.toNat
  n == 0x09 || n == 0x0A || n == 0x0D || (0x20 ≤ n && n ≤ 0x7E) || n == 0x85 ||
    (0xA0 ≤ n && n ≤ 0xFFFD) || 0x10000 ≤ n

-- The sum starts at the core library's zero, whatever else is imported.
attribute [local instance (high)] Zero.ofOfNat0

def byteLength (s : List Char) : Nat := (s.map Char.utf8Size).sum

namespace Cursor

def start (s : List Char) : Cursor := ⟨s, 0, 0, 0⟩

def peek? (c : Cursor) (distance : Nat) : Option Char := (c.rest.drop distance).head?

def sees (c : Cursor) (d : Char) : Bool := c.rest.head? == some d

/-- At the given distance there is a blank, a line break, or the end. -/
def blankOrEnd (c : Cursor) (distance : Nat) : Bool :=
  (c.peek? distance).all fun d => isBlank d || isBreak d

/-- Behind the next `n` characters, none of them a line break. -/
def skipMany (c : Cursor) (n : Nat) : Cursor :=
  ⟨c.rest.drop n, c.index + byteLength (c.rest.take n), c.line, c.column + n⟩

/-- Behind the next character, which is no line break. -/
def skip (c : Cursor) : Cursor := c.skipMany 1

/-- Behind the line break that comes next, with the break as a text keeps it. -/
def skipBreak (c : Cursor) : List Char × Cursor :=
  match c.rest with
  | '\r' :: '\n' :: rest => (['\n'], ⟨rest, c.index + 2, c.line + 1, 0⟩)
  | d :: rest =>
      let kept := if d = '\u2028' ∨ d = '\u2029' then [d] else ['\n']
      (kept, ⟨rest, c.index + d.utf8Size, c.line + 1, 0⟩)
  | [] => ([], c)

/-- Behind the characters that satisfy a condition, none of them a line break. -/
def skipWhile (c : Cursor) (p : Char → Bool) : Cursor :=
  c.skipMany (c.rest.takeWhile p).length

/-- Behind a line break, if there is one. -/
def skipLineEnd (c : Cursor) : Cursor :=
  if c.rest.head?.any isBreak then c.skipBreak.2 else c

/-- A marker of three characters between documents starts here. -/
def atMarker (c : Cursor) (d : Char) : Bool :=
  c.column == 0 && c.rest.take 3 == [d, d, d] && c.blankOrEnd 3

def atDocumentMarker (c : Cursor) : Bool := c.atMarker '-' || c.atMarker '.'

end Cursor

end WhenClause.Yaml
