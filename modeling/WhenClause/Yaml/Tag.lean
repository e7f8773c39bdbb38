import WhenClause.Text.Hex
import WhenClause.Yaml.Cursor

set_option autoImplicit false

/-! # Tags and directives of YAML

A tag names the type of a node. It is written in full between angle brackets, or as a handle
with the end of the name, and a directive at the front of a document says what a handle stands
for. Another directive gives the version of YAML. -/

namespace WhenClause.Yaml

/-- A letter, a digit, a low line or a dash: what names of anchors, handles and directives are
made of. -/
def isNameChar (c : Char) : Bool := c.isAlphanum || c == '_' || c == '-'

/-- A tag as it is written. A tag in full has no handle. -/
structure Tag where
  /-- The handle, with its exclamation marks. -/
  handle : List Char
  /-- The rest of the name. -/
  suffix : List Char
deriving DecidableEq

/-- What a directive says. -/
inductive Directive where
  | version (major minor : Nat)
  /-- How the names of tags with this handle begin. -/
  | handle (name lead : List Char)
deriving DecidableEq

namespace Tag

/-- The tags of YAML itself begin with this. -/
def lead : List Char := "tag:yaml.org,2002:".toList

def bool : List Char := lead ++ "bool".toList

/-- A name ends before its first NUL. -/
def upToNul (name : List Char) : List Char := name.takeWhile (· ≠ '\x00')

/-- What the handles stand for that no directive has to declare. -/
def handles : List (List Char × List Char) := [(['!'], ['!']), (['!', '!'], lead)]

/-- The name of a tag, where the given handles are declared. A handle that is not declared
makes no name. -/
def name? (declared : List (List Char × List Char)) (t : Tag) : Option (List Char) :=
  if t.handle.isEmpty then some t.suffix
  else ((declared ++ handles).lookup t.handle).map (· ++ t.suffix)

/-! ## Reading -/

/-- The octet that a percent sign and two digits in base sixteen write. -/
def octet? (c : Cursor) : Option (UInt8 × Cursor) :=
  match c.rest with
  | '%' :: a :: b :: _ => (Text.hexNumber? [a, b]).map fun n => (n.toUInt8, c.skipMany 3)
  | _ => none

/-- The number of octets of the character that begins with an octet. -/
def width? (first : UInt8) : Option Nat :=
  if first < 0x80 then some 1
  else if first < 0xC0 then none
  else if first < 0xE0 then some 2
  else if first < 0xF0 then some 3
  else if first < 0xF8 then some 4
  else none

/-- The given number of octets, each of them one that continues a character. -/
def readTrail : Nat → Cursor → Option (List UInt8 × Cursor)
  | 0, c => some ([], c)
  | n + 1, c => do
      let (octet, c) ← octet? c
      if octet < 0x80 || 0xC0 ≤ octet then none
      else do
        let (more, c) ← readTrail n c
        some (octet :: more, c)

/-- A character that is written by its octets. Octets that make no character become the
replacement character. -/
def readOctets (c : Cursor) : Option (List Char × Cursor) := do
  let (first, c) ← octet? c
  let (more, c) ← readTrail ((← width? first) - 1) c
  some (((String.fromUTF8? ⟨(first :: more).toArray⟩).getD "\uFFFD").toList, c)

/-- A character that stands for itself in a tag; commas and square brackets do so in some
places only. -/
def isTagChar (brackets : Bool) (c : Char) : Bool :=
  isNameChar c || ";/?:@&=+$.!~*\x27()".toList.contains c || (brackets && ",[]".toList.contains c)

def readChars (brackets : Bool) : Nat → Cursor → Option (List Char × Cursor)
  | 0, _ => none
  | fuel + 1, c =>
      match c.rest with
      | [] => some ([], c)
      | d :: _ =>
          if d == '%' then do
            let (decoded, c) ← readOctets c
            let (more, c) ← readChars brackets fuel c
            some (decoded ++ more, c)
          else if isTagChar brackets d then do
            let (more, c) ← readChars brackets fuel c.skip
            some (d :: more, c)
          else some ([], c)

/-- A name from here on, of at least one character. -/
def readName (brackets : Bool) (c : Cursor) : Option (List Char × Cursor) := do
  let (text, after) ← readChars brackets (c.rest.length + 1) c
  if text.isEmpty then none else some (upToNul text, after)

/-- A handle: an exclamation mark and a name, perhaps none, with a mark behind it if there is
one. -/
def readHandle (c : Cursor) : Option (List Char × Cursor) :=
  if c.sees '!' then
    let name := c.skip.rest.takeWhile isNameChar
    let after := c.skip.skipMany name.length
    if after.sees '!' then some ('!' :: name ++ ['!'], after.skip) else some ('!' :: name, after)
  else none

/-- A handle that ends with the mark it begins with, or with a second one. -/
def isClosed (handle : List Char) : Bool := handle.getLast? == some '!'

/-- A tag. Where a handle is not closed by a second mark, its name belongs to the suffix. -/
def read (c : Cursor) : Option (Tag × Cursor) :=
  if c.peek? 1 == some '<' then do
    let (text, after) ← readName true (c.skipMany 2)
    if after.sees '>' then some (⟨[], text⟩, after.skip) else none
  else do
    let (handle, after) ← readHandle c
    if isClosed handle && 1 < handle.length then do
      let (text, after) ← readName false after
      some (⟨handle, text⟩, after)
    else do
      let (text, after) ← readChars false (after.rest.length + 1) after
      let suffix := handle.tail ++ upToNul text
      some (if suffix.isEmpty then ⟨[], ['!']⟩ else ⟨['!'], suffix⟩, after)

end Tag

namespace Directive

/-- A number of at most nine digits. -/
def readNumber (c : Cursor) : Option (Nat × Cursor) :=
  let digits := c.rest.takeWhile Char.isDigit
  if digits.isEmpty || 9 < digits.length then none
  else some (digits.foldl (fun n d => 10 * n + (d.toNat - 0x30)) 0, c.skipMany digits.length)

def readVersion (c : Cursor) : Option (Directive × Cursor) := do
  let (major, c) ← readNumber c
  if !c.sees '.' then none
  else do
    let (minor, c) ← readNumber c.skip
    some (.version major minor, c)

/-- The handle that a directive declares, and what it stands for. -/
def readDeclaration (c : Cursor) : Option (Directive × Cursor) := do
  let (name, c) ← Tag.readHandle c
  if !Tag.isClosed name || !(c.rest.head?.any isBlank) then none
  else do
    let (lead, c) ← Tag.readName true (c.skipWhile isBlank)
    if c.blankOrEnd 0 then some (.handle name lead, c) else none

/-- A directive, with the comment and the line break behind it. -/
def read (c : Cursor) : Option (Directive × Cursor) := do
  let name := c.skip.rest.takeWhile isNameChar
  let after := c.skip.skipMany name.length
  if !after.blankOrEnd 0 then none
  else do
    let c := after.skipWhile isBlank
    let (directive, c) ←
      if name = "YAML".toList then readVersion c
      else if name = "TAG".toList then readDeclaration c
      else none
    let c := c.skipWhile isBlank
    let c := if c.sees '#' then c.skipWhile fun d => !isBreak d else c
    if c.rest.head?.all isBreak then some (directive, c.skipLineEnd) else none

end Directive

end WhenClause.Yaml
