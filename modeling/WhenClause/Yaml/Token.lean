import WhenClause.Yaml.Scalar
import WhenClause.Yaml.Tag

set_option autoImplicit false

/-! # Tokens of YAML

The tokens of a YAML text. Blocks have no brackets in the text: they begin where a dash or a key
stands further to the right than the block around it, and they end where a line starts further
to the left, and the tokens say so. A key is recognised only by the colon behind it, so its token
is put in front of tokens that were found before. -/

namespace WhenClause.Yaml

/-- How a scalar is written. -/
inductive Style where
  | plain
  | quoted
  | literal
  | folded
deriving DecidableEq

/-- A token. -/
inductive Token where
  | directive (d : Directive)
  | documentStart
  | documentEnd
  | sequenceStart
  | mappingStart
  | blockEnd
  | flowSequenceStart
  | flowSequenceEnd
  | flowMappingStart
  | flowMappingEnd
  | entry
  | comma
  | key
  | value
  | reference (name : List Char)
  | anchor (name : List Char)
  | tag (t : Tag)
  | scalar (style : Style) (text : List Char)
deriving DecidableEq

/-- A place where a key may have begun. -/
structure KeyPlace where
  /-- The number of tokens before it. -/
  token : Nat
  cursor : Cursor
  /-- A key must begin here, because the line is not indented further than its block. -/
  required : Bool

/-- What has been found so far. -/
structure Scan where
  cursor : Cursor
  /-- The tokens, the last one first. -/
  tokens : List Token
  /-- For the block and for each open flow bracket, the innermost first, where a key may have
  begun. -/
  keys : List (Option KeyPlace)
  keyAllowed : Bool
  /-- The column of the block, minus one outside of all blocks. -/
  indent : Int
  /-- The columns of the blocks around it. -/
  indents : List Int

namespace Scan

def start (s : List Char) : Scan where
  cursor := Cursor.start s
  tokens := []
  keys := [none]
  keyAllowed := true
  indent := -1
  indents := []

/-- Some flow bracket is open. -/
def inFlow (s : Scan) : Bool := 1 < s.keys.length

/-- The place where a key may have begun, in the innermost bracket. -/
def keyPlace? (s : Scan) : Option KeyPlace := s.keys.head?.join

/-- No key has begun in the innermost bracket; none may have had to. -/
def forgetKey (s : Scan) : Option Scan :=
  if s.keyPlace?.any KeyPlace.required then none
  else some { s with keys := none :: s.keys.tail }

/-- A key may begin here, if keys are allowed. -/
def noteKey (s : Scan) : Option Scan :=
  if s.keyAllowed then do
    let s ← s.forgetKey
    let required := !s.inFlow && s.indent == (s.cursor.column : Int)
    some { s with keys := some ⟨s.tokens.length, s.cursor, required⟩ :: s.keys.tail }
  else some s

def maxKeyLength : Nat := 1024

/-- Keys end on their line and are not too long: a place further back is none. -/
def dropStaleKeys (s : Scan) : Option Scan := do
  let keys ← s.keys.mapM fun place =>
    match place with
    | none => some none
    | some p =>
        if p.cursor.line < s.cursor.line || p.cursor.index + maxKeyLength < s.cursor.index then
          if p.required then none else some none
        else some (some p)
  some { s with keys := keys }

/-- A token put in front of the tokens found since there were `n`. -/
def insertAt (s : Scan) (n : Nat) (t : Token) : Scan :=
  let since := s.tokens.length - n
  { s with tokens := s.tokens.take since ++ t :: s.tokens.drop since }

/-- A block begins at a column, if that is further to the right than the block around it. -/
def openBlock (s : Scan) (column : Nat) (n : Nat) (t : Token) : Scan :=
  if !s.inFlow && s.indent < (column : Int) then
    let s := s.insertAt n t
    { s with indent := column, indents := s.indent :: s.indents }
  else s

/-- The blocks that are indented further than a column end. -/
def closeBlocks (column : Int) : List Int → Scan → Scan
  | outer :: rest, s =>
      if column < s.indent then
        closeBlocks column rest { s with tokens := .blockEnd :: s.tokens, indent := outer, indents := rest }
      else s
  | [], s => s

/-- `closeBlocks`, outside of flow brackets. -/
def unroll (s : Scan) (column : Int) : Scan :=
  if s.inFlow then s else closeBlocks column s.indents s

/-- Behind white space, comments and byte order marks. Outside of flow brackets a key may begin on a
new line, and where one may begin, tabs are no white space. -/
def skipGap : Nat → Scan → Scan
  | 0, s => s
  | fuel + 1, s =>
      let c := s.cursor
      match c.rest with
      | [] => s
      | d :: _ =>
          if d == byteOrderMark && c.column == 0 then skipGap fuel { s with cursor := c.skip }
          else if d == ' ' || (d == '\t' && (s.inFlow || !s.keyAllowed)) then
            skipGap fuel { s with cursor := c.skip }
          else if d == '#' then
            skipGap fuel { s with cursor := c.skipWhile fun e => !isBreak e }
          else if isBreak d then
            skipGap fuel { s with cursor := c.skipBreak.2, keyAllowed := s.keyAllowed || !s.inFlow }
          else s

/-! ## Single tokens -/

def marker (s : Scan) (t : Token) : Option Scan := do
  let s ← (s.unroll (-1)).forgetKey
  some { s with tokens := t :: s.tokens, keyAllowed := false, cursor := s.cursor.skipMany 3 }

def directive (s : Scan) : Option Scan := do
  let s ← (s.unroll (-1)).forgetKey
  let (d, after) ← Directive.read s.cursor
  some { s with tokens := .directive d :: s.tokens, keyAllowed := false, cursor := after }

def openFlow (s : Scan) (t : Token) : Option Scan := do
  let s ← s.noteKey
  some { s with
    tokens := t :: s.tokens, keys := none :: s.keys, keyAllowed := true, cursor := s.cursor.skip }

def closeFlow (s : Scan) (t : Token) : Option Scan := do
  let s ← s.forgetKey
  let keys := if s.inFlow then s.keys.tail else s.keys
  some { s with
    tokens := t :: s.tokens, keys := keys, keyAllowed := false, cursor := s.cursor.skip }

/-- A comma. -/
def flowEntry (s : Scan) : Option Scan := do
  let s ← s.forgetKey
  some { s with tokens := .comma :: s.tokens, keyAllowed := true, cursor := s.cursor.skip }

/-- A dash before an item. -/
def blockEntry (s : Scan) : Option Scan := do
  if !s.inFlow && !s.keyAllowed then none
  else
    let s := s.openBlock s.cursor.column s.tokens.length .sequenceStart
    let s ← s.forgetKey
    some { s with tokens := .entry :: s.tokens, keyAllowed := true, cursor := s.cursor.skip }

/-- A question mark before a key. -/
def explicitKey (s : Scan) : Option Scan := do
  if !s.inFlow && !s.keyAllowed then none
  else
    let s := s.openBlock s.cursor.column s.tokens.length .mappingStart
    let s ← s.forgetKey
    some { s with tokens := .key :: s.tokens, keyAllowed := !s.inFlow, cursor := s.cursor.skip }

/-- A colon behind a key. -/
def mappingValue (s : Scan) : Option Scan :=
  match s.keyPlace? with
  | some place =>
      let s := s.insertAt place.token .key
      let s := s.openBlock place.cursor.column place.token .mappingStart
      some { s with
        tokens := .value :: s.tokens, keys := none :: s.keys.tail, keyAllowed := false,
        cursor := s.cursor.skip }
  | none =>
      if !s.inFlow && !s.keyAllowed then none
      else
        let s := s.openBlock s.cursor.column s.tokens.length .mappingStart
        some { s with
          tokens := .value :: s.tokens, keyAllowed := !s.inFlow, cursor := s.cursor.skip }

def anchorOrReference (s : Scan) (make : List Char → Token) : Option Scan := do
  let s ← s.noteKey
  let name := s.cursor.skip.rest.takeWhile isNameChar
  let after := s.cursor.skip.skipMany name.length
  let ends := after.blankOrEnd 0 ||
    after.rest.head?.any fun d => "?:,]\x7d%@\x60".toList.contains d
  if name.isEmpty || !ends then none
  else some { s with tokens := make name :: s.tokens, keyAllowed := false, cursor := after }

/-- A tag. White space follows it, or a comma between flow brackets. -/
def tag (s : Scan) : Option Scan := do
  let s ← s.noteKey
  let (t, after) ← Tag.read s.cursor
  if after.blankOrEnd 0 || (s.inFlow && after.sees ',') then
    some { s with tokens := .tag t :: s.tokens, keyAllowed := false, cursor := after }
  else none

def blockScalar (s : Scan) (literal : Bool) : Option Scan := do
  let s ← s.forgetKey
  let (text, after) ← readBlock literal s.indent s.cursor.skip
  let style := if literal then Style.literal else Style.folded
  some { s with tokens := .scalar style text :: s.tokens, keyAllowed := true, cursor := after }

def quotedScalar (s : Scan) (double : Bool) : Option Scan := do
  let s ← s.noteKey
  let c := s.cursor.skip
  let (text, after) ← readQuoted double (c.rest.length + 1) c
  some { s with tokens := .scalar .quoted text :: s.tokens, keyAllowed := false, cursor := after }

def plainScalar (s : Scan) : Option Scan := do
  let s ← s.noteKey
  let c := s.cursor
  let (text, broken, after) ←
    readPlain s.inFlow (s.indent + 1).toNat .none (c.rest.length + 1) c
  some { s with tokens := .scalar .plain text :: s.tokens, keyAllowed := broken, cursor := after }

def startsPlain (s : Scan) (d : Char) : Bool :=
  !isBlank d && !"-?:,[]\x7b\x7d#&*!|>\x27\"%@\x60".toList.contains d ||
    (d == '-' && !((s.cursor.peek? 1).any isBlank)) ||
    (!s.inFlow && (d == '?' || d == ':') && !s.cursor.blankOrEnd 1)

/-- The next token, which starts with the character `d`. -/
def token (s : Scan) (d : Char) : Option Scan :=
  let c := s.cursor
  if c.column == 0 && d == '%' then s.directive
  else if c.atMarker '-' then s.marker .documentStart
  else if c.atMarker '.' then s.marker .documentEnd
  else if d == '[' then s.openFlow .flowSequenceStart
  else if d == '\x7b' then s.openFlow .flowMappingStart
  else if d == ']' then s.closeFlow .flowSequenceEnd
  else if d == '\x7d' then s.closeFlow .flowMappingEnd
  else if d == ',' then s.flowEntry
  else if d == '-' && c.blankOrEnd 1 then s.blockEntry
  else if d == '?' && (s.inFlow || c.blankOrEnd 1) then s.explicitKey
  else if d == ':' && (s.inFlow || c.blankOrEnd 1) then s.mappingValue
  else if d == '*' then s.anchorOrReference .reference
  else if d == '&' then s.anchorOrReference .anchor
  else if d == '!' then s.tag
  else if d == '|' && !s.inFlow then s.blockScalar true
  else if d == '>' && !s.inFlow then s.blockScalar false
  else if d == '\x27' then s.quotedScalar false
  else if d == '"' then s.quotedScalar true
  else if s.startsPlain d then s.plainScalar
  else none

/-- All tokens. Each step takes at least one character. -/
def run : Nat → Scan → Option (List Token)
  | 0, _ => none
  | fuel + 1, s => do
      let s := skipGap (fuel + 1) s
      let s ← s.dropStaleKeys
      match s.cursor.rest with
      | [] => do
          let s ← (s.unroll (-1)).forgetKey
          some s.tokens.reverse
      | d :: _ => run fuel (← (s.unroll s.cursor.column).token d)

end Scan

def tokenize (s : List Char) : Option (List Token) :=
  if s.all isPrintable then Scan.run (s.length + 1) (Scan.start s) else none

end WhenClause.Yaml
