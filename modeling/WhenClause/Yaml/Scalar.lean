import WhenClause.Text.Hex
import WhenClause.Yaml.Cursor

set_option autoImplicit false

/-! # Scalars of YAML

The texts of plain scalars, quoted scalars and block scalars. Lines of a plain or quoted scalar
are folded: a single line break becomes a blank, and of several the first is dropped. The
functions carry a bound on the number of their steps, which the number of characters left
always meets. -/

namespace WhenClause.Yaml

/-! ## Folded white space -/

/-- White space in the middle of a scalar. -/
structure Gap where
  /-- The blanks before the first line break. -/
  blanks : List Char
  first : List Char
  more : List Char
  broken : Bool

namespace Gap

def none : Gap := ⟨[], [], [], false⟩

/-- What the white space becomes. -/
def folded (g : Gap) : List Char :=
  if g.broken then
    if g.first = ['\n'] then if g.more.isEmpty then [' '] else g.more
    else g.first ++ g.more
  else g.blanks

end Gap

/-- The white space from here on. In a plain scalar a tab must not stand where the line is still
to be indented, up to the column `indent`. -/
def readGap (indent : Nat) : Nat → Gap → Cursor → Option (Gap × Cursor)
  | 0, _, _ => none
  | fuel + 1, g, c =>
      match c.rest with
      | [] => some (g, c)
      | d :: _ =>
          if isBlank d then
            if g.broken && c.column < indent && d == '\t' then none
            else if g.broken then readGap indent fuel g c.skip
            else readGap indent fuel { g with blanks := g.blanks ++ [d] } c.skip
          else if isBreak d then
            let (kept, after) := c.skipBreak
            if g.broken then readGap indent fuel { g with more := g.more ++ kept } after
            else readGap indent fuel { g with first := kept, blanks := [], broken := true } after
          else some (g, c)

/-! ## Plain scalars -/

/-- The flow brackets and the comma. -/
def isFlowMark (c : Char) : Bool :=
  c == ',' || c == '[' || c == ']' || c == '\x7b' || c == '\x7d'

def endsPlain (inFlow : Bool) (c : Cursor) : Bool :=
  match c.rest with
  | [] => true
  | d :: _ => (d == ':' && c.blankOrEnd 1) || (inFlow && isFlowMark d)

/-- A colon that a flow mark follows cannot stand in a plain scalar inside flow brackets. -/
def strayColon (inFlow : Bool) (c : Cursor) : Bool :=
  inFlow && c.sees ':' && (c.peek? 1).any fun d => isFlowMark d || d == '?'

/-- The characters of a plain scalar up to white space or its end. -/
def readPlainRun (inFlow : Bool) : Nat → Cursor → Option (List Char × Cursor)
  | 0, _ => none
  | fuel + 1, c =>
      match c.rest with
      | [] => some ([], c)
      | d :: _ =>
          if isBlank d || isBreak d then some ([], c)
          else if strayColon inFlow c then none
          else if endsPlain inFlow c then some ([], c)
          else (readPlainRun inFlow fuel c.skip).map fun (s, after) => (d :: s, after)

/-- The rest of a plain scalar after the white space `g`: its text, whether its last white space
breaks the line, and what follows. -/
def readPlain (inFlow : Bool) (indent : Nat) (g : Gap) :
    Nat → Cursor → Option (List Char × Bool × Cursor)
  | 0, _ => none
  | fuel + 1, c =>
      if c.atDocumentMarker || c.sees '#' then some ([], g.broken, c)
      else do
        let (run, after) ← readPlainRun inFlow (fuel + 1) c
        if run.isEmpty then some ([], g.broken, after)
        else
          let kept := g.folded ++ run
          if after.rest.head?.any fun d => isBlank d || isBreak d then
            let (g, next) ← readGap indent (fuel + 1) .none after
            if !inFlow && next.column < indent then some (kept, g.broken, next)
            else do
              let (more, broken, final) ← readPlain inFlow indent g fuel next
              some (kept ++ more, broken, final)
          else some (kept, false, after)

/-! ## Quoted scalars -/

def charOfHex? (ds : List Char) : Option Char := do
  let code ← Text.hexNumber? ds
  if code.isValidChar then some (Char.ofNat code) else none

def simpleEscape? (c : Char) : Option Char :=
  match c with
  | '0' => some '\x00'
  | 'a' => some '\x07'
  | 'b' => some '\x08'
  | 't' => some '\t'
  | '\t' => some '\t'
  | 'n' => some '\n'
  | 'v' => some '\x0B'
  | 'f' => some '\x0C'
  | 'r' => some '\r'
  | 'e' => some '\x1B'
  | ' ' => some ' '
  | '"' => some '"'
  | '/' => some '/'
  | '\\' => some '\\'
  | 'N' => some '\x85'
  | '_' => some '\xA0'
  | 'L' => some '\u2028'
  | 'P' => some '\u2029'
  | _ => none

/-- The number of digits of an escape that gives a code. -/
def codeLength? (c : Char) : Option Nat :=
  match c with
  | 'x' => some 2
  | 'u' => some 4
  | 'U' => some 8
  | _ => none

/-- The character of the escape behind a backslash, and what follows. -/
def readEscape (c : Cursor) : Option (Char × Cursor) := do
  let letter ← c.rest.head?
  match codeLength? letter with
  | some n =>
      let ds := c.skip.rest.take n
      if ds.length = n then some (← charOfHex? ds, c.skip.skipMany n) else none
  | none => some (← simpleEscape? letter, c.skip)

/-- The rest of a quoted scalar, and what follows its closing quote. -/
def readQuoted (double : Bool) : Nat → Cursor → Option (List Char × Cursor)
  | 0, _ => none
  | fuel + 1, c =>
      if c.atDocumentMarker then none
      else
        match c.rest with
        | [] => none
        | d :: _ =>
            if isBlank d || isBreak d then do
              let (g, after) ← readGap 0 (fuel + 1) .none c
              let (more, final) ← readQuoted double fuel after
              some (g.folded ++ more, final)
            else if !double && d == '\x27' && c.peek? 1 == some '\x27' then do
              let (more, final) ← readQuoted double fuel (c.skipMany 2)
              some ('\x27' :: more, final)
            else if d == (if double then '"' else '\x27') then some ([], c.skip)
            else if double && d == '\\' then
              if (c.peek? 1).any isBreak then do
                let after := c.skip.skipBreak.2
                let (g, next) ←
                  readGap 0 (fuel + 1) { Gap.none with broken := true } after
                let (more, final) ← readQuoted double fuel next
                some (g.folded ++ more, final)
              else do
                let (e, after) ← readEscape c.skip
                let (more, final) ← readQuoted double fuel after
                some (e :: more, final)
            else do
              let (more, final) ← readQuoted double fuel c.skip
              some (d :: more, final)

/-! ## Block scalars -/

/-- What becomes of the line breaks at the end of a block scalar. -/
inductive Chomping where
  | strip
  | clip
  | keep
deriving DecidableEq

def chomping? (c : Option Char) : Option Chomping :=
  match c with
  | some '+' => some .keep
  | some '-' => some .strip
  | _ => none

/-- An indentation indicator, a digit from one to nine. -/
def indentation? (c : Option Char) : Option Nat :=
  c.bind fun d => if '1' ≤ d && d ≤ '9' then some (d.toNat - 0x30) else none

/-- The header of a block scalar: its indicators in either order, and a comment, up to the line
break. -/
def readHeader (c : Cursor) : Option (Chomping × Nat × Cursor) :=
  let (chomping, indentation, c) : Option Chomping × Option Nat × Cursor :=
    match chomping? c.rest.head?, indentation? c.rest.head? with
    | some k, _ =>
        match indentation? (c.peek? 1) with
        | some n => (some k, some n, c.skipMany 2)
        | none => (some k, none, c.skip)
    | none, some n =>
        match chomping? (c.peek? 1) with
        | some k => (some k, some n, c.skipMany 2)
        | none => (none, some n, c.skip)
    | none, none => (none, none, c)
  let c := c.skipWhile isBlank
  let c := if c.sees '#' then c.skipWhile fun d => !isBreak d else c
  if c.rest.head?.all isBreak then
    some (chomping.getD .clip, indentation.getD 0, c.skipLineEnd)
  else none

/-- The empty lines from here on, up to the column `indent`, or, if that is zero, as far as
blanks go; the line breaks, the deepest column, and what follows. -/
def readEmptyLines (indent : Nat) : Nat → Nat → Cursor → Option (List Char × Nat × Cursor)
  | 0, _, _ => none
  | fuel + 1, deepest, c =>
      let short : Bool := indent == 0 || c.column < indent
      match c.rest with
      | [] => some ([], max deepest c.column, c)
      | d :: _ =>
          if short && d == ' ' then readEmptyLines indent fuel deepest c.skip
          else if short && d == '\t' then none
          else if isBreak d then do
            let (kept, after) := c.skipBreak
            let (more, deepest, final) ←
              readEmptyLines indent fuel (max deepest c.column) after
            some (kept ++ more, deepest, final)
          else some ([], max deepest c.column, c)

/-- The lines of a block scalar that is indented to a column. `pending` are the line breaks not
yet written, the first of them apart, and `blankBefore` says that the line before began with a
blank. -/
def readBlockLines (literal : Bool) (indent : Nat) (chomping : Chomping) :
    Nat → List Char → List Char → Bool → Cursor → Option (List Char × Cursor)
  | 0, _, _, _, _ => none
  | fuel + 1, first, more, blankBefore, c =>
      if c.column = indent && !c.rest.isEmpty then do
        let blankHere := c.rest.head?.any isBlank
        let lead :=
          if !literal && first == ['\n'] && !blankBefore && !blankHere then
            (if more.isEmpty then [' '] else more)
          else first ++ more
        let line := c.rest.takeWhile fun d => !isBreak d
        let after := c.skipMany line.length
        let (kept, after) := after.skipBreak
        let (empty, _, next) ← readEmptyLines indent (fuel + 1) 0 after
        let (rest, final) ← readBlockLines literal indent chomping fuel kept empty blankHere next
        some (lead ++ line ++ rest, final)
      else
        match chomping with
        | .strip => some ([], c)
        | .clip => some (first, c)
        | .keep => some (first ++ more, c)

/-- The block scalar behind its indicator, in a block that is indented to the column `outer`. -/
def readBlock (literal : Bool) (outer : Int) (c : Cursor) : Option (List Char × Cursor) := do
  let (chomping, indentation, c) ← readHeader c
  let fixed := if indentation = 0 then 0 else (max outer 0).toNat + indentation
  let (empty, deepest, c) ← readEmptyLines fixed (c.rest.length + 1) 0 c
  let indent := if fixed = 0 then max (max deepest (outer + 1).toNat) 1 else fixed
  readBlockLines literal indent chomping (c.rest.length + 1) [] empty false c

end WhenClause.Yaml
