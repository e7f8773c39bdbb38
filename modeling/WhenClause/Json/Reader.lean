import WhenClause.Json.Basic
import WhenClause.Number.Arithmetic
import WhenClause.Text.Hex

set_option autoImplicit false

/-! # Reading JSON

The reader takes exactly the texts of the JSON grammar, with a limit on how deep containers may
be nested. Of several entries of an object with one key the last counts. A number without
fraction and exponent that fits 64 bits is an integer; minus zero is a float, and so is a larger
integer. A float is read as its digits, as many as fit 64 bits, rounded to a number and scaled by
the power of ten; a float beyond the largest number is refused. -/

namespace WhenClause.Json.Reader

open Decimal (isDigit natOfDigits)
open Text (hexNumber?)

-- Powers are the core library's powers of natural numbers, whatever else is imported.
attribute [local instance (high)] instPowNat

/-- What was read, and the text left, shorter than `bound`. -/
structure Reading (α : Type) (bound : Nat) where
  result : α
  rest : List Char
  /-- Something was taken. -/
  shorter : rest.length < bound

/-! ## Blanks -/

/-- The blanks of JSON. -/
def isBlank (c : Char) : Bool := c == ' ' || c == '\t' || c == '\n' || c == '\r'

def skip (s : List Char) : List Char := s.dropWhile isBlank

theorem length_dropWhile_le {α : Type} (p : α → Bool) (s : List α) :
    (s.dropWhile p).length ≤ s.length := by
  induction s with
  | nil => simp
  | cons c s ih => rw [List.dropWhile_cons]; split <;> simp_all; omega

theorem length_skip_le (s : List Char) : (skip s).length ≤ s.length := length_dropWhile_le _ _

/-! ## Numbers -/

/-- The largest digits that are kept of a float, `2 ^ 64 - 1`. -/
def digitsBound : Nat := 2 ^ (64 : Nat)

/-- The digits of a float, read from left to right: as many as stay below the bound, and the
count of the others. -/
def keepDigits (n : Nat) : List Char → Nat × Nat
  | [] => (n, 0)
  | c :: rest =>
      let next := 10 * n + (c.toNat - 0x30)
      if next < digitsBound then keepDigits next rest else (n, rest.length + 1)

/-- The parts of a JSON number. -/
structure Numeral where
  negative : Bool
  /-- The digits before the point. -/
  whole : List Char
  /-- The digits after the point, if there is one. -/
  part : Option (List Char)
  exponent : Option Int

/-- The float of a numeral. Digits that were not kept count where they stand before the point. -/
def Numeral.float? (n : Numeral) : Option Number :=
  let (digits, dropped) := keepDigits 0 n.whole
  let (digits, places) : Nat × Nat :=
    match n.part with
    | none => (digits, 0)
    | some part =>
        let (digits, lost) := keepDigits digits part
        (digits, part.length - lost)
  let x := Number.ofNat digits
  (Number.scaleByTen x (n.exponent.getD 0 + dropped - places)).map fun y =>
    if n.negative then { y with negative := true } else y

def Numeral.value? (n : Numeral) : Option Json :=
  match n.part, n.exponent with
  | none, none =>
      let m := natOfDigits n.whole
      if n.negative then
        if 0 < m ∧ m ≤ 2 ^ (63 : Nat) then some (.integer (-(m : Int))) else n.float?.map .float
      else if m < digitsBound then some (.integer m)
      else n.float?.map .float
  | _, _ => n.float?.map .float

/-- The digits of the whole part: a zero alone, or digits that start with another one. -/
def splitWhole : List Char → Option (List Char × List Char)
  | [] => none
  | c :: rest =>
      if c = '0' then if rest.head?.any isDigit then none else some (['0'], rest)
      else if isDigit c then some (c :: rest.takeWhile isDigit, rest.dropWhile isDigit)
      else none

/-- A point and the digits after it, at least one. -/
def splitPart : List Char → Option (Option (List Char) × List Char)
  | '.' :: rest =>
      let ds := rest.takeWhile isDigit
      if ds.isEmpty then none else some (some ds, rest.dropWhile isDigit)
  | rest => some (none, rest)

/-- An exponent marker, a sign and digits, at least one. -/
def splitExponent : List Char → Option (Option Int × List Char)
  | [] => some (none, [])
  | c :: rest =>
      if c = 'e' ∨ c = 'E' then
        let (negative, rest) := Decimal.readSign rest
        let ds := rest.takeWhile isDigit
        if ds.isEmpty then none
        else
          some (some (if negative then -(natOfDigits ds : Int) else natOfDigits ds),
            rest.dropWhile isDigit)
      else some (none, c :: rest)

def splitNumeral (s : List Char) : Option (Numeral × List Char) := do
  let (negative, s) : Bool × List Char :=
    match s with
    | '-' :: rest => (true, rest)
    | rest => (false, rest)
  let (whole, s) ← splitWhole s
  let (part, s) ← splitPart s
  let (exponent, s) ← splitExponent s
  some (⟨negative, whole, part, exponent⟩, s)

/-! ## Strings -/

/-- A code in the range of the first halves of pairs. -/
def isLeading (n : Nat) : Bool := 0xD800 ≤ n && n < 0xDC00

/-- A code in the range of the second halves of pairs. -/
def isTrailing (n : Nat) : Bool := 0xDC00 ≤ n && n < 0xE000

/-- The character of a pair of codes. -/
def pairChar (high low : Nat) : Char :=
  Char.ofNat (0x10000 + (high - 0xD800) * 0x400 + (low - 0xDC00))

/-- The character that a letter after a backslash stands for. -/
def simpleEscape? (c : Char) : Option Char :=
  if c = '"' ∨ c = '\\' ∨ c = '/' then some c
  else if c = 'b' then some '\x08'
  else if c = 'f' then some '\x0C'
  else if c = 'n' then some '\n'
  else if c = 'r' then some '\r'
  else if c = 't' then some '\t'
  else none

/-- The contents of a string whose opening quote has been read, and the text behind its closing
quote. Halves of pairs must come in pairs, and controls must be escaped. -/
def stringBody : List Char → Option (List Char × List Char)
  | [] => none
  | '"' :: rest => some ([], rest)
  | '\\' :: 'u' :: a :: b :: c :: d :: rest =>
      match hexNumber? [a, b, c, d] with
      | none => none
      | some code =>
          if isTrailing code then none
          else if isLeading code then
            match rest with
            | '\\' :: 'u' :: a :: b :: c :: d :: rest =>
                match hexNumber? [a, b, c, d] with
                | some low =>
                    if isTrailing low then
                      (stringBody rest).map fun (body, after) => (pairChar code low :: body, after)
                    else none
                | none => none
            | _ => none
          else (stringBody rest).map fun (body, after) => (Char.ofNat code :: body, after)
  | '\\' :: 'u' :: _ => none
  | '\\' :: c :: rest =>
      match simpleEscape? c with
      | some decoded => (stringBody rest).map fun (body, after) => (decoded :: body, after)
      | none => none
  | c :: rest =>
      if c.toNat < 0x20 ∨ c = '\\' then none
      else (stringBody rest).map fun (body, after) => (c :: body, after)

/-! ## Values -/

/-- A value that is no container: a word, a number or a string. -/
def scalar? (s : List Char) : Option (Json × List Char) :=
  match s with
  | 'n' :: 'u' :: 'l' :: 'l' :: rest => some (.null, rest)
  | 't' :: 'r' :: 'u' :: 'e' :: rest => some (.bool true, rest)
  | 'f' :: 'a' :: 'l' :: 's' :: 'e' :: rest => some (.bool false, rest)
  | '"' :: rest => (stringBody rest).map fun (body, after) => (.string (String.ofList body), after)
  | _ => do
      let (n, rest) ← splitNumeral s
      let value ← n.value?
      return (value, rest)

/-- `scalar?` with the evidence that it took something. -/
def readScalar (s : List Char) : Option (Reading Json s.length) :=
  match scalar? s with
  | some (value, rest) => if h : rest.length < s.length then some ⟨value, rest, h⟩ else none
  | none => none

def readKey (s : List Char) : Option (Reading String s.length) :=
  match s with
  | '"' :: rest =>
      match stringBody rest with
      | some (body, after) =>
          match skip after with
          | ':' :: after =>
              if h : after.length < rest.length then
                some ⟨String.ofList body, after, Nat.lt_succ_of_lt h⟩
              else none
          | _ => none
      | none => none
  | _ => none

mutual

def readValue (depth : Nat) (s : List Char) : Option (Reading Json s.length) :=
  match h : skip s with
  | [] => none
  | c :: rest =>
      have le : rest.length + 1 ≤ s.length := by
        have := length_skip_le s; rw [h] at this; simpa only [List.length_cons] using this
      if c = '[' then
        if depth = 0 then none
        else
          match h' : skip rest with
          | ']' :: after =>
              some ⟨.array [], after, by
                have := length_skip_le rest
                rw [h'] at this; simp only [List.length_cons] at this; omega⟩
          | _ =>
              (readItems (depth - 1) rest).map fun r =>
                ⟨.array r.result, r.rest, by have := r.shorter; omega⟩
      else if c = '\x7b' then
        if depth = 0 then none
        else
          match h' : skip rest with
          | '\x7d' :: after =>
              some ⟨.object [], after, by
                have := length_skip_le rest
                rw [h'] at this; simp only [List.length_cons] at this; omega⟩
          | _ =>
              (readEntries (depth - 1) rest).map fun r =>
                ⟨.object (Dictionary.ofList r.result), r.rest, by have := r.shorter; omega⟩
      else
        (readScalar (c :: rest)).map fun r =>
          ⟨r.result, r.rest, by
            have := r.shorter; simp only [List.length_cons] at this; omega⟩
termination_by (s.length, 0)

/-- The items of an array, from the first one on, and its closing bracket. -/
def readItems (depth : Nat) (s : List Char) : Option (Reading (List Json) s.length) := do
  let item ← readValue depth s
  have shorter := item.shorter
  match h : skip item.rest with
  | ',' :: after =>
      have lt : after.length + 1 < s.length := by
        have := length_skip_le item.rest
        rw [h] at this; simp only [List.length_cons] at this; omega
      let more ← readItems depth after
      return ⟨item.result :: more.result, more.rest, by have := more.shorter; omega⟩
  | ']' :: after =>
      return ⟨[item.result], after, by
        have := length_skip_le item.rest
        rw [h] at this; simp only [List.length_cons] at this; omega⟩
  | _ => none
termination_by (s.length, 1)

/-- The entries of an object, from the first key on, and its closing brace. -/
def readEntries (depth : Nat) (s : List Char) : Option (Reading (List (String × Json)) s.length) := do
  let key ← readKey (skip s)
  have key_lt : key.rest.length < s.length :=
    Nat.lt_of_lt_of_le key.shorter (length_skip_le s)
  let value ← readValue depth key.rest
  have shorter := value.shorter
  match h : skip value.rest with
  | ',' :: after =>
      have lt : after.length + 1 < s.length := by
        have := length_skip_le value.rest
        rw [h] at this; simp only [List.length_cons] at this; omega
      let more ← readEntries depth after
      return ⟨(key.result, value.result) :: more.result, more.rest, by
        have := more.shorter; omega⟩
  | '\x7d' :: after =>
      return ⟨[(key.result, value.result)], after, by
        have := length_skip_le value.rest
        rw [h] at this; simp only [List.length_cons] at this; omega⟩
  | _ => none
termination_by (s.length, 1)

end

end WhenClause.Json.Reader

namespace WhenClause.Json

def maxDepth : Nat := 127

/-- The value of a whole text whose containers are nested at most `depth` deep. -/
def parseWithin (depth : Nat) (s : List Char) : Option Json := do
  let whole ← Reader.readValue depth s
  if (Reader.skip whole.rest).isEmpty then some whole.result else none

def parse (s : List Char) : Option Json := parseWithin maxDepth s

end WhenClause.Json
