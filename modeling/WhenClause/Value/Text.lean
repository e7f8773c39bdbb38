import WhenClause.Number.Shortest
import WhenClause.Text.Quoted
import WhenClause.Value.Basic

set_option autoImplicit false

/-! # Values as texts

The text of a value is an expression for it where there is one: numbers are written with the
fewest digits that read back, strings are quoted, arrays and records are bracketed without
blanks. Functions and handles have no such text, and how they are written is left open, because
there are two uses: messages show a label, and the keys under which results are remembered show
the identity. -/

namespace WhenClause

/-- The text of a number inside a value. The two zeros are equal and share a text. -/
def Number.valueText (x : Number) : List Char :=
  match x.shortInt? with
  | some i => Decimal.intText i
  | none => x.text

namespace Value

/-- How the values that no expression stands for are written. -/
structure Labels where
  function : Nat → List Char
  handle : Handle → List Char

mutual

def write (labels : Labels) : Value → List Char
  | .null => ['n', 'u', 'l', 'l']
  | .bool b => if b then ['t', 'r', 'u', 'e'] else ['f', 'a', 'l', 's', 'e']
  | .number x => x.valueText
  | .string s => Text.Quoted.encode s.toList
  | .array [] => ['[', ']']
  | .array (item :: items) => '[' :: (write labels item ++ writeItems labels items)
  | .record [] => ['\x7b', '\x7d']
  | .record ((key, item) :: fields) =>
      '\x7b' :: (Text.Quoted.encode key.toList ++ ':' :: (write labels item ++
        writeFields labels fields))
  | .function serial _ _ => labels.function serial
  | .handle h => labels.handle h

/-- Further items of an array, each after a comma, and the closing bracket. -/
def writeItems (labels : Labels) : List Value → List Char
  | [] => [']']
  | item :: items => ',' :: (write labels item ++ writeItems labels items)

/-- Further fields of a record, each after a comma, and the closing brace. -/
def writeFields (labels : Labels) : List (String × Value) → List Char
  | [] => ['\x7d']
  | (key, item) :: fields =>
      ',' :: (Text.Quoted.encode key.toList ++ ':' :: (write labels item ++
        writeFields labels fields))

end

/-- Messages show a function as such, and a handle by the label of its kind. -/
def shown : Labels where
  function _ := "[function]".toList
  handle h := '[' :: (h.typeName.toList ++ [']'])

/-- Keys show the identity of functions and handles. -/
def identifying : Labels where
  function serial := "#fn@".toList ++ Decimal.digitsOfNat serial
  handle h :=
    "#obj@".toList ++ Decimal.digitsOfNat h.serial ++
      Text.Quoted.encode h.typeName.toList ++ Text.Quoted.encode h.subject.toList

/-- The text of a value in messages. -/
def text (v : Value) : String := String.ofList (v.write shown)

/-- The text of a value that tells it from every value that is not equal to it. -/
def canonical (v : Value) : List Char := v.write identifying

end Value

end WhenClause
