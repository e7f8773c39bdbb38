set_option autoImplicit false

/-! # Occurrences of one text in another

Positions count characters from zero. The empty text occurs at every position of every text. -/

namespace WhenClause.Text

def occursIn (needle : List Char) : List Char → Bool
  | [] => needle.isEmpty
  | c :: rest => needle.isPrefixOf (c :: rest) || occursIn needle rest

/-- The least position at which `needle` occurs in the text. -/
def indexOf? (needle : List Char) : List Char → Option Nat
  | [] => if needle.isEmpty then some 0 else none
  | c :: rest =>
      if needle.isPrefixOf (c :: rest) then some 0
      else (indexOf? needle rest).map (· + 1)

/-- The pieces of a text between the occurrences of a character; `n` occurrences give `n + 1`
pieces. -/
def splitAt (separator : Char) : List Char → List (List Char)
  | [] => [[]]
  | c :: rest =>
      if c = separator then [] :: splitAt separator rest
      else
        match splitAt separator rest with
        | [] => [[c]]
        | piece :: pieces => (c :: piece) :: pieces

/-- The text after `lead`, when the text starts with it. -/
def dropLead? : List Char → List Char → Option (List Char)
  | [], rest => some rest
  | _ :: _, [] => none
  | c :: lead, d :: rest => if c = d then dropLead? lead rest else none

end WhenClause.Text
