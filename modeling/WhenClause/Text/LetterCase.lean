import WhenClause.Text.CaseTable
import WhenClause.Text.Invisible

set_option autoImplicit false

/-! # Capitals and small letters

A text in capitals or in small letters, by the full case mappings of Unicode, in which one
character may become several. One rule looks at the surroundings: a capital sigma becomes the
final small sigma where it ends a word, that is, where a letter stands before it and none after
it, characters that case ignores left aside. -/

namespace WhenClause.Text

/-- The partner of a code point in a table of runs. -/
def runPartner? (runs : List (Nat × Nat × Nat × Int)) (n : Nat) : Option Nat :=
  runs.findSome? fun (first, last, step, shift) =>
    if first ≤ n && n ≤ last && (n - first) % step == 0 then some (n + shift).toNat else none

/-- The partner of a character: a text of its own, a single character, or itself. -/
def casePartner (texts : List (Nat × List Nat)) (runs : List (Nat × Nat × Nat × Int)) (c : Char) :
    List Char :=
  match texts.lookup c.toNat with
  | some codes => codes.map Char.ofNat
  | none =>
      match runPartner? runs c.toNat with
      | some n => [Char.ofNat n]
      | none => [c]

def upperOf (c : Char) : List Char := casePartner upperTexts upperRuns c

/-- The small letter of a character, standing alone. -/
def lowerOf (c : Char) : List Char := casePartner lowerTexts lowerRuns c

/-- The first character that case does not ignore is a letter with a case. -/
def meetsLetter (s : List Char) : Bool :=
  match s.dropWhile fun c => inRanges caseIgnorableRanges c.toNat with
  | [] => false
  | c :: _ => inRanges casedRanges c.toNat

/-- The text in small letters; `before` is what precedes it, the nearest character first. -/
def toLowerAfter (before : List Char) : List Char → List Char
  | [] => []
  | c :: rest =>
      let small :=
        if c = 'Σ' then if meetsLetter before && !meetsLetter rest then ['ς'] else ['σ']
        else lowerOf c
      small ++ toLowerAfter (c :: before) rest

def toLower (s : List Char) : List Char := toLowerAfter [] s

def toUpper (s : List Char) : List Char := s.flatMap upperOf

end WhenClause.Text
