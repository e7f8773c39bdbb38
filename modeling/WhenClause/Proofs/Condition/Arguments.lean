import WhenClause.Condition.Reading
import WhenClause.Proofs.Expression.Nodes
import WhenClause.Proofs.Json.Scalars
import WhenClause.Proofs.Number.Rounding
import WhenClause.Proofs.Text.Pieces
import WhenClause.Proofs.Token.Literals

set_option autoImplicit false

/-! # Arguments of calls that are strings

A call that is written as a string lists its arguments between parentheses. Scalars are read from
there as the values that they are, whether there is a string among them, so that the list is read
as JSON, or none, so that it is cut at its commas (`readArguments_text`). Only an integer with a
sign is taken for a text where there is none (`decoded`). A name in front is read as it stands, with
a negation before it or without one (`ofText_written`). -/

namespace WhenClause.Call

open Decimal (isDigit digitsOfNat signText natOfDigits)
open Json (Scalar)

/-! ## Written calls -/

/-- The text of a call: a name, and the JSON texts of its arguments. -/
def written (name : String) (args : List Scalar) : String :=
  name ++ "(" ++ ", ".intercalate (args.map fun a => a.json.compact) ++ ")"

/-- A name that a string can call: without blanks at its ends, a parenthesis, or a negation in
front. -/
structure IsName (name : String) : Prop where
  trimmed : Text.trim name.toList = name.toList
  plain : '(' ∉ name.toList
  bang : name.toList.head? ≠ some '!'
  negation : ¬ ['n', 'o', 't', ' '] <+: name.toList

/-- The value that an argument is read as. Where no argument is a string, the list is not read as
JSON, and an integer with a sign is taken for a text. -/
def decoded (quoted : Bool) : Scalar → Value
  | .integer i =>
      if i < 0 && !quoted then .string (String.ofList (Decimal.intText i))
      else .number (Number.ofInt i)
  | a => Value.ofJson a.json

/-- The texts of arguments, with commas between them. -/
def argumentText : List Scalar → List Char
  | [] => []
  | a :: more => Scalar.listText a more

theorem toList_written (name : String) (args : List Scalar) :
    (written name args).toList = name.toList ++ '(' :: (argumentText args ++ [')']) := by
  have hargs : (", ".intercalate (args.map fun a => a.json.compact)).toList = argumentText args := by
    cases args with
    | nil => rfl
    | cons a more =>
        rw [List.map_cons, Text.toList_intercalate, List.flatMap_map]
        rfl
  rw [written, String.toList_append, String.toList_append, String.toList_append, hargs]
  simp

/-! ## Arguments that are no strings -/

/-- A character that neither ends an argument nor is trimmed from it. -/
def isPlain (c : Char) : Bool := !Text.isBlank c && c != ',' && c != '"'

theorem isBlank_of_isPlain {c : Char} (hc : isPlain c = true) : Text.isBlank c = false := by
  simp only [isPlain, Bool.and_eq_true, Bool.not_eq_true'] at hc
  exact hc.1.1

theorem isPlain_of_isDigit {c : Char} (hc : isDigit c = true) : isPlain c = true := by
  have hcomma : c ≠ ',' := Scalar.ne_of_digit_or_sign (Or.inl hc) rfl (by decide)
  have hquote : c ≠ '"' := Scalar.ne_of_digit_or_sign (Or.inl hc) rfl (by decide)
  simp [isPlain, Lexer.isBlank_of_isDigit hc, hcomma, hquote]

/-- What is written without quotes is written in plain characters. -/
theorem isPlain_text {a : Scalar} (ha : a.isString = false) : ∀ c ∈ a.text, isPlain c = true := by
  cases a with
  | null => exact List.all_eq_true.mp rfl
  | bool b => cases b <;> exact List.all_eq_true.mp rfl
  | string s => cases ha
  | integer i =>
      intro c hc
      rw [Scalar.text_integer] at hc
      rcases List.mem_append.mp hc with hsign | hdigit
      · by_cases hi : i < 0
        · obtain rfl : c = '-' := by simpa [signText, hi] using hsign
          rfl
        · simp [signText, hi] at hsign
      · exact isPlain_of_isDigit (Decimal.isDigit_of_mem_digitsOfNat hdigit)

/-- What begins with a digit or a sign is no word. -/
theorem coerce_number {c : Char} {rest : List Char} (hc : isDigit c = true ∨ c = '-') :
    coerce (c :: rest) =
      if (c :: rest).all isDigit then
        .number (Decimal.toNumber ⟨false, natOfDigits (c :: rest), 0⟩)
      else .string (String.ofList (c :: rest)) := by
  have hne {d : Char} (hd : isDigit d = false) (hminus : d ≠ '-') (more : List Char) :
      c :: rest ≠ d :: more :=
    fun heq => Scalar.ne_of_digit_or_sign hc hd hminus (List.cons.inj heq).1
  rw [coerce, if_neg (hne rfl (by decide) _), if_neg (hne rfl (by decide) _),
    if_neg (hne rfl (by decide) _)]
  simp

theorem coerce_integer (i : Int) : coerce (Scalar.integer i).text = decoded false (.integer i) := by
  obtain ⟨c, rest, htext, hc⟩ := Scalar.text_integer_cons i
  rw [htext, coerce_number hc, ← htext, Scalar.text_integer]
  by_cases hi : i < 0
  · have hsign : (signText (i < 0) ++ digitsOfNat i.natAbs).all isDigit = false := by
      simp [signText, hi, isDigit]
    rw [hsign, ← Decimal.intText_eq]
    simp [decoded, hi]
  · have hdigits : signText (i < 0) ++ digitsOfNat i.natAbs = digitsOfNat i.natAbs := by
      simp [signText, hi]
    have hall : (digitsOfNat i.natAbs).all isDigit = true :=
      List.all_eq_true.mpr fun d hd => Decimal.isDigit_of_mem_digitsOfNat hd
    have hvalue : Number.ofInt i = Number.ofNat i.natAbs := by
      rw [Number.ofInt, Number.ofNat, decide_eq_false hi]
    rw [hdigits, hall, Decimal.natOfDigits_digitsOfNat, Decimal.toNumber_ofNat, decoded, hvalue]
    simp [hi]

/-- **A scalar that is no string is read from its text between commas.** -/
theorem coerce_text {a : Scalar} (ha : a.isString = false) : coerce a.text = decoded false a := by
  cases a with
  | null => rfl
  | bool b => cases b <;> rfl
  | string s => cases ha
  | integer i => exact coerce_integer i

theorem trim_text {a : Scalar} (ha : a.isString = false) : Text.trim a.text = a.text := by
  have hblank {c : Char} (hc : c ∈ a.text) : Text.isBlank c = false :=
    isBlank_of_isPlain (isPlain_text ha c hc)
  apply Text.trim_eq_self
  · cases hhead : a.text.head? with
    | none => rfl
    | some c => exact hblank (List.mem_of_head? hhead)
  · cases hlast : a.text.getLast? with
    | none => rfl
    | some c => exact hblank (List.mem_of_getLast? hlast)

/-! ## Lists of arguments -/

/-- Only strings are written with quotes. -/
theorem contains_text (a : Scalar) : a.text.contains '"' = a.isString := by
  cases ha : a.isString with
  | true =>
      cases a with
      | string s => rw [Scalar.text_string]; rfl
      | null | bool | integer => cases ha
  | false =>
      rw [← Bool.not_eq_true, List.contains_iff_mem]
      intro hquote
      cases isPlain_text ha '"' hquote

/-- A list of arguments has a quote in it exactly if one of them is a string. -/
theorem contains_argumentText (args : List Scalar) :
    (argumentText args).contains '"' = args.any Scalar.isString := by
  cases args with
  | nil => rfl
  | cons a more =>
      show (Scalar.listText a more).contains '"' = _
      induction more generalizing a with
      | nil => rw [Scalar.listText_nil, contains_text, List.any_cons, List.any_nil, Bool.or_false]
      | cons b more ih =>
          have hbehind : (',' :: ' ' :: Scalar.listText b more).contains '"'
              = (Scalar.listText b more).contains '"' := rfl
          rw [Scalar.listText_cons, List.contains_append, contains_text, hbehind, ih]
          rfl

/-- Without strings the commas stand between the arguments. -/
theorem splitAt_argumentText {a : Scalar} {more : List Scalar}
    (hnone : ∀ b ∈ a :: more, b.isString = false) :
    Text.splitAt ',' (argumentText (a :: more)) = a.text :: more.map fun b => ' ' :: b.text := by
  have hcomma : ∀ b ∈ a :: more, ',' ∉ b.text := by
    intro b hb hmem
    cases isPlain_text (hnone b hb) ',' hmem
  have hpieces : argumentText (a :: more)
      = a.text ++ (more.map fun b => ' ' :: b.text).flatMap (',' :: ·) := by
    rw [List.flatMap_map]
    rfl
  rw [hpieces]
  refine Text.splitAt_join (hcomma a List.mem_cons_self) (List.forall_mem_map.mpr fun b hb => ?_)
  have hb' := hcomma b (List.mem_cons_of_mem a hb)
  simpa using hb'

/-- **The arguments of a call are read from their texts**, as JSON or between commas. -/
theorem readArguments_text {args : List Scalar}
    (hfits : args.any Scalar.isString = true → ∀ a ∈ args, a.Fits) :
    readArguments (argumentText args) = .ok (args.map (decoded (args.any Scalar.isString))) := by
  cases args with
  | nil => rfl
  | cons a more =>
      rw [readArguments, contains_argumentText]
      cases hquoted : (a :: more).any Scalar.isString with
      | true =>
          have hvalue : ∀ b : Scalar, Value.ofJson b.json = decoded true b := by
            intro b
            cases b with
            | integer i => simp [decoded, Scalar.json, Value.ofJson]
            | null | bool | string => rfl
          rw [if_pos rfl, argumentText, Json.parse_items (hfits hquoted)]
          show Except.ok (((a :: more).map Scalar.json).map Value.ofJson) = _
          rw [List.map_map]
          exact congrArg Except.ok (List.map_congr_left fun b _ => hvalue b)
      | false =>
          have hnone : ∀ b ∈ a :: more, b.isString = false := by
            simpa using hquoted
          have htrimmed : (Text.trim (argumentText (a :: more))).isEmpty = false := by
            obtain ⟨c, rest, htext, -⟩ := a.text_cons
            have hc := isBlank_of_isPlain (isPlain_text (hnone a List.mem_cons_self) c
              (htext ▸ List.mem_cons_self))
            rw [argumentText, Scalar.listText, htext, List.cons_append, List.isEmpty_eq_false_iff]
            exact Text.trim_cons_ne_nil hc _
          have hvalue : ∀ b ∈ a :: more, coerce (Text.trim b.text) = decoded false b := by
            intro b hb
            rw [trim_text (hnone b hb), coerce_text (hnone b hb)]
          have hblank (s : List Char) : Text.trim (' ' :: s) = Text.trim s :=
            Text.trim_cons_blank rfl s
          rw [if_neg Bool.false_ne_true, htrimmed, if_neg Bool.false_ne_true,
            splitAt_argumentText hnone, List.map_cons, List.map_map]
          simp only [Function.comp_def, hblank]
          show Except.ok ((a :: more).map fun b => coerce (Text.trim b.text)) = _
          exact congrArg Except.ok (List.map_congr_left hvalue)

/-! ## Names and negations -/

/-- What ends with a parenthesis is no operator. -/
theorem ofName?_closed {s : List Char} (h : s.getLast? = some ')') :
    Operator.ofName? (String.ofList s) = none := by
  rw [Option.eq_none_iff_forall_ne_some]
  intro op hop
  rw [Operator.ofName?_eq_some_iff] at hop
  have hs : s = op.name.toList := by rw [hop, String.toList_ofList]
  rw [hs] at h
  cases op <;> cases h

/-- A text that begins with no blank and ends with a parenthesis. -/
structure IsClosed (s : List Char) : Prop where
  front : s.head?.any Text.isBlank = false
  last : s.getLast? = some ')'

theorem IsClosed.trim {s : List Char} (h : IsClosed s) : Text.trim s = s := by
  refine Text.trim_eq_self h.front ?_
  rw [h.last]
  rfl

/-- A negation in front of a closed text is taken off. -/
theorem splitNegation_closed {s : List Char} (h : IsClosed s) :
    splitNegation ('!' :: s) = (true, s) ∧
      splitNegation (['n', 'o', 't', ' '] ++ s) = (true, s) ∧
      (s.head? ≠ some '!' → ¬ ['n', 'o', 't', ' '] <+: s → splitNegation s = (false, s)) := by
  have hlast (lead : List Char) : (lead ++ s).getLast? = some ')' := by
    rw [List.getLast?_append, h.last]
    rfl
  refine ⟨?_, ?_, fun hbang hnot => ?_⟩
  · have hclosed : IsClosed ('!' :: s) := ⟨rfl, hlast ['!']⟩
    rw [splitNegation, hclosed.trim]
    simp only [ofName?_closed hclosed.last, Text.dropLead?, Option.any_none]
    simp [h.trim]
  · have hclosed : IsClosed (['n', 'o', 't', ' '] ++ s) := ⟨rfl, hlast _⟩
    rw [splitNegation, hclosed.trim]
    simp only [ofName?_closed hclosed.last, Text.dropLead?_append, Option.any_none]
    simp [h.trim]
  · rw [splitNegation, h.trim]
    simp only [ofName?_closed h.last, Text.dropLead?_eq_none hnot, Option.any_none]
    split
    next heq => cases heq
    next =>
      split
      · exact absurd rfl hbang
      · rfl

/-! ## Calls -/

theorem getLast?_closed (name inner : List Char) :
    (name ++ '(' :: (inner ++ [')'])).getLast? = some ')' := by
  rw [List.getLast?_append, ← List.cons_append, List.getLast?_append]
  rfl

/-- A name and a list of arguments are read as they stand. -/
theorem readBody_closed {name : List Char} (inner : List Char) (hname : Text.trim name = name)
    (hplain : '(' ∉ name) :
    readBody (name ++ '(' :: (inner ++ [')'])) =
      (readArguments inner).map fun args => (String.ofList name, args) := by
  have hall : ∀ c ∈ name, (c != '(') = true := by
    intro c hc
    have hne : c ≠ '(' := by
      rintro rfl
      exact hplain hc
    simpa using hne
  obtain ⟨htake, hdrop⟩ := Lexer.takeWhile_stop (r := '(' :: (inner ++ [')'])) hall rfl
  rw [readBody, htake, hdrop, getLast?_closed]
  show (readArguments (inner ++ [')']).dropLast).map _ = _
  rw [List.dropLast_concat, hname]

theorem isClosed_written {name : String} (hname : IsName name) (args : List Scalar) :
    IsClosed (written name args).toList := by
  rw [toList_written]
  constructor
  · have hfront := Text.head?_of_trim_eq_self hname.trimmed
    cases hcons : name.toList with
    | nil => rfl
    | cons c rest =>
        rw [hcons] at hfront
        exact hfront
  · exact getLast?_closed _ _

/-- A name without a negation in front is written without one. -/
theorem bang_written {name : String} (hname : IsName name) (args : List Scalar) :
    (written name args).toList.head? ≠ some '!' := by
  rw [toList_written]
  have hbang := hname.bang
  cases hcons : name.toList with
  | nil => simp
  | cons c rest =>
      rw [hcons] at hbang
      exact hbang

theorem negation_written {name : String} (hname : IsName name) (args : List Scalar) :
    ¬ ['n', 'o', 't', ' '] <+: (written name args).toList := by
  rw [toList_written]
  intro hlead
  rcases Nat.lt_or_ge name.toList.length 4 with hlt | hle
  · -- The parenthesis behind a shorter name would stand in the negation.
    have hopened : name.toList ++ ['('] <+: name.toList ++ '(' :: (argumentText args ++ [')']) :=
      ⟨argumentText args ++ [')'], by simp⟩
    have hshort := List.prefix_of_prefix_length_le hopened hlead (by simpa using hlt)
    have hmem : '(' ∈ ['n', 'o', 't', ' '] := hshort.subset (by simp)
    revert hmem
    decide
  · exact hname.negation (List.prefix_of_prefix_length_le hlead (List.prefix_append _ _) hle)

/-- An argument is read as the value that it is, unless it is an integer with a sign and no argument
is a string. -/
theorem decoded_eq_ofJson {quoted : Bool} {a : Scalar}
    (h : ∀ i, a = .integer i → i < 0 → quoted = true) : decoded quoted a = Value.ofJson a.json := by
  cases a with
  | null | bool | string => rfl
  | integer i =>
      rw [decoded, if_neg]
      · rfl
      · rintro hi
        simp only [Bool.and_eq_true, decide_eq_true_eq, Bool.not_eq_true'] at hi
        rw [h i rfl hi.1] at hi
        cases hi.2

/-- **A call that is written with scalars is read as the call that it is**, negated or not. Its
arguments are the values of the scalars, unless there is an integer with a sign among them and no
string. -/
theorem ofText_written {name : String} {args : List Scalar} (hname : IsName name)
    (hfits : args.any Scalar.isString = true → ∀ a ∈ args, a.Fits) :
    let values := args.map (decoded (args.any Scalar.isString))
    ofText (written name args) = .ok ⟨false, name, values⟩ ∧
      ofText ("!" ++ written name args) = .ok ⟨true, name, values⟩ ∧
      ofText ("not " ++ written name args) = .ok ⟨true, name, values⟩ ∧
      ((∀ i, .integer i ∈ args → i < 0 → args.any Scalar.isString = true) →
        values = args.map fun a => Value.ofJson a.json) := by
  intro values
  obtain ⟨hbang, hnot, hplain⟩ := splitNegation_closed (isClosed_written hname args)
  have hbody : readBody (written name args).toList = .ok (name, values) := by
    rw [toList_written, readBody_closed _ hname.trimmed hname.plain, readArguments_text hfits,
      String.ofList_toList]
    rfl
  have hread {text : String} {negated : Bool}
      (h : splitNegation text.toList = (negated, (written name args).toList)) :
      ofText text = .ok ⟨negated, name, values⟩ := by
    rw [ofText, h]
    show (readBody (written name args).toList >>= _) = _
    rw [hbody]
    rfl
  refine ⟨hread (hplain (bang_written hname args) (negation_written hname args)), hread ?_,
    hread ?_, fun hsigned => ?_⟩
  · rw [String.toList_append]
    exact hbang
  · rw [String.toList_append]
    exact hnot
  · exact List.map_congr_left fun a ha => decoded_eq_ofJson fun i hi => hsigned i (hi ▸ ha)

/-- A string with a comma in it, an integer with a sign, null and a truth value. -/
def mixedArguments : List Scalar := [.string "a,b", .integer (-3), .null, .bool true]

theorem mixedArguments_read :
    IsName "first" ∧ (mixedArguments.any Scalar.isString = true → ∀ a ∈ mixedArguments, a.Fits) ∧
      ofText "not first(\"a,b\", -3, null, true)"
        = .ok ⟨true, "first", [.string "a,b", .number (Number.ofInt (-3)), .null, .bool true]⟩ := by
  have hname : IsName "first" := ⟨by decide, by decide, by decide, by decide⟩
  have hfits : ∀ a ∈ mixedArguments, a.Fits := by
    simp [mixedArguments, Scalar.Fits]
  have hwritten : "not " ++ written "first" mixedArguments
      = "not first(\"a,b\", -3, null, true)" := by decide
  obtain ⟨-, -, hnot, -⟩ := ofText_written hname fun _ => hfits
  rw [hwritten] at hnot
  exact ⟨hname, fun _ => hfits, hnot⟩

/-- An integer with a sign is read as a text where no argument is a string, and as a number where
one is. -/
theorem signed_integer_read_as_text :
    written "first" [.integer (-3)] = "first(-3)" ∧
      ofText "first(-3)" = .ok ⟨false, "first", [.string "-3"]⟩ ∧
      ofText "first(-3, \"\")"
        = .ok ⟨false, "first", [.number (Number.ofInt (-3)), .string ""]⟩ := by
  refine ⟨by decide, rfl, by cbv⟩

end WhenClause.Call
