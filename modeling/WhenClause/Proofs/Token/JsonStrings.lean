import WhenClause.Proofs.Token.Respacing
import WhenClause.Proofs.Token.Strings

set_option autoImplicit false

/-! # JSON strings among the tokens

A string literal of JSON in which no character is written as two codes is one token, the string
that it means. The lexer takes each code for a character of its own, and neither half of a pair is
one, so a literal with a pair in it is refused (`tokenize_jsonLiteral`). -/

namespace WhenClause.Lexer

open Json (StringItem)

/-- The first half of a pair is no character. -/
theorem breaks_pair (item : StringItem) (h : item.isPair = true) (r : List Char) :
    Breaks (item.text ++ r) .invalidCode := by
  cases item with
  | plain | letter | code => cases h
  | pair high low hleads htrails =>
      refine .code fun k c hstarts hc => ?_
      have hdigits : k.digits = high.digits := List.prefix_iff_eq_take.mp hstarts
      have hvalue : k.value = high.value := Text.Code.value_eq_of_digits hdigits
      have hvalid : c.toNat < 0xD800 ∨ 0xDFFF < c.toNat ∧ c.toNat < 0x110000 := c.valid
      omega

/-- **The items of a JSON string are read up to its quote**, unless one of them is a pair. -/
theorem stringBody_items (items : List StringItem) (r : List Char) :
    stringBody '"' (items.flatMap StringItem.text ++ '"' :: r) =
      if items.any StringItem.isPair then .error .invalidCode
      else .ok (items.map StringItem.meaning, (items.flatMap StringItem.text).length + 1) := by
  induction items with
  | nil => exact IsContents.nil.stringBody_closed (by decide) r
  | cons item items ih =>
      rw [List.flatMap_cons, List.append_assoc, List.any_cons]
      cases hpair : item.isPair with
      | true => exact (breaks_pair item hpair _).stringBody
      | false =>
          rw [(isContents_item item hpair).stringBody, ih, Bool.false_or]
          split
          · rfl
          · simp only [Except.map, List.cons_append, List.nil_append, List.map_cons,
              List.length_append, Nat.add_assoc]

/-- **A string literal of JSON is one token, the string that it means**; one with a character that
is written as two codes is refused. -/
theorem tokenize_jsonLiteral (items : List StringItem) :
    tokenize (Json.literal items) =
      if items.any StringItem.isPair then .error (.fault .invalidCode 0)
      else
        let stop := byteLength (Json.literal items)
        .ok ⟨[⟨.string (String.ofList (items.map StringItem.meaning)), 0, stop⟩], stop⟩ := by
  have hlexeme := lexeme_of_quote (Or.inl rfl) (items.flatMap StringItem.text ++ ['"'])
  rw [stringBody_items] at hlexeme
  rw [tokenize, Json.literal]
  split
  next hpair =>
    rw [if_pos hpair] at hlexeme
    rw [scan_fault rfl hlexeme]
    rfl
  next hpair =>
    rw [if_neg hpair] at hlexeme
    rw [scan_lexeme rfl hlexeme, List.take_of_length_le (by simp), List.drop_of_length_le (by simp),
      scan_nil]
    simp [Except.map]

/-- A character beyond the sixteen-bit codes, written as the codes of its two halves. -/
def pairedFace : StringItem :=
  .pair ⟨'d', '8', '3', 'd', 0xD83D, rfl⟩ ⟨'d', 'e', '0', '0', 0xDE00, rfl⟩ (by decide) (by decide)

/-- Not every string literal of JSON is a token: one whose character is written as two codes is
read by the reader of JSON texts, and refused by the lexer. -/
theorem pairedFace_refused :
    Json.literal [pairedFace] = "\"\\ud83d\\ude00\"".toList ∧
      Json.Reader.stringBody (Json.literal [pairedFace]).tail = some (['😀'], []) ∧
      tokenize (Json.literal [pairedFace]) = .error (.fault .invalidCode 0) := by
  refine ⟨by decide, by decide +kernel, by cbv⟩

end WhenClause.Lexer
