import Mathlib.Tactic.SplitIfs
import WhenClause.Proofs.Token.Strings

set_option autoImplicit false

/-! # Quoted strings are read back

The lexer reads the quoted form of a string as that string and stops behind its closing quote,
whatever text follows (`stringBody_body`). A quoted string can therefore be cut off the front of
a text in one way only (`encode_append_inj`). -/

namespace WhenClause.Text.Quoted

open Lexer (stringBody)

theorem escape_ne_nil (c : Char) : escape c ≠ [] := by
  unfold escape
  split_ifs <;> exact List.cons_ne_nil _ _

/-- **Reading a quoted string** from behind its opening quote gives its contents and their length
with the closing quote. -/
theorem stringBody_body (s rest : List Char) :
    stringBody '"' (body s ++ '"' :: rest) = .ok (s, (body s).length + 1) :=
  (Lexer.isContents_body s).stringBody_closed (by decide) rest

/-- A quoted string in front of a text determines its contents and the text. -/
theorem encode_append_inj {s t r u : List Char} (h : encode s ++ r = encode t ++ u) :
    s = t ∧ r = u := by
  have hbody : body s ++ '"' :: r = body t ++ '"' :: u := by simpa [encode] using h
  -- Both sides are read, and a text is read in one way only.
  have hread := congrArg (stringBody '"') hbody
  rw [stringBody_body, stringBody_body] at hread
  obtain ⟨rfl, -⟩ := Prod.mk.inj (Except.ok.inj hread)
  exact ⟨rfl, List.append_cancel_left h⟩

end WhenClause.Text.Quoted
