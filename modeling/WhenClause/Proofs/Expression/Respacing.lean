import WhenClause.Proofs.Evaluation.Equations
import WhenClause.Proofs.Token.Respacing

set_option autoImplicit false

/-! # Blanks between tokens do not matter

A text that is spaced in another way is read as the same expression, or rejected for the same
reason, and only the place that the error shows may differ (`Expression.parse_respaced`). So a text
may be cut into lines between its tokens. -/

namespace WhenClause

/-- An error without the place and the text that it shows. -/
def Error.unplaced : Error → Error
  | .malformed message _ _ => .malformed message "" 0
  | .argumentParse _ message => .argumentParse "" message
  | e => e

/-- Outcomes that are the same up to their errors. -/
theorem mapError_eq_cases {ε ε' α : Type} {f : ε → ε'} {x y : Except ε α}
    (h : x.mapError f = y.mapError f) :
    (∃ a, x = .ok a ∧ y = .ok a) ∨ ∃ e e', x = .error e ∧ y = .error e' ∧ f e = f e' := by
  match x, y with
  | .ok a, .ok b =>
      cases h
      exact Or.inl ⟨a, rfl, rfl⟩
  | .error e, .error e' => exact Or.inr ⟨e, e', rfl, rfl, Except.error.inj h⟩
  | .ok _, .error _ => cases h
  | .error _, .ok _ => cases h

/-- Rejections for the same reason make the same errors, up to what they show. -/
theorem Source.errorOf_unplaced {r r' : Rejection} (h : r.unplaced = r'.unplaced)
    (source source' : List Char) :
    (errorOf source r).unplaced = (errorOf source' r').unplaced := by
  match r, r' with
  | .fault _ _, .fault _ _ =>
      obtain ⟨rfl, -⟩ := Rejection.fault.inj h
      rfl
  | .arguments _ _, .arguments _ _ =>
      obtain ⟨-, rfl⟩ := Rejection.arguments.inj h
      rfl
  | .fault _ _, .arguments _ _ => cases h
  | .arguments _ _, .fault _ _ => cases h

namespace Expression

open Lexer (Respaced)

/-- Tokens that are alike are read as the same expression, or rejected alike. -/
theorem parse_of_alike {text text' : String} {ts ts' : List Token}
    (h : Lexer.scan 0 text.toList = .ok ts) (h' : Lexer.scan 0 text'.toList = .ok ts')
    (halike : Parser.Alike ts ts') :
    (parse text).mapError Error.unplaced = (parse text').mapError Error.unplaced := by
  have hread : Source.read text.toList = Parser.readAll ⟨ts, Lexer.byteLength text.toList⟩ := by
    rw [Source.read, Lexer.tokenize, h]
    rfl
  have hread' : Source.read text'.toList = Parser.readAll ⟨ts', Lexer.byteLength text'.toList⟩ := by
    rw [Source.read, Lexer.tokenize, h']
    rfl
  rw [parse, parse, hread, hread']
  rcases mapError_eq_cases halike.readAll with ⟨e, he, he'⟩ | ⟨r, r', hr, hr', hsame⟩
  · rw [he, he']
    rfl
  · rw [hr, hr']
    exact congrArg Except.error (Source.errorOf_unplaced hsame _ _)

/-- **Blanks between tokens do not matter.** A text that is spaced in another way is the same
expression or fails with the same error, up to what the error shows of the text. In lines, such a
text is checked as the text is. -/
theorem parse_respaced {text text' : String} (h : Respaced none text.toList text'.toList) :
    (parse text).mapError Error.unplaced = (parse text').mapError Error.unplaced ∧
    ∀ lines : List String, " ".intercalate lines = text' →
      ∀ (m : Type → Type) [Monad m] [LawfulMonad m] (host : Host m),
        (∃ e, parse text = .ok e ∧ parse text' = .ok e ∧
          (Predicate.lines lines).check host = (Predicate.text text).check host) ∨
        ∃ err err', parse text = .error err ∧ parse text' = .error err' ∧
          err.unplaced = err'.unplaced ∧ (Predicate.text text).check host = throw err ∧
          (Predicate.lines lines).check host = throw err' := by
  obtain ⟨ts, ts', hts, hts', halike, -⟩ := h.scan 0 0
  have hparse : (parse text).mapError Error.unplaced = (parse text').mapError Error.unplaced :=
    parse_of_alike hts hts' halike
  refine ⟨hparse, ?_⟩
  rintro lines rfl m _ _ host
  rcases mapError_eq_cases hparse with ⟨e, he, he'⟩ | ⟨err, err', herr, herr', hsame⟩
  · refine Or.inl ⟨e, he, he', ?_⟩
    exact (checkText_of_parse host he').trans (checkText_of_parse host he).symm
  · exact Or.inr ⟨err, err', herr, herr', hsame, checkText_of_error host herr,
      checkText_of_error host herr'⟩

/-- A text and the same text with other blanks. The word `not` stays separated from the name. -/
theorem respaced_negation : Respaced none "not x()".toList "\tnot\u3000x( )".toList := by
  have hgap (c : Char) (hc : Text.isBlank c = true) : Lexer.IsGap [c] := by
    simpa [Lexer.IsGap] using hc
  have hnone : Lexer.IsGap [] := List.forall_mem_nil _
  have hclose : Respaced (some (.symbol .leftParen)) [')'] [' ', ')'] :=
    @Respaced.token _ [] [' '] [] [] ')' _ 0 hnone (hgap _ rfl) (by simp) (by simp) rfl rfl
      (.done hnone hnone)
  have hopen : Respaced (some (.word "x")) ['(', ')'] ['(', ' ', ')'] :=
    @Respaced.token _ [] [] [')'] _ '(' _ 0 hnone hnone (by simp) (by simp) rfl rfl hclose
  have hname : Respaced (some (.word "not")) [' ', 'x', '(', ')'] ['\u3000', 'x', '(', ' ', ')'] :=
    @Respaced.token _ [' '] ['\u3000'] ['(', ')'] _ 'x' _ 0 (hgap _ rfl) (hgap _ rfl) (by simp)
      (by simp) rfl rfl hopen
  exact @Respaced.token _ [] ['\t'] ['o', 't', ' ', 'x', '(', ')'] _ 'n' _ 2 hnone (hgap _ rfl)
    (by simp) (by simp) rfl rfl hname

theorem negation_respaced : Respaced none "not x()".toList "\tnot\u3000x( )".toList ∧
    ∀ (m : Type → Type) [Monad m] [LawfulMonad m] (host : Host m),
      (Predicate.lines ["\tnot\u3000x(", ")"]).check host
        = (Predicate.text "not x()").check host := by
  refine ⟨respaced_negation, fun m _ _ host => ?_⟩
  have hparse : parse "not x()" = .ok (.invocation "x" [] true []) := by cbv
  obtain ⟨-, hlines⟩ := parse_respaced respaced_negation
  rcases hlines ["\tnot\u3000x(", ")"] rfl m host with ⟨_, _, _, hsame⟩ | ⟨err, _, herr, _⟩
  · exact hsame
  · rw [hparse] at herr
    cases herr

end Expression

end WhenClause
