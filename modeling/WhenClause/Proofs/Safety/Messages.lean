import Mathlib.Data.List.DropRight
import Mathlib.Data.List.TakeWhile
import WhenClause.Condition.Reading
import WhenClause.Expression.Source
import WhenClause.Proofs.Safety.Checked
import WhenClause.Proofs.Token.Words

set_option autoImplicit false

/-! # Slices of argument lists

The text of an argument list is cut out of a source for a message, and the name and the arguments
of a call in a condition are cut out of a string. Both find the places of parentheses as byte
offsets and slice there. Here they do so with checked slices and differences, and always give what
they give without (`argumentText_checked`, `decode_checked`). -/

namespace WhenClause.Checked

open Lexer (byteLength byteLength_cons byteLength_append)
open Source (opens closes upToClosing)

/-! ## The argument list of a message -/

/-- The offset of the parenthesis that closes an argument list, with `depth` brackets open, the
quote of the string that the text stands in, and whether the next character is escaped there. -/
def closingAt (offset depth : Nat) (quote : Option Char) (escaped : Bool) :
    List Char → Guarded (Option Nat)
  | [] => .ok none
  | c :: rest =>
      match quote with
      | some q =>
          if escaped then closingAt (offset + c.utf8Size) depth quote false rest
          else if c = '\\' then closingAt (offset + c.utf8Size) depth quote true rest
          else if c = q then closingAt (offset + c.utf8Size) depth none false rest
          else closingAt (offset + c.utf8Size) depth quote false rest
      | none =>
          if c = '"' ∨ c = '\x27' then closingAt (offset + c.utf8Size) depth (some c) false rest
          else if opens c then closingAt (offset + c.utf8Size) (depth + 1) none false rest
          else if closes c && 0 < depth then
            minus depth 1 >>= fun depth => closingAt (offset + c.utf8Size) depth none false rest
          else if c = ')' then .ok (some offset)
          else closingAt (offset + c.utf8Size) depth none false rest

/-- The text of the argument list that begins at an offset. -/
def argumentText (source : List Char) (opening : Nat) : Guarded (List Char) := do
  let rest ← sliceFrom source opening
  match ← closingAt 0 0 none false rest with
  | some stop => do
      let inner ← slice rest 0 stop
      return Text.trim inner
  | none => return Text.trim rest

/-- The search in a text stops behind its front, or comes to its end. -/
def StopsAt (offset : Nat) (result : Guarded (Option Nat)) (s front : List Char) : Prop :=
  ∃ behind, s = front ++ behind ∧
    (result = .ok (some (offset + byteLength front)) ∨ result = .ok none ∧ behind = [])

theorem StopsAt.cons {offset : Nat} {c : Char} {result : Guarded (Option Nat)} {s front : List Char}
    (h : StopsAt (offset + c.utf8Size) result s front) :
    StopsAt offset result (c :: s) (c :: front) := by
  obtain ⟨behind, rfl, hresult⟩ := h
  refine ⟨behind, rfl, ?_⟩
  rwa [byteLength_cons, ← Nat.add_assoc]

/-- The search for the closing parenthesis stops where the argument list ends. -/
theorem closingAt_stopsAt (depth : Nat) (quote : Option Char) (s : List Char) (offset : Nat) :
    StopsAt offset (closingAt offset depth quote false s) s (upToClosing depth quote s) := by
  fun_induction upToClosing depth quote s generalizing offset with
  | case1 => exact ⟨[], rfl, Or.inr ⟨rfl, rfl⟩⟩
  | case2 depth q => exact ⟨[], rfl, Or.inr ⟨by simp [closingAt], rfl⟩⟩
  | case3 depth q d rest ih =>
      have hskip : closingAt offset depth (some q) false ('\\' :: d :: rest)
          = closingAt (offset + '\\'.utf8Size + d.utf8Size) depth (some q) false rest := by
        simp [closingAt]
      rw [hskip]
      exact (ih _).cons.cons
  | case4 depth d rest q hescape ih =>
      have hstep : closingAt offset depth (some q) false (d :: rest)
          = closingAt (offset + d.utf8Size) depth (if d = q then none else some q) false rest := by
        by_cases hquote : d = q
        · subst hquote
          simp [closingAt, hescape]
        · simp [closingAt, hescape, hquote]
      rw [hstep]
      exact (ih _).cons
  | case5 depth d rest hquote ih =>
      rw [closingAt, if_pos hquote]
      exact (ih _).cons
  | case6 depth d rest hquote hopens ih =>
      rw [closingAt, if_neg hquote, if_pos hopens]
      exact (ih _).cons
  | case7 depth d rest hquote hopens hcloses ih =>
      have hdepth : 1 ≤ depth := by
        simp only [Bool.and_eq_true, decide_eq_true_eq] at hcloses
        exact hcloses.2
      rw [closingAt, if_neg hquote, if_neg hopens, if_pos hcloses, minus_eq hdepth]
      exact (ih _).cons
  | case8 depth rest hquote hopens hcloses =>
      rw [closingAt, if_neg hquote, if_neg hopens, if_neg hcloses, if_pos rfl]
      exact ⟨_, rfl, Or.inl rfl⟩
  | case9 depth d rest hquote hopens hcloses hparen ih =>
      rw [closingAt, if_neg hquote, if_neg hopens, if_neg hcloses, if_neg hparen]
      exact (ih _).cons

/-- **The argument list of a message is cut out without a crash**, from any place of the text. -/
theorem argumentText_checked (p r : List Char) :
    argumentText (p ++ r) (byteLength p) = .ok (Source.argumentText (p ++ r) (byteLength p)) := by
  obtain ⟨behind, hr, hclosing⟩ := closingAt_stopsAt 0 none r 0
  have hplain : Source.argumentText (p ++ r) (byteLength p) = Text.trim (upToClosing 0 none r) := by
    rw [Source.argumentText, dropBytes?_append]
    rfl
  rw [argumentText, sliceFrom_append, hplain]
  show (closingAt 0 0 none false r >>= _) = _
  rcases hclosing with hclosing | ⟨hclosing, rfl⟩
  · have hslice : slice r 0 (0 + byteLength (upToClosing 0 none r))
        = .ok (upToClosing 0 none r) := by
      have hinner := slice_append [] (upToClosing 0 none r) behind
      rwa [List.nil_append, ← hr] at hinner
    rw [hclosing]
    show (slice r 0 _ >>= _) = _
    rw [hslice]
    rfl
  · rw [List.append_nil] at hr
    rw [hclosing, ← hr]
    rfl

/-! ## Calls in conditions -/

/-- The offset of the first opening parenthesis. -/
def openingAt? (s : List Char) : Option Nat :=
  if '(' ∈ s then some (byteLength (s.takeWhile (· != '('))) else none

def readBody (text : List Char) : Guarded (Except Error (String × List Value)) :=
  let trimmed := Text.trimEnd text
  match openingAt? trimmed, trimmed.getLast? with
  | some opening, some ')' => do
      let name ← slice trimmed 0 opening
      let stop ← minus (byteLength trimmed) 1
      let tail ← slice trimmed (opening + 1) stop
      return (Call.readArguments tail).map fun args => (String.ofList (Text.trim name), args)
  | _, _ => return .ok (String.ofList text, [])

def decode (text : String) : Guarded (Except Error Call) := do
  let (negated, body) := Call.splitNegation text.toList
  let found ← readBody body
  return found.map fun (name, args) => ⟨negated, name, args⟩

theorem trimEnd_trimEnd (s : List Char) : Text.trimEnd (Text.trimEnd s) = Text.trimEnd s := by
  rw [Text.trimEnd, Text.trimEnd, List.reverse_reverse, List.dropWhile_idempotent]

/-- What is left of a call behind its negation is trimmed. -/
theorem trimEnd_splitNegation (text : List Char) :
    Text.trimEnd (Call.splitNegation text).2 = (Call.splitNegation text).2 := by
  unfold Call.splitNegation
  dsimp only
  split
  · exact trimEnd_trimEnd _
  · split
    · exact trimEnd_trimEnd _
    · split
      · exact trimEnd_trimEnd _
      · exact trimEnd_trimEnd _

/-- A text with an opening parenthesis is what stands in front of the first one, it and the rest. -/
theorem exists_opening {text : List Char} (h : '(' ∈ text) :
    ∃ inner, text.dropWhile (· != '(') = '(' :: inner
      ∧ text = text.takeWhile (· != '(') ++ '(' :: inner := by
  have hsplit : text.takeWhile (· != '(') ++ text.dropWhile (· != '(') = text :=
    List.takeWhile_append_dropWhile
  cases hdrop : text.dropWhile (· != '(') with
  | nil =>
      have hplain : ('(' != '(') = true := List.dropWhile_eq_nil_iff.mp hdrop _ h
      exact absurd hplain (by decide)
  | cons d inner =>
      rw [hdrop] at hsplit
      obtain rfl : d = '(' := by simpa using Lexer.dropWhile_stop hdrop
      exact ⟨inner, rfl, hsplit.symm⟩

theorem readBody_checked {text : List Char} (h : Text.trimEnd text = text) :
    readBody text = .ok (Call.readBody text) := by
  rw [readBody, h]
  unfold openingAt? Call.readBody
  by_cases hopen : '(' ∈ text
  · obtain ⟨inner, hdrop, htext⟩ := exists_opening hopen
    rw [if_pos hopen]
    simp only [hdrop]
    generalize text.takeWhile (· != '(') = name at htext ⊢
    by_cases hclose : text.getLast? = some ')'
    · -- The last character stands in the arguments, since no parenthesis both opens and closes.
      obtain ⟨args, rfl⟩ : ∃ args, inner = args ++ [')'] := by
        rw [htext, List.getLast?_append_cons] at hclose
        cases inner using List.reverseRecOn with
        | nil => simp at hclose
        | append_singleton args last =>
            obtain rfl : last = ')' := by
              rwa [← List.cons_append, List.getLast?_concat, Option.some_inj] at hclose
            exact ⟨args, rfl⟩
      have hname : slice text 0 (byteLength name) = .ok name := by
        have hslice := slice_append [] name ('(' :: (args ++ [')']))
        rwa [List.nil_append, ← htext, show byteLength [] = 0 from rfl, Nat.zero_add] at hslice
      have hlength : byteLength text = byteLength name + 1 + byteLength args + 1 := by
        rw [htext]
        simp only [byteLength_append, byteLength_cons]
        rw [show '('.utf8Size = 1 from rfl, show ')'.utf8Size = 1 from rfl,
          show byteLength [] = 0 from rfl]
        omega
      have hargs : slice text (byteLength name + 1) (byteLength text - 1) = .ok args := by
        have hslice := slice_append (name ++ ['(']) args [')']
        have hfront : byteLength (name ++ ['(']) = byteLength name + 1 := by
          rw [byteLength_append]
          rfl
        rwa [hfront, List.append_assoc, List.singleton_append, ← htext,
          show byteLength name + 1 + byteLength args = byteLength text - 1 by omega] at hslice
      simp only [hclose, hname, minus_eq (show 1 ≤ byteLength text by omega), List.dropLast_concat]
      show (slice text (byteLength name + 1) (byteLength text - 1) >>= _) = _
      rw [hargs]
      rfl
    · cases hlast : text.getLast? with
      | none => rfl
      | some last =>
          have hne : last ≠ ')' := fun heq => hclose (heq ▸ hlast)
          split
          next hends => cases hends; exact absurd rfl hne
          next =>
            split
            next hends => cases hends; exact absurd rfl hne
            next => rfl
  · have hdrop : text.dropWhile (· != '(') = [] := by
      rw [List.dropWhile_eq_nil_iff]
      intro c hc
      simp only [bne_iff_ne]
      rintro rfl
      exact hopen hc
    rw [if_neg hopen]
    simp only [hdrop]
    rfl

/-- **A call of a condition is decoded without a crash.** -/
theorem decode_checked (text : String) : decode text = .ok (Call.ofText text) := by
  unfold decode Call.ofText
  dsimp only
  rw [readBody_checked (trimEnd_splitNegation text.toList)]
  cases Call.readBody (Call.splitNegation text.toList).2 <;> rfl

end WhenClause.Checked
