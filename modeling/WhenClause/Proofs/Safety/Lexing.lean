import WhenClause.Proofs.Safety.Lexemes

set_option autoImplicit false

/-! # Tokens by indices

The lexer skips blanks and takes lexemes until it comes to the end of the text, which is a token of
its own here. It never crashes, and what it gives are the tokens of `Lexer.scan`
(`readTokens_eq`), which stand at places of the text (`scan_placed`). -/

namespace WhenClause.Checked

open Lexer (byteLength byteLength_cons IsNumeral)

variable {source s : List Char} {i : Nat} {float : List Char → Option Number}

/-! ## Tokens -/

/-- A token of the lexer. The last one has no lexeme and stands at the end of the text. -/
structure Cell where
  lexeme : Option Lexeme
  start : Nat
  stop : Nat
deriving DecidableEq

/-- A token as the lexer gives it. -/
def cell (t : Token) : Cell := ⟨some t.lexeme, t.start, t.stop⟩

/-- Tokens as the lexer gives them, with the end of the text behind them. -/
def cells (stop : Nat) (ts : List Token) : List Cell := ts.map cell ++ [⟨none, stop, stop⟩]

section

variable (source : List Char) (float : List Char → Option Number)

/-- The token that an index stands in front of, and the index behind it. -/
def readToken (i : Nat) : Guarded (Except Rejection (Cell × Nat)) := do
  let first := skipWhile source Text.isBlank i
  let start := offsetAt source first
  match charAt source first with
  | none => return .ok (⟨none, start, start⟩, first)
  | some c =>
      match ← readLexeme source float c first with
      | .error cause => return .error (.fault cause start)
      | .ok (l, stop) => return .ok (⟨some l, start, offsetAt source stop⟩, stop)

/-- The tokens from an index on, read in at most so many steps. -/
def readTokens : Nat → Nat → Guarded (Except Rejection (List Cell))
  | 0, _ => .error .exhausted
  | fuel + 1, i => do
      match ← readToken source float i with
      | .error reason => return .error reason
      | .ok (token, stop) =>
          if token.lexeme = none then return .ok [token]
          else
            let more ← readTokens fuel stop
            return more.map (token :: ·)

end

/-- A token with the number that the parser finds in its text. -/
def revalued (float : List Char → Option Number) (source : List Char) (t : Token) : Token :=
  match slice source t.start t.stop with
  | .ok text => ⟨valued float text t.lexeme, t.start, t.stop⟩
  | .error _ => t

theorem readToken_nil {i : Nat} (h : Rest source (skipWhile source Text.isBlank i) []) :
    readToken source float i =
      .ok (.ok (⟨none, byteLength source, byteLength source⟩,
        skipWhile source Text.isBlank i)) := by
  rw [readToken, h.charAt_eq, h.offsetAt_nil]
  rfl

/-- The place behind a lexeme, and the text of the lexeme. -/
theorem Rest.lexeme {c : Char} {rest : List Char} {l : Lexeme} {n : Nat}
    (h : Rest source i (c :: rest)) (hl : Lexer.lexeme c rest = .ok (l, n)) :
    Rest source (i + 1 + n) (rest.drop n) ∧
      offsetAt source (i + 1 + n) = offsetAt source i + byteLength (c :: rest.take n) ∧
      slice source (offsetAt source i) (offsetAt source i + byteLength (c :: rest.take n))
        = .ok (c :: rest.take n) := by
  have hsplit : Rest source i ((c :: rest.take n) ++ rest.drop n) := by
    rwa [List.cons_append, List.take_append_drop]
  have hlength : (c :: rest.take n).length = 1 + n := by
    rw [List.length_cons, List.length_take_of_le (Lexer.lexeme_le hl), Nat.add_comm]
  have hplace := hsplit.skip
  have hoffset := hsplit.offsetAt_skip
  have hslice := hsplit.slice_eq
  rw [hlength, ← Nat.add_assoc] at hplace hoffset hslice
  rw [hoffset] at hslice
  exact ⟨hplace, hoffset, hslice⟩

theorem readToken_cons (hfloat : Accepts float) {i : Nat} {c : Char} {rest : List Char}
    (h : Rest source (skipWhile source Text.isBlank i) (c :: rest)) :
    readToken source float i =
      let first := skipWhile source Text.isBlank i
      let start := offsetAt source first
      .ok (match Lexer.lexeme c rest with
        | .error cause => .error (.fault cause start)
        | .ok (l, n) => .ok (cell (revalued float source
            ⟨l, start, start + byteLength (c :: rest.take n)⟩), first + 1 + n)) := by
  rw [readToken, h.charAt_eq]
  dsimp only [List.head?_cons]
  rw [readLexeme_eq hfloat h]
  cases hl : Lexer.lexeme c rest with
  | error cause => rfl
  | ok found =>
      obtain ⟨l, n⟩ := found
      obtain ⟨-, hoffset, hslice⟩ := h.lexeme hl
      dsimp only [revalued]
      rw [hslice, ← hoffset]
      rfl

/-- **A text is cut into tokens without a crash**, and they are those that it has. -/
theorem readTokens_eq (hfloat : Accepts float) (h : Rest source i s) {fuel : Nat}
    (hfuel : s.length < fuel) :
    readTokens source float fuel i = .ok ((Lexer.scan (offsetAt source i) s).map fun ts =>
      cells (byteLength source) (ts.map (revalued float source))) := by
  induction fuel generalizing i s with
  | zero => exact absurd hfuel (Nat.not_lt_zero _)
  | succ fuel ih =>
      have hgap : Lexer.IsGap (s.takeWhile Text.isBlank) := fun c hc => List.mem_takeWhile_imp hc
      have hs : s.takeWhile Text.isBlank ++ s.dropWhile Text.isBlank = s :=
        List.takeWhile_append_dropWhile
      have hfirst := rest_skipWhile h Text.isBlank
      have hstart : offsetAt source (skipWhile source Text.isBlank i)
          = offsetAt source i + byteLength (s.takeWhile Text.isBlank) := by
        rw [skipWhile_eq h, Rest.offsetAt_skip (hs.symm ▸ h)]
      have hscan : Lexer.scan (offsetAt source i) s
          = Lexer.scan (offsetAt source (skipWhile source Text.isBlank i))
              (s.dropWhile Text.isBlank) := by
        rw [hstart, ← Lexer.scan_gap hgap, hs]
      have hlength : (s.dropWhile Text.isBlank).length ≤ s.length :=
        (List.dropWhile_sublist _).length_le
      rw [readTokens, hscan]
      cases hrest : s.dropWhile Text.isBlank with
      | nil =>
          rw [hrest] at hfirst
          rw [readToken_nil hfirst, Lexer.scan_nil]
          rfl
      | cons c rest =>
          have hc : Text.isBlank c = false := Lexer.dropWhile_stop hrest
          rw [hrest] at hfirst hlength
          rw [readToken_cons hfloat hfirst]
          cases hl : Lexer.lexeme c rest with
          | error cause =>
              rw [Lexer.scan, if_neg (by simp [hc]), hl]
              rfl
          | ok found =>
              obtain ⟨l, n⟩ := found
              obtain ⟨hplace, hoffset, -⟩ := hfirst.lexeme hl
              have hshort : (rest.drop n).length < fuel := by
                rw [List.length_drop]
                rw [List.length_cons] at hlength
                omega
              rw [Lexer.scan_lexeme hc hl]
              show (readTokens source float fuel _ >>= _) = _
              rw [ih hplace hshort, hoffset]
              cases Lexer.scan _ (rest.drop n) <;> rfl

/-! ## Places of tokens -/

/-- A token ends at a place of the text, and a number stands where its numeral does. -/
structure Placed (source : List Char) (t : Token) : Prop where
  boundary : IsBoundary source t.stop
  numeral : ∀ x, t.lexeme = .number x → ∃ text numeral,
    slice source t.start t.stop = .ok text ∧ IsNumeral text numeral ∧
      x = numeral.decimal.toNumber

/-- **The tokens of a text stand at their places in it.** -/
theorem scan_placed {i : Nat} {s : List Char} {ts : List Token} (h : Rest source i s)
    (hts : Lexer.scan (offsetAt source i) s = .ok ts) : ∀ t ∈ ts, Placed source t := by
  match s with
  | [] =>
      rw [Lexer.scan_nil] at hts
      cases hts
      exact List.forall_mem_nil _
  | c :: rest =>
      cases hc : Text.isBlank c with
      | true =>
          have hoffset : offsetAt source (i + 1) = offsetAt source i + c.utf8Size :=
            Rest.offsetAt_skip (m := [c]) h
          rw [Lexer.scan_blank hc, ← hoffset] at hts
          exact scan_placed h.next hts
      | false =>
          obtain ⟨l, n, after, hl, hafter, rfl⟩ := Lexer.scan_eq_ok hc hts
          obtain ⟨hplace, hoffset, hslice⟩ := h.lexeme hl
          rw [← hoffset] at hafter hslice ⊢
          refine List.forall_mem_cons.mpr ⟨⟨hplace.isBoundary, ?_⟩, scan_placed hplace hafter⟩
          rintro x rfl
          obtain ⟨numeral, hnumeral, hx⟩ := isNumeral_of_lexeme hl
          exact ⟨_, numeral, hslice, hnumeral, hx⟩
termination_by s.length
decreasing_by all_goals simp only [List.length_drop, List.length_cons]; omega

theorem revalued_stop (source : List Char) (t : Token) :
    (revalued float source t).stop = t.stop := by
  unfold revalued
  split <;> rfl

/-- A parser that gives the nearest numbers changes no token. -/
theorem revalued_eq (hfloat : Exact float) {t : Token} (h : Placed source t) :
    revalued float source t = t := by
  obtain ⟨l, start, stop⟩ := t
  cases l with
  | number x =>
      obtain ⟨text, numeral, hslice, hnumeral, rfl⟩ := h.numeral x rfl
      simp only [revalued, hslice, valued, hfloat text numeral hnumeral, Option.getD_some]
  | _ =>
      unfold revalued
      split <;> rfl

theorem length_le_of_scan {offset : Nat} {s : List Char} {ts : List Token}
    (h : Lexer.scan offset s = .ok ts) : ts.length ≤ s.length := by
  match s with
  | [] =>
      rw [Lexer.scan_nil] at h
      cases h
      exact Nat.le_refl 0
  | c :: rest =>
      cases hc : Text.isBlank c with
      | true =>
          rw [Lexer.scan_blank hc] at h
          exact Nat.le_succ_of_le (length_le_of_scan h)
      | false =>
          obtain ⟨l, n, after, hl, hafter, rfl⟩ := Lexer.scan_eq_ok hc h
          have hle := length_le_of_scan hafter
          rw [List.length_drop] at hle
          simp only [List.length_cons]
          omega
termination_by s.length
decreasing_by all_goals simp only [List.length_drop, List.length_cons]; omega

end WhenClause.Checked
