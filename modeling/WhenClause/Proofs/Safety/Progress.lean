import WhenClause.Proofs.Safety.Parsing

set_option autoImplicit false

/-! # Every procedure of the parser makes progress

A vector of tokens that ends in the end of the text need not come from a text: its tokens may stand
anywhere. On every such vector, from every token on and inside any number of argument lists, each
procedure of the parser comes to an end (`advances`). Where it gives a result it has taken a token
at least, it has not gone behind the end, and it has counted out each argument list that it counted
in (`procedures_advance`). Only the error of an argument list may crash, where the offset of its
opening parenthesis lies off the boundaries of the text; no vector of a text has such an offset. -/

namespace WhenClause.Checked

open WhenClause.Parser (Level dottedName)

variable {α β : Type} {source : List Char} {tokens : List Cell}

/-! ## Vectors -/

/-- The vector ends in a token without a lexeme, the end of the text. -/
def Terminated (tokens : List Cell) : Prop :=
  ∃ front stop, tokens = front ++ [stop] ∧ stop.lexeme = none

theorem terminated_cells (stop : Nat) (ts : List Token) : Terminated (cells stop ts) :=
  ⟨ts.map cell, ⟨none, stop, stop⟩, rfl, rfl⟩

variable {p d : Nat} {t : Cell} {l : Lexeme}

/-- Behind a token with a lexeme there is another one. -/
theorem Terminated.succ_lt (h : Terminated tokens) (ht : tokens[p]? = some t)
    (hl : t.lexeme = some l) : p + 1 < tokens.length := by
  obtain ⟨front, stop, rfl, hstop⟩ := h
  rw [List.length_append, List.length_singleton, Nat.add_lt_add_iff_right]
  by_contra hp
  rw [List.getElem?_append_right (Nat.le_of_not_lt hp)] at ht
  obtain rfl : t = stop := by simpa using List.mem_of_getElem? ht
  rw [hstop] at hl
  cases hl

theorem exists_token (hp : p < tokens.length) : ∃ t, tokens[p]? = some t :=
  ⟨tokens[p], List.getElem?_eq_getElem hp⟩

/-! ## Single steps -/

theorem tokenAt_of_getElem? (ht : tokens[p]? = some t) : tokenAt tokens p = .ok t := by
  have hp : p < tokens.length := (List.getElem?_eq_some_iff.mp ht).1
  have hlast : minus tokens.length 1 = .ok (tokens.length - 1) := minus_eq (by omega)
  rw [tokenAt, hlast]
  show (if _ then _ else _) = _
  rw [if_neg (by omega), Nat.min_eq_left (by omega), ht]
  rfl

theorem peekAt_at {k : Nat} (ht : tokens[p + k]? = some t) :
    peekAt tokens k ⟨p, d⟩ = .ok (.ok t, ⟨p, d⟩) := by
  rw [peekAt, bind_run (x := ⟨p, d⟩) rfl]
  show (liftM (tokenAt tokens (p + k)) : Act Cell) _ = _
  rw [tokenAt_of_getElem? ht]
  rfl

theorem peek_at (ht : tokens[p]? = some t) : peek tokens ⟨p, d⟩ = .ok (.ok t, ⟨p, d⟩) :=
  peekAt_at (k := 0) ht

theorem advance_at (ht : tokens[p]? = some t) (hl : t.lexeme = some l) :
    advance tokens ⟨p, d⟩ = .ok (.ok t, ⟨p + 1, d⟩) := by
  rw [advance, bind_run (peek_at ht), hl]
  rfl

theorem advance_at_end (ht : tokens[p]? = some t) (hnone : t.lexeme = none) :
    advance tokens ⟨p, d⟩ = .ok (.ok t, ⟨p, d⟩) := by
  rw [advance, bind_run (peek_at ht), hnone]
  rfl

/-- The word `not` is looked for without moving the cursor, and without looking behind the end. -/
theorem startsNegation_at (h : Terminated tokens) (ht : tokens[p]? = some t) :
    ∃ b, startsNegation tokens ⟨p, d⟩ = .ok (.ok b, ⟨p, d⟩) ∧
      (b = true → t.lexeme = some (.word "not")) := by
  rw [startsNegation, bind_run (peek_at ht)]
  by_cases hnot : t.lexeme = some (.word "not")
  · obtain ⟨u, hu⟩ := exists_token (h.succ_lt ht hnot)
    rw [if_pos hnot, bind_run (peekAt_at hu)]
    exact ⟨_, rfl, fun _ => hnot⟩
  · rw [if_neg hnot]
    exact ⟨false, rfl, fun hfalse => absurd hfalse Bool.false_ne_true⟩

/-! ## Acts that settle -/

/-- An outcome leaves the cursor at a token, as a property of the result and of the place says, and
with as many argument lists open. An error leaves as many open too. Nothing crashes but a slice at
the end of a token that is off the boundaries of the text. -/
def Lands (source : List Char) (tokens : List Cell) (depth : Nat) (Q : α → Nat → Prop) :
    Guarded (Except Error α × Cursor) → Prop
  | .ok (.ok x, after) => Q x after.position ∧ after.position < tokens.length ∧ after.depth = depth
  | .ok (.error _, after) => after.depth = depth
  | .error reason => reason = .slice ∧ ∃ t ∈ tokens, ¬ IsBoundary source t.stop

/-- From a cursor on, an act comes to an end within so many steps, and with more steps it comes to
the same one. -/
def Settles (source : List Char) (tokens : List Cell) (bound : Nat) (act : Nat → Act α)
    (position depth : Nat) (Q : α → Nat → Prop) : Prop :=
  ∃ outcome, (∀ fuel, bound ≤ fuel → act fuel ⟨position, depth⟩ = outcome) ∧
    Lands source tokens depth Q outcome

variable {bound : Nat} {Q R : α → Nat → Prop}

theorem settles_pure {x : α} (hx : Q x p) (hp : p < tokens.length) :
    Settles source tokens bound (fun _ => pure x) p d Q :=
  ⟨.ok (.ok x, ⟨p, d⟩), fun _ _ => rfl, hx, hp, rfl⟩

theorem settles_throw (e : Error) :
    Settles source tokens bound (fun _ => (throw e : Act α)) p d Q :=
  ⟨.ok (.error e, ⟨p, d⟩), fun _ _ => rfl, rfl⟩

theorem settles_fail (cause : Fault) (place : Nat) :
    Settles source tokens bound (fun _ => (fail source cause place : Act α)) p d Q :=
  settles_throw _

theorem settles_ite {c : Prop} [Decidable c] {act other : Nat → Act α}
    (hact : c → Settles source tokens bound act p d Q)
    (hother : ¬ c → Settles source tokens bound other p d Q) :
    Settles source tokens bound (fun fuel => if c then act fuel else other fuel) p d Q := by
  by_cases hc : c
  · simpa only [if_pos hc] using hact hc
  · simpa only [if_neg hc] using hother hc

/-- A step that has been taken. -/
theorem Settles.after {act : Act β} {f : Nat → β → Act α} {x : β} {q : Nat}
    (hact : act ⟨p, d⟩ = .ok (.ok x, ⟨q, d⟩))
    (h : Settles source tokens bound (fun fuel => f fuel x) q d Q) :
    Settles source tokens bound (fun fuel => act >>= f fuel) p d Q := by
  obtain ⟨outcome, hrun, hlands⟩ := h
  exact ⟨outcome, fun fuel hfuel => (bind_run hact).trans (hrun fuel hfuel), hlands⟩

theorem Settles.bind {act : Nat → Act β} {f : Nat → β → Act α} {S : β → Nat → Prop}
    (h : Settles source tokens bound act p d S)
    (hf : ∀ x q, S x q → q < tokens.length →
      Settles source tokens bound (fun fuel => f fuel x) q d Q) :
    Settles source tokens bound (fun fuel => act fuel >>= f fuel) p d Q := by
  obtain ⟨outcome, hrun, hlands⟩ := h
  match outcome with
  | .ok (.ok x, ⟨q, d'⟩) =>
      obtain ⟨hx, hq, rfl⟩ : S x q ∧ q < tokens.length ∧ d' = d := hlands
      obtain ⟨outcome, hrest, hlands⟩ := hf x q hx hq
      refine ⟨outcome, fun fuel hfuel => ?_, hlands⟩
      exact (bind_run (hrun fuel hfuel)).trans (hrest fuel hfuel)
  | .ok (.error e, after) =>
      refine ⟨.ok (.error e, after), fun fuel hfuel => ?_, hlands⟩
      show (act fuel ⟨p, d⟩ >>= _) = _
      rw [hrun fuel hfuel]
      rfl
  | .error reason =>
      refine ⟨.error reason, fun fuel hfuel => ?_, hlands⟩
      show (act fuel ⟨p, d⟩ >>= _) = _
      rw [hrun fuel hfuel]
      rfl

theorem Settles.weaken {act : Nat → Act α} (h : Settles source tokens bound act p d Q)
    (hQ : ∀ x q, Q x q → R x q) : Settles source tokens bound act p d R := by
  obtain ⟨outcome, hrun, hlands⟩ := h
  refine ⟨outcome, hrun, ?_⟩
  match outcome with
  | .ok (.ok x, after) => exact ⟨hQ x _ hlands.1, hlands.2⟩
  | .ok (.error e, after) => exact hlands
  | .error reason => exact hlands

/-- Each call takes one step. -/
theorem settles_succ {act : Nat → Act α}
    (h : Settles source tokens bound (fun fuel => act (fuel + 1)) p d Q) :
    Settles source tokens (bound + 1) act p d Q := by
  obtain ⟨outcome, hrun, hlands⟩ := h
  refine ⟨outcome, fun fuel hfuel => ?_, hlands⟩
  obtain ⟨fuel, rfl⟩ : ∃ n, fuel = n + 1 := ⟨fuel - 1, by omega⟩
  exact hrun fuel (by omega)

theorem settles_advance (h : Terminated tokens) (ht : tokens[p]? = some t) (hl : t.lexeme = some l)
    {f : Nat → Cell → Act α}
    (hf : p + 1 < tokens.length → Settles source tokens bound (fun fuel => f fuel t) (p + 1) d Q) :
    Settles source tokens bound (fun fuel => advance tokens >>= f fuel) p d Q :=
  Settles.after (advance_at ht hl) (hf (h.succ_lt ht hl))

/-! ## Errors and symbols -/

/-- What is left behind an offset begins at a boundary. -/
theorem isBoundary_of_dropBytes? {n : Nat} {s rest : List Char}
    (h : Lexer.dropBytes? n s = some rest) : IsBoundary s n := by
  fun_induction Lexer.dropBytes? n s with
  | case1 s => exact ⟨[], s, rfl, rfl⟩
  | case2 => cases h
  | case3 n c s hle ih =>
      obtain ⟨front, behind, rfl, hfront⟩ := ih h
      refine ⟨c :: front, behind, rfl, ?_⟩
      rw [Lexer.byteLength_cons]
      omega
  | case4 => cases h

/-- The error of an argument list is shown, or the offset where the list begins is off the
boundaries of the text. -/
theorem settles_failArguments {found : Lexeme} (ht : t ∈ tokens) :
    Settles source tokens bound (fun _ => (failArguments source t.stop found : Act α)) p d Q := by
  by_cases hboundary : IsBoundary source t.stop
  · exact ⟨_, fun fuel _ => failArguments_run hboundary _, rfl⟩
  · refine ⟨.error .slice, fun fuel _ => ?_, rfl, t, ht, hboundary⟩
    have hslice : sliceFrom source t.stop = .error .slice := by
      unfold sliceFrom
      split
      next hrest => exact absurd (isBoundary_of_dropBytes? hrest) hboundary
      next => rfl
    rw [failArguments, argumentText, hslice]
    rfl

/-- A symbol that must stand here is taken. -/
theorem settles_expect (h : Terminated tokens) {symbol : Symbol} {what : Expected}
    (hp : p < tokens.length) :
    Settles source tokens bound (fun _ => expect source tokens symbol what) p d
      fun _ q => q = p + 1 := by
  obtain ⟨t, ht⟩ := exists_token hp
  refine Settles.after (peek_at ht) (settles_ite (fun hsymbol => ?_) fun _ => settles_fail _ _)
  exact settles_advance h ht hsymbol (settles_pure rfl)

/-- Behind an item of a list the cursor moves on, to more items or behind the list. -/
theorem settles_behindItem (h : Terminated tokens) {closing : Symbol} {single : α}
    {more : Nat → Act α} {stray : Cell → Act α} (hp : p < tokens.length)
    (hsingle : Q single (p + 1))
    (hmore : p + 1 < tokens.length → Settles source tokens bound more (p + 1) d Q)
    (hstray : ∀ t, Settles source tokens bound (fun _ => stray t) p d Q) :
    Settles source tokens bound (fun fuel => behindItem tokens closing single (more fuel) stray) p d
      Q := by
  obtain ⟨t, ht⟩ := exists_token hp
  refine Settles.after (peek_at ht) (settles_ite (fun hcomma => ?_) fun _ =>
    settles_ite (fun hclosing => ?_) fun _ => hstray t)
  · exact settles_advance h ht hcomma hmore
  · exact settles_advance h ht hclosing (settles_pure hsingle)

/-- Behind the symbol that opens a list stands the one that closes it, or the first item. -/
theorem settles_opened (h : Terminated tokens) {closing : Symbol} {empty : α} {act : Nat → Act α}
    (hp : p < tokens.length) (hempty : Q empty (p + 1))
    (hact : Settles source tokens bound act p d Q) :
    Settles source tokens bound (fun fuel => do
      let follower ← peek tokens
      if follower.lexeme = some (.symbol closing) then
        let _ ← advance tokens
        return empty
      else act fuel) p d Q := by
  obtain ⟨t, ht⟩ := exists_token hp
  refine Settles.after (peek_at ht) (settles_ite (fun hclosing => ?_) fun _ => hact)
  exact settles_advance h ht hclosing (settles_pure hempty)

/-- An argument list is counted in and out again, whatever becomes of it. -/
theorem settles_insideArguments {act : Nat → Act α}
    (h : Settles source tokens bound act p (d + 1) Q) :
    Settles source tokens bound (fun fuel => insideArguments (act fuel)) p d Q := by
  obtain ⟨outcome, hrun, hlands⟩ := h
  match outcome with
  | .ok (.ok x, ⟨q, d'⟩) =>
      obtain ⟨hx, hq, rfl⟩ : Q x q ∧ q < tokens.length ∧ d' = d + 1 := hlands
      refine ⟨.ok (.ok x, ⟨q, d⟩), fun fuel hfuel => ?_, hx, hq, rfl⟩
      exact insideArguments_run (hrun fuel hfuel)
  | .ok (.error e, ⟨q, d'⟩) =>
      obtain rfl : d' = d + 1 := hlands
      exact ⟨.ok (.error e, ⟨q, d⟩), fun fuel hfuel => insideArguments_run (hrun fuel hfuel), rfl⟩
  | .error reason =>
      refine ⟨.error reason, fun fuel hfuel => ?_, hlands⟩
      show (act fuel ⟨p, d + 1⟩ >>= _) = _
      rw [hrun fuel hfuel]
      rfl

/-! ## Procedures -/

theorem settles_dotted (h : Terminated tokens) (hp : p < tokens.length)
    (hbound : tokens.length - 1 - p < bound) :
    Settles source tokens bound (dotted source tokens) p d fun _ q => p ≤ q := by
  induction bound generalizing p with
  | zero => omega
  | succ bound ih =>
      refine settles_succ ?_
      obtain ⟨t, ht⟩ := exists_token hp
      refine Settles.after (peek_at ht) (settles_ite (fun hdot => ?_) fun _ =>
        settles_pure (Nat.le_refl p) hp)
      obtain ⟨u, hu⟩ := exists_token (h.succ_lt ht hdot)
      refine Settles.after (peekAt_at hu) ?_
      rcases hl : u.lexeme with _ | l
      · exact settles_fail _ _
      · cases l with
        | word part =>
            refine settles_advance h ht hdot fun _ => settles_advance h hu hl fun hlt => ?_
            refine (ih hlt (by omega)).bind fun more q hq hqlt => ?_
            exact settles_pure (by omega) hqlt
        | _ => exact settles_fail _ _

/-- Within so many steps each procedure comes to an end. At the same token a procedure calls only
those of a smaller height, and no height reaches seven: so seven steps for each token and one for
each height suffice. -/
structure Advances (source : List Char) (tokens : List Cell) (bound : Nat) : Prop where
  level : ∀ l p d, p < tokens.length → 7 * (tokens.length - 1 - p) + l.height < bound →
    Settles source tokens bound (fun fuel => level source tokens fuel l) p d fun _ q => p < q
  operators : ∀ l p d, p < tokens.length → 7 * (tokens.length - 1 - p) < bound →
    Settles source tokens bound (fun fuel => operators source tokens fuel l) p d fun _ q => p ≤ q
  unary : ∀ p d, p < tokens.length → 7 * (tokens.length - 1 - p) + 1 < bound →
    Settles source tokens bound (unary source tokens) p d fun _ q => p < q
  term : ∀ p d, p < tokens.length → 7 * (tokens.length - 1 - p) < bound →
    Settles source tokens bound (term source tokens) p d fun _ q => p < q
  items : ∀ p d, p < tokens.length → 7 * (tokens.length - 1 - p) + 6 < bound →
    Settles source tokens bound (items source tokens) p d fun _ q => p < q
  entries : ∀ p d, p < tokens.length → 7 * (tokens.length - 1 - p) < bound →
    Settles source tokens bound (entries source tokens) p d fun _ q => p < q
  name : ∀ start first p d, p < tokens.length → 7 * (tokens.length - 1 - p) + 1 < bound →
    Settles source tokens bound (fun fuel => name source tokens fuel start first) p d
      fun _ q => p ≤ q
  arguments : ∀ t l p d, tokens[p]? = some t → t.lexeme = some l →
    7 * (tokens.length - 1 - p) < bound →
    Settles source tokens bound (arguments source tokens) p d fun _ q => p < q
  argumentItems : ∀ t p d, t ∈ tokens → p < tokens.length →
    7 * (tokens.length - 1 - p) + 6 < bound →
    Settles source tokens bound (fun fuel => argumentItems source tokens fuel t.stop) p d
      fun _ q => p < q
  chain : ∀ p d, p < tokens.length → 7 * (tokens.length - 1 - p) < bound →
    Settles source tokens bound (chain source tokens) p d
      fun steps q => p ≤ q ∧ (q = p ↔ steps = [])

section

variable (h : Terminated tokens) (ih : Advances source tokens bound) (hp : p < tokens.length)

include ih hp

/-- A whole expression, from the loosest level on. -/
theorem Advances.expression (hbound : 7 * (tokens.length - 1 - p) + 5 < bound) :
    Settles source tokens bound (fun fuel => Checked.level source tokens fuel .or) p d
      fun _ q => p < q :=
  ih.level .or p d hp hbound

theorem settles_operand (l : Level) (hbound : 7 * (tokens.length - 1 - p) + l.height ≤ bound) :
    Settles source tokens bound
      (fun fuel => operand (level source tokens fuel) (unary source tokens fuel) l) p d
      fun _ q => p < q := by
  cases l with
  | or => exact ih.level .and p d hp hbound
  | and => exact ih.level .equality p d hp hbound
  | equality => exact ih.level .relational p d hp hbound
  | relational => exact ih.unary p d hp hbound

theorem settles_level (l : Level) (hbound : 7 * (tokens.length - 1 - p) + l.height < bound + 1) :
    Settles source tokens (bound + 1) (fun fuel => level source tokens fuel l) p d
      fun _ q => p < q := by
  refine settles_succ ?_
  refine (settles_operand ih hp l (by omega)).bind fun first q hq hqlt => ?_
  refine (ih.operators l q d hqlt (by omega)).bind fun others r hr hrlt => ?_
  exact settles_pure (Nat.lt_of_lt_of_le hq hr) hrlt

include h

theorem settles_operators (l : Level) (hbound : 7 * (tokens.length - 1 - p) < bound + 1) :
    Settles source tokens (bound + 1) (fun fuel => operators source tokens fuel l) p d
      fun _ q => p ≤ q := by
  refine settles_succ ?_
  obtain ⟨t, ht⟩ := exists_token hp
  refine Settles.after (peek_at ht) ?_
  rcases hop : t.lexeme.bind l.operator? with _ | op
  · exact settles_pure (Nat.le_refl p) hp
  · obtain ⟨x, hx, -⟩ := Option.bind_eq_some_iff.mp hop
    have hheight := height_le l
    refine settles_advance h ht hx fun hlt => ?_
    refine (settles_operand ih hlt l (by omega)).bind fun right q hq hqlt => ?_
    refine (ih.operators l q d hqlt (by omega)).bind fun others r hr hrlt => ?_
    exact settles_pure (by omega) hrlt

theorem settles_unary (hbound : 7 * (tokens.length - 1 - p) + 1 < bound + 1) :
    Settles source tokens (bound + 1) (unary source tokens) p d fun _ q => p < q := by
  refine settles_succ ?_
  obtain ⟨t, ht⟩ := exists_token hp
  have hnegated {l : Lexeme} (hl : t.lexeme = some l) :
      Settles source tokens bound
        (fun fuel => advance tokens >>= fun _ => unary source tokens fuel >>=
          fun inner => pure inner.negate) p d fun _ q => p < q := by
    refine settles_advance h ht hl fun hlt => ?_
    refine (ih.unary (p + 1) d hlt (by omega)).bind fun inner q hq hqlt => ?_
    exact settles_pure (by omega) hqlt
  refine Settles.after (peek_at ht) (settles_ite hnegated fun _ => ?_)
  obtain ⟨negated, hrun, hnot⟩ := startsNegation_at (d := d) h ht
  exact Settles.after hrun (settles_ite (fun hnegation => hnegated (hnot hnegation)) fun _ =>
    ih.term p d hp (by omega))

theorem settles_term (hbound : 7 * (tokens.length - 1 - p) < bound + 1) :
    Settles source tokens (bound + 1) (term source tokens) p d fun _ q => p < q := by
  refine settles_succ ?_
  obtain ⟨t, ht⟩ := exists_token hp
  refine Settles.after (peek_at ht) ?_
  rcases hl : t.lexeme with _ | l
  · exact settles_fail _ _
  cases l with
  | number x => exact settles_advance h ht hl (settles_pure (Nat.lt_succ_self p))
  | string s => exact settles_advance h ht hl (settles_pure (Nat.lt_succ_self p))
  | bool b => exact settles_advance h ht hl (settles_pure (Nat.lt_succ_self p))
  | null => exact settles_advance h ht hl (settles_pure (Nat.lt_succ_self p))
  | word first =>
      refine settles_advance h ht hl fun hlt => ?_
      exact ih.name t.start first (p + 1) d hlt (by omega)
  | symbol x =>
      cases x with
      | leftParen =>
          refine settles_advance h ht hl fun hlt => ?_
          refine (ih.expression hlt (by omega)).bind fun inner q hq hqlt => ?_
          refine (settles_expect h hqlt).bind fun _ r hr hrlt => ?_
          exact settles_pure (by omega) hrlt
      | leftBracket =>
          refine settles_advance h ht hl fun hlt => settles_opened h hlt (by omega) ?_
          refine (ih.items (p + 1) d hlt (by omega)).bind fun found q hq hqlt => ?_
          exact settles_pure (by omega) hqlt
      | leftBrace =>
          refine settles_advance h ht hl fun hlt => settles_opened h hlt (by omega) ?_
          refine (ih.entries (p + 1) d hlt (by omega)).bind fun found q hq hqlt => ?_
          exact settles_pure (by omega) hqlt
      | _ => exact settles_fail _ _

theorem settles_items (hbound : 7 * (tokens.length - 1 - p) + 6 < bound + 1) :
    Settles source tokens (bound + 1) (items source tokens) p d fun _ q => p < q := by
  refine settles_succ ?_
  refine (ih.expression hp (by omega)).bind fun item q hq hqlt => ?_
  refine settles_behindItem h hqlt (by omega) (fun hlt => ?_) fun t => settles_fail _ _
  refine (ih.items (q + 1) d hlt (by omega)).bind fun more r hr hrlt => ?_
  exact settles_pure (by omega) hrlt

theorem settles_entries (hbound : 7 * (tokens.length - 1 - p) < bound + 1) :
    Settles source tokens (bound + 1) (entries source tokens) p d fun _ q => p < q := by
  refine settles_succ ?_
  obtain ⟨t, ht⟩ := exists_token hp
  rcases hl : t.lexeme with _ | l
  · -- The cursor stays at the end of the text, where no key stands.
    refine Settles.after (advance_at_end ht hl) ?_
    rw [hl]
    exact settles_fail _ _
  refine settles_advance h ht hl fun hlt => ?_
  rcases hkey : t.lexeme.bind Lexeme.recordKey? with _ | key
  · exact settles_fail _ _
  refine (settles_expect h hlt).bind fun _ q hq hqlt => ?_
  refine (ih.expression hqlt (by omega)).bind fun value r hr hrlt => ?_
  refine settles_behindItem h hrlt (by omega) (fun hlt => ?_) fun t => settles_fail _ _
  refine (ih.entries (r + 1) d hlt (by omega)).bind fun more e he helt => ?_
  exact settles_pure (by omega) helt

theorem settles_name (start : Nat) (first : String)
    (hbound : 7 * (tokens.length - 1 - p) + 1 < bound + 1) :
    Settles source tokens (bound + 1) (fun fuel => name source tokens fuel start first) p d
      fun _ q => p ≤ q := by
  refine settles_succ ?_
  refine (settles_dotted h hp (by omega)).bind fun parts q hq hqlt => ?_
  obtain ⟨t, ht⟩ := exists_token hqlt
  refine Settles.after (peek_at ht) (settles_ite (fun hopening => ?_) fun _ => ?_)
  · refine (ih.arguments t _ q d ht hopening (by omega)).bind fun args r hr hrlt => ?_
    refine (ih.chain r d hrlt (by omega)).bind fun members e he helt => ?_
    exact settles_ite (fun _ => settles_fail _ _) fun _ => settles_pure (by omega) helt
  · have hget : (get : Act Cursor) ⟨q, d⟩ = .ok (.ok ⟨q, d⟩, ⟨q, d⟩) := rfl
    refine Settles.after hget (settles_ite (fun _ => ?_) fun _ => settles_fail _ _)
    exact settles_pure hq hqlt

theorem settles_argumentItems (ht : t ∈ tokens)
    (hbound : 7 * (tokens.length - 1 - p) + 6 < bound + 1) :
    Settles source tokens (bound + 1) (fun fuel => argumentItems source tokens fuel t.stop) p d
      fun _ q => p < q := by
  refine settles_succ ?_
  refine (ih.expression hp (by omega)).bind fun item q hq hqlt => ?_
  refine settles_behindItem h hqlt (by omega) (fun hlt => ?_) fun u => ?_
  · refine (ih.argumentItems t (q + 1) d ht hlt (by omega)).bind fun more r hr hrlt => ?_
    exact settles_pure (by omega) hrlt
  · rcases u.lexeme with _ | found
    · exact settles_fail _ _
    · exact settles_failArguments ht

theorem settles_chain (hbound : 7 * (tokens.length - 1 - p) < bound + 1) :
    Settles source tokens (bound + 1) (chain source tokens) p d
      fun steps q => p ≤ q ∧ (q = p ↔ steps = []) := by
  refine settles_succ ?_
  obtain ⟨t, ht⟩ := exists_token hp
  refine Settles.after (peek_at ht) (settles_ite (fun hdot => ?_) fun _ => ?_)
  · refine settles_advance h ht hdot fun hlt => ?_
    obtain ⟨u, hu⟩ := exists_token hlt
    rcases hl : u.lexeme with _ | l
    · -- Behind the point the text ends, and the cursor stays there.
      refine Settles.after (advance_at_end hu hl) ?_
      rw [hl]
      exact settles_fail _ _
    refine settles_advance h hu hl fun hlt => ?_
    rw [hl]
    cases l with
    | word key =>
        obtain ⟨v, hv⟩ := exists_token hlt
        refine Settles.after (peek_at hv) (settles_ite (fun hopening => ?_) fun _ => ?_)
        · have hargs := ih.arguments v _ (p + 1 + 1) d hv hopening (by omega)
          refine hargs.bind fun args q hq hqlt => ?_
          refine (ih.chain q d hqlt (by omega)).bind fun others r hr hrlt => ?_
          exact settles_pure ⟨by omega, iff_of_false (by omega) (List.cons_ne_nil _ _)⟩ hrlt
        · refine (ih.chain (p + 1 + 1) d hlt (by omega)).bind fun others r hr hrlt => ?_
          exact settles_pure ⟨by omega, iff_of_false (by omega) (List.cons_ne_nil _ _)⟩ hrlt
    | _ => exact settles_fail _ _
  · exact settles_pure ⟨Nat.le_refl p, iff_of_true rfl rfl⟩ hp

omit hp in
/-- An argument list, from the token in front of it on. -/
theorem settles_arguments (ht : tokens[p]? = some t) (hl : t.lexeme = some l)
    (hbound : 7 * (tokens.length - 1 - p) < bound + 1) :
    Settles source tokens (bound + 1) (arguments source tokens) p d fun _ q => p < q := by
  refine settles_succ (settles_advance h ht hl fun hlt => settles_opened h hlt (by omega) ?_)
  have hitems := ih.argumentItems t (p + 1) (d + 1) (List.mem_of_getElem? ht) hlt (by omega)
  exact settles_insideArguments (hitems.weaken fun _ q hq => by omega)

end

/-- **Each procedure comes to an end** within a number of steps that the tokens before it give. -/
theorem advances (h : Terminated tokens) (bound : Nat) : Advances source tokens bound := by
  -- Each call leaves one step less; a call at the same token goes to a procedure of a smaller
  -- height, and one behind it has seven steps to spare.
  induction bound with
  | zero => constructor <;> intros <;> exact absurd ‹_ < 0› (Nat.not_lt_zero _)
  | succ bound ih =>
      exact {
        level := fun l _ _ hp => settles_level ih hp l
        operators := fun l _ _ hp => settles_operators h ih hp l
        unary := fun _ _ hp => settles_unary h ih hp
        term := fun _ _ hp => settles_term h ih hp
        items := fun _ _ hp => settles_items h ih hp
        entries := fun _ _ hp => settles_entries h ih hp
        name := fun start first _ _ hp => settles_name h ih hp start first
        arguments := fun _ _ _ _ ht hl => settles_arguments h ih ht hl
        argumentItems := fun _ _ _ ht hp => settles_argumentItems h ih hp ht
        chain := fun _ _ hp => settles_chain h ih hp }

/-! ## Procedures on their own

The parser calls the procedures of sequences, records, names and argument lists where their first
token stands. On their own they are called anywhere, and refuse every other token. -/

section

variable (source : List Char) (tokens : List Cell)

/-- The error of a procedure in front of a token that it does not begin with. -/
def refuse (message : String) (token : Cell) : Act α :=
  throw (.malformed message (String.ofList (Source.fragment source token.start)) token.start)

/-- A procedure that begins with a symbol. -/
def startingWith (symbol : Symbol) (act : Act α) : Act α := do
  let token ← peek tokens
  if token.lexeme = some (.symbol symbol) then act
  else refuse source s!"Expected '{symbol.text}', found {describeFound token.lexeme}" token

def sequence (fuel : Nat) : Act Expression :=
  startingWith source tokens .leftBracket (term source tokens fuel)

def record (fuel : Nat) : Act Expression :=
  startingWith source tokens .leftBrace (term source tokens fuel)

/-- A call or a bare word, from its first word on. -/
def named (fuel : Nat) : Act Expression := do
  let token ← advance tokens
  match token.lexeme with
  | some (.word first) => name source tokens fuel token.start first
  | _ => refuse source "Expected command name" token

def argumentList (fuel : Nat) : Act (List Expression) :=
  startingWith source tokens .leftParen (arguments source tokens fuel)

/-- A procedure that reads an expression. -/
inductive Procedure where
  | level (l : Level)
  | unary
  | term
  | sequence
  | record
  | named

/-- What a procedure does in so many steps. -/
def Procedure.act (fuel : Nat) : Procedure → Act Expression
  | level l => Checked.level source tokens fuel l
  | unary => Checked.unary source tokens fuel
  | term => Checked.term source tokens fuel
  | sequence => Checked.sequence source tokens fuel
  | record => Checked.record source tokens fuel
  | named => Checked.named source tokens fuel

end

theorem settles_startingWith {symbol : Symbol} {act : Nat → Act α} (hp : p < tokens.length)
    (hact : ∀ t, tokens[p]? = some t → t.lexeme = some (.symbol symbol) →
      Settles source tokens bound act p d Q) :
    Settles source tokens bound (fun fuel => startingWith source tokens symbol (act fuel)) p d
      Q := by
  obtain ⟨t, ht⟩ := exists_token hp
  exact Settles.after (peek_at ht) (settles_ite (hact t ht) fun _ => settles_throw _)

theorem settles_named (h : Terminated tokens) (hp : p < tokens.length)
    (hbound : 7 * (tokens.length - 1 - p) < bound) :
    Settles source tokens bound (named source tokens) p d fun _ q => p < q := by
  obtain ⟨t, ht⟩ := exists_token hp
  rcases hl : t.lexeme with _ | l
  · refine Settles.after (advance_at_end ht hl) ?_
    rw [hl]
    exact settles_throw _
  refine settles_advance h ht hl fun hlt => ?_
  rw [hl]
  cases l with
  | word first => exact (advances h bound).name t.start first (p + 1) d hlt (by omega)
  | _ => exact settles_throw _

theorem settles_procedure (h : Terminated tokens) (hp : p < tokens.length)
    (procedure : Procedure) :
    Settles source tokens (7 * (tokens.length - 1 - p) + 6)
      (fun fuel => procedure.act source tokens fuel) p d fun _ q => p < q := by
  have hall : Advances source tokens (7 * (tokens.length - 1 - p) + 6) := advances h _
  have hterm := hall.term p d hp (by omega)
  cases procedure with
  | level l =>
      have hheight := height_le l
      exact hall.level l p d hp (by omega)
  | unary => exact hall.unary p d hp (by omega)
  | term => exact hterm
  | sequence => exact settles_startingWith hp fun _ _ _ => hterm
  | record => exact settles_startingWith hp fun _ _ _ => hterm
  | named => exact settles_named h hp (by omega)

/-! ## Texts -/

/-- From every text the parser gives in so many steps what the text is. -/
theorem parse_ends (text : String) {fuel : Nat} (hfuel : 7 * text.toList.length + 5 < fuel) :
    parse Number.read? fuel text = .ok (Expression.parse text) := by
  have hexact : Exact Number.read? := fun _ _ hnumeral => hnumeral.read?
  have haccepts : Accepts Number.read? := fun _ _ hnumeral => by rw [hnumeral.read?]; rfl
  rw [Expression.parse, Source.read, Lexer.tokenize]
  cases hscan : Lexer.scan 0 text.toList with
  | error reason => exact parse_of_rejected haccepts (by omega) hscan
  | ok ts =>
      have hplaced := scan_placed (Checked.rest_zero text.toList) (by rwa [offsetAt_zero])
      have hsame : ts.map (revalued Number.read? text.toList) = ts :=
        (List.map_congr_left fun t ht => revalued_eq hexact (hplaced t ht)).trans (List.map_id ts)
      rw [parse_of_scanned haccepts hfuel hscan, hsame]
      rfl

/-- **Every procedure makes progress and restores its context.** On a vector that ends in the end
of the text, from any token on and inside any number of argument lists, each procedure comes to the
same end in all sufficiently many steps. A procedure that reads an expression or an argument list
then stands behind the token that it began at, but not behind the end of the text; the members
behind a call are none where the cursor stays. As many argument lists are open as before. So every
text is parsed, well-formed or not. -/
theorem procedures_advance {tokens : List Cell} (h : Terminated tokens) {position : Nat}
    (hposition : position < tokens.length) (source : List Char) (depth : Nat) :
    (∀ procedure : Procedure,
      Settles source tokens (7 * (tokens.length - 1 - position) + 6)
        (fun fuel => procedure.act source tokens fuel) position depth
        fun _ after => position < after) ∧
    Settles source tokens (7 * (tokens.length - 1 - position) + 6) (argumentList source tokens)
      position depth (fun _ after => position < after) ∧
    Settles source tokens (7 * (tokens.length - 1 - position) + 6) (chain source tokens)
      position depth (fun steps after => position ≤ after ∧ (after = position ↔ steps = [])) ∧
    ∀ (text : String) (fuel : Nat), 7 * text.toList.length + 5 < fuel →
      parse Number.read? fuel text = .ok (Expression.parse text) := by
  have hall : Advances source tokens (7 * (tokens.length - 1 - position) + 6) := advances h _
  refine ⟨settles_procedure h hposition, ?_, ?_, fun text fuel => parse_ends text⟩
  · exact settles_startingWith hposition fun t ht hopening =>
      hall.arguments t _ position depth ht hopening (by omega)
  · exact hall.chain position depth hposition (by omega)

/-- The tokens of `f(a).b`. -/
def calledMember : List Cell :=
  cells 6 [⟨.word "f", 0, 1⟩, ⟨.symbol .leftParen, 1, 2⟩, ⟨.word "a", 2, 3⟩,
    ⟨.symbol .rightParen, 3, 4⟩, ⟨.symbol .dot, 4, 5⟩, ⟨.word "b", 5, 6⟩]

/-- The member behind a call, inside two argument lists. -/
theorem member_advances :
    Terminated calledMember ∧ 4 < calledMember.length ∧
    Settles "f(a).b".toList calledMember 20 (chain "f(a).b".toList calledMember) 4 2
      (fun steps after => 4 ≤ after ∧ (after = 4 ↔ steps = [])) ∧
    chain "f(a).b".toList calledMember 20 ⟨4, 2⟩ = .ok (.ok [.property "b"], ⟨6, 2⟩) ∧
    7 * "f(a).b".toList.length + 5 < 48 ∧
    parse Number.read? 48 "f(a).b" = .ok (Expression.parse "f(a).b") := by
  have hends : Terminated calledMember := terminated_cells 6 _
  have hlt : 4 < calledMember.length := by decide
  have hfuel : 7 * "f(a).b".toList.length + 5 < 48 := by decide
  obtain ⟨-, -, hchain, hparse⟩ := procedures_advance hends hlt "f(a).b".toList 2
  exact ⟨hends, hlt, hchain, rfl, hfuel, hparse "f(a).b" 48 hfuel⟩

end WhenClause.Checked
