import WhenClause.Proofs.Expression.Outcomes
import WhenClause.Proofs.Safety.Machine

set_option autoImplicit false

/-! # Runs of the parser

Where the parser stands in front of the tokens that are left, each of its steps ends as an outcome
says: behind the tokens that the step takes or with the error of a rejection, with as many argument
lists open as before. So no look at a token, no step of the cursor and no error crashes. -/

namespace WhenClause.Checked

open Lexer (byteLength)
open WhenClause.Parser

variable {α β : Type} {source : List Char} {tokens ts rest : List Token} {depth : Nat}

/-! ## Runs -/

/-- A run ends as an outcome says: behind the tokens that are taken, or with the error of a
rejection. As many argument lists are open as before. -/
def Ends (source : List Char) (tokens : List Token) (depth : Nat)
    (result : Guarded (Except Error α × Cursor)) : Except Rejection (α × List Token) → Prop
  | .ok (x, rest) => ∃ position, result = .ok (.ok x, ⟨position, depth⟩) ∧ Rest tokens position rest
  | .error reason =>
      ∃ position, result = .ok (.error (Source.errorOf source reason), ⟨position, depth⟩)

/-- From the tokens `ts` on, an act ends as an outcome says. -/
def Runs (source : List Char) (tokens : List Token) (act : Act α) (ts : List Token) (depth : Nat)
    (o : Except Rejection (α × List Token)) : Prop :=
  ∀ position, Rest tokens position ts → Ends source tokens depth (act ⟨position, depth⟩) o

theorem runs_pure (x : α) : Runs source tokens (pure x) ts depth (.ok (x, ts)) :=
  fun position h => ⟨position, rfl, h⟩

/-- An act goes on with what the one before gives, where that one leaves the cursor. -/
theorem bind_run {act : Act α} {f : α → Act β} {cursor after : Cursor} {x : α}
    (h : act cursor = .ok (.ok x, after)) : (act >>= f) cursor = f x after := by
  show (act cursor >>= _) = _
  rw [h]
  rfl

theorem Runs.bind {act : Act α} {f : α → Act β} {o : Except Rejection (α × List Token)}
    {g : α × List Token → Except Rejection (β × List Token)}
    (h : Runs source tokens act ts depth o)
    (hf : ∀ x rest, o = .ok (x, rest) → Runs source tokens (f x) rest depth (g (x, rest))) :
    Runs source tokens (act >>= f) ts depth (o >>= g) := by
  intro position hrest
  have hends := h position hrest
  cases o with
  | error reason =>
      obtain ⟨position', hact⟩ := hends
      refine ⟨position', ?_⟩
      show (act ⟨position, depth⟩ >>= _) = _
      rw [hact]
      rfl
  | ok found =>
      obtain ⟨x, rest⟩ := found
      obtain ⟨position', hact, hrest'⟩ := hends
      rw [bind_run hact]
      exact hf x rest rfl position' hrest'

theorem Runs.changed {act : Act α} {o : Except Rejection (α × List Token)}
    (h : Runs source tokens act ts depth o) (f : α → β) :
    Runs source tokens (act >>= fun x => pure (f x)) ts depth (Parser.changed f o) := by
  have hrun := h.bind (g := fun found => .ok (f found.1, found.2)) fun x rest _ => runs_pure (f x)
  cases o <;> exact hrun

/-! ## Tokens -/

def vector (source : List Char) (tokens : List Token) : List Cell :=
  cells (byteLength source) tokens

/-- The current token where the tokens `ts` are left. -/
def current (source : List Char) : List Token → Cell
  | [] => ⟨none, byteLength source, byteLength source⟩
  | t :: _ => cell t

/-- **The token at an index is there**, and no index behind the last token is asked for. -/
theorem tokenAt_eq {position : Nat} (h : Rest tokens position ts) :
    tokenAt (vector source tokens) position = .ok (current source ts) := by
  obtain ⟨front, rfl, rfl⟩ := h
  have hlength : (vector source (front ++ ts)).length = front.length + ts.length + 1 := by
    simp [vector, cells, Nat.add_assoc]
  have hlast : minus (vector source (front ++ ts)).length 1 = .ok (front.length + ts.length) := by
    rw [hlength, minus_eq (by omega), Nat.add_sub_cancel]
  have hcell : (vector source (front ++ ts))[front.length]? = some (current source ts) := by
    rw [vector, cells, List.map_append, List.append_assoc,
      List.getElem?_append_right (Nat.le_of_eq (List.length_map cell)), List.length_map,
      Nat.sub_self]
    cases ts <;> rfl
  rw [tokenAt, hlast]
  show (if _ then _ else _) = _
  rw [if_neg (by omega), Nat.min_eq_left (by omega), hcell]
  rfl

example : tokenAt (vector [] []) 1 = .error .pastEnd := rfl

theorem peekAt_run {position k : Nat} (h : Rest tokens (position + k) ts) :
    peekAt (vector source tokens) k ⟨position, depth⟩
      = .ok (.ok (current source ts), ⟨position, depth⟩) := by
  rw [peekAt, bind_run (x := ⟨position, depth⟩) rfl]
  show (liftM (tokenAt _ (position + k)) : Act Cell) _ = _
  rw [tokenAt_eq h]
  rfl

/-- Looking at the current token changes nothing. -/
theorem runs_peek {f : Cell → Act α} {o : Except Rejection (α × List Token)}
    (h : Runs source tokens (f (current source ts)) ts depth o) :
    Runs source tokens (peek (vector source tokens) >>= f) ts depth o := by
  intro position hrest
  rw [peek, bind_run (peekAt_run (k := 0) hrest)]
  exact h position hrest

/-- Looking behind a token changes nothing. -/
theorem runs_peekAt {t : Token} {f : Cell → Act α} {o : Except Rejection (α × List Token)}
    (h : Runs source tokens (f (current source rest)) (t :: rest) depth o) :
    Runs source tokens (peekAt (vector source tokens) 1 >>= f) (t :: rest) depth o := by
  intro position hrest
  rw [bind_run (peekAt_run hrest.next)]
  exact h position hrest

theorem runs_advance {t : Token} {f : Cell → Act α} {o : Except Rejection (α × List Token)}
    (h : Runs source tokens (f (cell t)) rest depth o) :
    Runs source tokens (advance (vector source tokens) >>= f) (t :: rest) depth o := by
  intro position hrest
  have hadvance : advance (vector source tokens) ⟨position, depth⟩
      = .ok (.ok (cell t), ⟨position + 1, depth⟩) := by
    rw [advance, peek, bind_run (peekAt_run (k := 0) hrest)]
    rfl
  rw [bind_run hadvance]
  exact h (position + 1) hrest.next

/-- The cursor does not move behind the end of the text. -/
theorem runs_advance_nil {f : Cell → Act α} {o : Except Rejection (α × List Token)}
    (h : Runs source tokens (f (current source [])) [] depth o) :
    Runs source tokens (advance (vector source tokens) >>= f) [] depth o := by
  intro position hrest
  have hadvance : advance (vector source tokens) ⟨position, depth⟩
      = .ok (.ok (current source []), ⟨position, depth⟩) := by
    rw [advance, peek, bind_run (peekAt_run (k := 0) hrest)]
    rfl
  rw [bind_run hadvance]
  exact h position hrest

/-! ## Errors -/

theorem runs_fail (cause : Fault) (place : Nat) :
    Runs source tokens (fail source cause place : Act α) ts depth (.error (.fault cause place)) :=
  fun position _ => ⟨position, rfl⟩

theorem runs_reject (cause : Fault) :
    Runs source tokens (fail source cause (current source ts).start : Act α) ts depth
      (reject cause (byteLength source) ts) := by
  cases ts <;> exact runs_fail cause _

/-- The error of an argument list, whose opening parenthesis ends at a place of the text. -/
theorem failArguments_run {opening : Nat} {found : Lexeme} (h : IsBoundary source opening)
    (cursor : Cursor) :
    (failArguments source opening found : Act α) cursor
      = .ok (.error (Source.errorOf source (.arguments opening found)), cursor) := by
  obtain ⟨front, behind, rfl, rfl⟩ := h
  rw [failArguments, argumentText_checked]
  rfl

theorem runs_failArguments {opening : Nat} {found : Lexeme}
    (h : IsBoundary source opening) :
    Runs source tokens (failArguments source opening found : Act α) ts depth
      (.error (.arguments opening found)) :=
  fun position _ => ⟨position, failArguments_run h _⟩

/-! ## Symbols -/

/-- What is done at a token depends on whether it is a symbol. -/
theorem runs_symbol (x : Symbol) {t : Token} {act other : Act α}
    {o o' : Except Rejection (α × List Token)}
    (h : t.lexeme = .symbol x → Runs source tokens act (t :: rest) depth o)
    (h' : t.lexeme ≠ .symbol x → Runs source tokens other (t :: rest) depth o') :
    Runs source tokens
      (if (current source (t :: rest)).lexeme = some (.symbol x) then act else other) (t :: rest) depth
      (if t.lexeme = .symbol x then o else o') := by
  have hlexeme : (current source (t :: rest)).lexeme = some (.symbol x) ↔ t.lexeme = .symbol x :=
    Option.some_inj
  by_cases ht : t.lexeme = .symbol x
  · rw [if_pos (hlexeme.mpr ht), if_pos ht]
    exact h ht
  · rw [if_neg (mt hlexeme.mp ht), if_neg ht]
    exact h' ht

theorem runs_expect {symbol : Symbol} {what : Expected} :
    Runs source tokens (expect source (vector source tokens) symbol what) ts depth
      (closed symbol what (byteLength source) () ts) := by
  refine runs_peek ?_
  cases ts with
  | nil => exact runs_reject (.expected what none)
  | cons t rest =>
      refine runs_symbol symbol (fun _ => ?_) fun _ => ?_
      · exact runs_advance (runs_pure ())
      · exact runs_reject (.expected what (some t.lexeme))

theorem changed_closed {symbol : Symbol} {what : Expected} {stop : Nat} (x : α) (ts : List Token) :
    Parser.changed (fun _ => x) (closed symbol what stop () ts) = closed symbol what stop x ts := by
  cases ts with
  | nil => rfl
  | cons t rest =>
      rw [closed, closed]
      split <;> rfl

/-- Behind an item of a list the next token decides. -/
theorem runs_behindItem {closing : Symbol} {single : α} {more : Act α} {stray : Cell → Act α}
    {moreOutcome : List Token → Except Rejection (α × List Token)}
    {missing : Except Rejection (α × List Token)}
    {strayOutcome : Token → List Token → Except Rejection (α × List Token)}
    (hmore : ∀ rest, rest.length < ts.length →
      Runs source tokens more rest depth (moreOutcome rest))
    (hmissing : Runs source tokens (stray (current source [])) [] depth missing)
    (hstray : ∀ t rest,
      Runs source tokens (stray (current source (t :: rest))) (t :: rest) depth
        (strayOutcome t rest)) :
    Runs source tokens (behindItem (vector source tokens) closing single more stray) ts depth
      (listed closing single moreOutcome missing strayOutcome ts) := by
  refine runs_peek ?_
  cases ts with
  | nil => exact hmissing
  | cons t rest =>
      refine runs_symbol .comma (fun _ => ?_) fun _ => runs_symbol closing (fun _ => ?_) fun _ => ?_
      · exact runs_advance (hmore rest (Nat.lt_succ_self _))
      · exact runs_advance (runs_pure single)
      · exact hstray t rest

theorem insideArguments_run {act : Act α} {position position' : Nat} {result : Except Error α}
    (h : act ⟨position, depth + 1⟩ = .ok (result, ⟨position', depth + 1⟩)) :
    insideArguments act ⟨position, depth⟩ = .ok (result, ⟨position', depth⟩) := by
  have hdepth : minus (depth + 1) 1 = .ok depth := minus_eq (Nat.succ_pos depth)
  show (act ⟨position, depth + 1⟩ >>= _) = _
  rw [h]
  refine (pure_bind (m := Guarded) (result, (⟨position', depth + 1⟩ : Cursor)) _).trans ?_
  show (minus (depth + 1) 1 >>= _) = _
  rw [hdepth]
  rfl

/-- An argument list is counted in and out again. -/
theorem runs_insideArguments {act : Act α} {o : Except Rejection (α × List Token)}
    (h : Runs source tokens act ts (depth + 1) o) :
    Runs source tokens (insideArguments act) ts depth o := by
  intro position hrest
  have hends := h position hrest
  cases o with
  | error reason =>
      obtain ⟨position', hact⟩ := hends
      exact ⟨position', insideArguments_run hact⟩
  | ok found =>
      obtain ⟨position', hact, hrest'⟩ := hends
      exact ⟨position', insideArguments_run hact, hrest'⟩

/-- The word `not` is looked for without taking a token. -/
theorem runs_startsNegation {t : Token} {f : Bool → Act α}
    {o : Except Rejection (α × List Token)}
    (h : Runs source tokens (f (Parser.startsNegation t rest)) (t :: rest) depth o) :
    Runs source tokens (startsNegation (vector source tokens) >>= f) (t :: rest) depth o := by
  intro position hrest
  have hnegation : startsNegation (vector source tokens) ⟨position, depth⟩
      = .ok (.ok (Parser.startsNegation t rest), ⟨position, depth⟩) := by
    rw [startsNegation, peek, bind_run (peekAt_run (k := 0) hrest)]
    by_cases hnot : (current source (t :: rest)).lexeme = some (.word "not")
    · rw [if_pos hnot, bind_run (peekAt_run hrest.next)]
      have hlexeme : t.lexeme = .word "not" := Option.some_inj.mp hnot
      rw [Parser.startsNegation, hlexeme]
      cases rest with
      | nil => simp [current]; rfl
      | cons follower rest => rfl
    · rw [if_neg hnot]
      have hlexeme : (t.lexeme == .word "not") = false :=
        beq_eq_false_iff_ne.mpr fun heq => hnot (congrArg some heq)
      rw [Parser.startsNegation, hlexeme]
      rfl
  rw [bind_run hnegation]
  exact h position hrest

theorem runs_startsNegation_nil {f : Bool → Act α} {o : Except Rejection (α × List Token)}
    (h : Runs source tokens (f false) [] depth o) :
    Runs source tokens (startsNegation (vector source tokens) >>= f) [] depth o := by
  intro position hrest
  have hnegation : startsNegation (vector source tokens) ⟨position, depth⟩
      = .ok (.ok false, ⟨position, depth⟩) := by
    rw [startsNegation, peek, bind_run (peekAt_run (k := 0) hrest)]
    rfl
  rw [bind_run hnegation]
  exact h position hrest

/-! ## Names -/

theorem runs_dotted {fuel : Nat} (hfuel : ts.length < fuel) :
    Runs source tokens (dotted source (vector source tokens) fuel) ts depth
      (outcome (readDotted (byteLength source) ts)) := by
  induction fuel generalizing ts with
  | zero => exact absurd hfuel (Nat.not_lt_zero _)
  | succ fuel ih =>
      refine runs_peek ?_
      cases ts with
      | nil =>
          rw [outcome_readDotted_nil]
          exact runs_pure []
      | cons t rest =>
          rw [outcome_readDotted]
          refine runs_symbol .dot (fun _ => runs_peekAt ?_) fun _ => runs_pure []
          cases rest with
          | nil => exact runs_fail (.expected .nameAfterDot none) _
          | cons u after =>
              dsimp only [current, cell]
              cases u.lexeme with
              | word part =>
                  simp only [List.length_cons] at hfuel
                  exact runs_advance (runs_advance ((ih (by omega)).changed (part :: ·)))
              | _ => exact runs_fail _ _

/-- A word that is not called stands for itself in argument lists only. -/
theorem runs_bareName (start : Nat) (name : String) (ts : List Token) (depth : Nat) :
    Runs source tokens (get >>= fun cursor =>
        if 0 < cursor.depth then pure (.literal (.string name))
        else fail source (.bareName name) start) ts depth
      (bareOutcome (0 < depth) start name ts) := by
  intro position hrest
  rw [bind_run (x := ⟨position, depth⟩) rfl, bareOutcome]
  by_cases hdepth : 0 < depth
  · rw [if_pos hdepth, if_pos (decide_eq_true hdepth)]
    exact runs_pure _ position hrest
  · rw [if_neg hdepth, if_neg (by simpa using hdepth)]
    exact runs_fail _ _ position hrest

end WhenClause.Checked
