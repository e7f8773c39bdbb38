import WhenClause.Proofs.Expression.Grammar

set_option autoImplicit false

/-! # What the readers give

For each reader, what it takes and what it makes of that, in terms of the readers that it uses.
Proofs about the parser need not open it. -/

namespace WhenClause.Parser

/-! ## Results -/

/-- The reader succeeds with a meaning, and leaves tokens. -/
def Gives {α : Type} {n : Nat} (r : Read α n) (x : α) (rest : List Token) : Prop :=
  ∃ reading, r = .ok reading ∧ reading.result = x ∧ reading.rest = rest

section Results

variable {α β : Type} {n k : Nat} {x : α} {y : β} {rest : List Token}

theorem Gives.shorter {r : Read α n} (h : Gives r x rest) : rest.length < n := by
  obtain ⟨reading, -, -, hrest⟩ := h
  rw [← hrest]
  exact reading.shorter

@[simp] theorem gives_ok {reading : Reading α n} :
    Gives (.ok reading : Read α n) x rest ↔ reading.result = x ∧ reading.rest = rest :=
  ⟨by rintro ⟨_, ⟨rfl⟩, h⟩; exact h, fun h => ⟨reading, rfl, h⟩⟩

@[simp] theorem not_gives_error {e : Rejection} : ¬ Gives (.error e : Read α n) x rest := by
  rintro ⟨_, h, -⟩
  cases h

@[simp] theorem not_gives_reject {cause : Fault} {stop : Nat} {ts : List Token} :
    ¬ Gives (reject cause stop ts : Read α n) x rest := not_gives_error

/-- A reader that goes on with what another one gives. -/
theorem gives_bind {r : Read α n} {f : Reading α n → Read β k} :
    Gives (r >>= f) y rest ↔ ∃ reading, r = .ok reading ∧ Gives (f reading) y rest := by
  cases r with
  | ok reading => exact ⟨fun h => ⟨reading, rfl, h⟩, by rintro ⟨_, ⟨rfl⟩, h⟩; exact h⟩
  | error e => exact ⟨fun h => absurd h not_gives_error, by rintro ⟨_, h, -⟩; cases h⟩

/-- A reader that goes on in a way that only depends on the meaning and the tokens left. -/
theorem gives_then {r : Read α n} {f : Reading α n → Read β k} {P : α → List Token → Prop}
    (hf : ∀ reading, Gives (f reading) y rest ↔ P reading.result reading.rest) :
    Gives (r >>= f) y rest ↔ ∃ x mid, Gives r x mid ∧ P x mid := by
  rw [gives_bind]
  constructor
  · rintro ⟨reading, hr, h⟩
    exact ⟨_, _, ⟨reading, hr, rfl, rfl⟩, (hf reading).mp h⟩
  · rintro ⟨_, _, ⟨reading, hr, rfl, rfl⟩, h⟩
    exact ⟨reading, hr, (hf reading).mpr h⟩

/-- A reader that changes the meaning of what another one gives. -/
theorem gives_map {r : Read α n} (f : α → β) {h : ∀ reading : Reading α n, reading.rest.length < k} :
    Gives (r >>= fun reading => .ok ⟨f reading.result, reading.rest, h reading⟩) y rest ↔
      ∃ x, Gives r x rest ∧ f x = y := by
  rw [gives_then (P := fun x mid => f x = y ∧ mid = rest) fun reading => gives_ok]
  constructor
  · rintro ⟨x, _, hx, hy, rfl⟩
    exact ⟨x, hx, hy⟩
  · rintro ⟨x, hx, hy⟩
    exact ⟨x, rest, hx, hy, rfl⟩

end Results

/-- What is said of the first token and the ones behind it, where they are known. -/
theorem iff_exists_cons {ts after : List Token} {t : Token} (h : ts = t :: after) {p : Prop}
    {P : Token → List Token → Prop} (hp : p ↔ P t after) :
    p ↔ ∃ u after', ts = u :: after' ∧ P u after' := by
  rw [hp]
  constructor
  · exact fun hP => ⟨t, after, h, hP⟩
  · rintro ⟨_, _, rfl, hP⟩
    cases h
    exact hP

theorem next_eq_some {ts : List Token} {x : Lexeme} :
    next ts = some x ↔ ∃ t after, ts = t :: after ∧ t.lexeme = x := by
  cases ts with
  | nil => simp [next]
  | cons t after => simp [next]

/-! ## Levels -/

variable {stop : Nat} {inside : Bool} {ts rest : List Token} {e : Expression}

theorem gives_readLevel {l : Level} :
    Gives (readLevel stop inside l ts) e rest ↔
      ∃ first mid, Gives (readOperand stop inside l ts) first mid ∧
        ∃ more, Gives (readMore stop inside l mid) more rest ∧ l.assemble first more = e := by
  rw [readLevel]
  exact gives_then fun first => gives_map (l.assemble first.result)

theorem gives_readMore_stop {l : Level} {more : List (Operator × Expression)}
    (h : ∀ x, next ts = some x → l.operator? x = none) :
    Gives (readMore stop inside l ts) more rest ↔ [] = more ∧ ts = rest := by
  cases ts with
  | nil =>
      rw [readMore]
      exact gives_ok
  | cons t after =>
      rw [readMore]
      simp only [h t.lexeme rfl]
      exact gives_ok

theorem gives_readMore {l : Level} {op : Operator} {more : List (Operator × Expression)}
    {t : Token} (h : l.operator? t.lexeme = some op) :
    Gives (readMore stop inside l (t :: ts)) more rest ↔
      ∃ e mid, Gives (readOperand stop inside l ts) e mid ∧
        ∃ more', Gives (readMore stop inside l mid) more' rest ∧ (op, e) :: more' = more := by
  rw [readMore]
  simp only [h]
  exact gives_then fun operand => gives_map ((op, operand.result) :: ·)

/-! ## Negations and terms -/

theorem gives_readUnary_negation {t : Token}
    (h : t.lexeme = .symbol .bang ∨ startsNegation t ts = true) :
    Gives (readUnary stop inside (t :: ts)) e rest ↔
      ∃ inner, Gives (readUnary stop inside ts) inner rest ∧ inner.negate = e := by
  rw [readUnary, if_pos (by simpa using h)]
  exact gives_map Expression.negate

theorem gives_readUnary_term {t : Token} (hbang : t.lexeme ≠ .symbol .bang)
    (hnot : startsNegation t ts = false) :
    Gives (readUnary stop inside (t :: ts)) e rest ↔
      Gives (readTerm stop inside t ts) e rest := by
  rw [readUnary, if_neg (by simp [hbang, hnot])]

theorem gives_readTerm_group {t : Token} (h : t.lexeme = .symbol .leftParen) :
    Gives (readTerm stop inside t ts) e rest ↔
      ∃ x mid, Gives (readLevel stop inside .or ts) x mid ∧
        ∃ u after, mid = u :: after ∧
          u.lexeme = .symbol .rightParen ∧ x = e ∧ after = rest := by
  rw [readTerm.eq_def]
  simp only [h]
  refine gives_then fun inner => ?_
  split
  next hrest => simp [hrest]
  next u after hrest =>
    refine iff_exists_cons hrest ?_
    split
    next hclose => simp [hclose]
    next hclose => simp [hclose]

/-- A sequence, closed at once or with items. -/
theorem gives_readTerm_sequence {t : Token} (h : t.lexeme = .symbol .leftBracket) :
    Gives (readTerm stop inside t ts) e rest ↔ ∃ u after, ts = u :: after ∧
      (u.lexeme = .symbol .rightBracket ∧ .sequence [] = e ∧ after = rest ∨
        u.lexeme ≠ .symbol .rightBracket ∧
          ∃ es, Gives (readItems stop inside ts) es rest ∧ .sequence es = e) := by
  rw [readTerm.eq_def]
  simp only [h]
  split
  next => simp
  next u after =>
    refine iff_exists_cons rfl ?_
    split
    next hclose => simp [hclose]
    next hclose => exact (gives_map Expression.sequence).trans (by simp [hclose])

/-- A record, closed at once or with entries. -/
theorem gives_readTerm_record {t : Token} (h : t.lexeme = .symbol .leftBrace) :
    Gives (readTerm stop inside t ts) e rest ↔ ∃ u after, ts = u :: after ∧
      (u.lexeme = .symbol .rightBrace ∧ .record [] = e ∧ after = rest ∨
        u.lexeme ≠ .symbol .rightBrace ∧
          ∃ es, Gives (readEntries stop inside ts) es rest ∧ .record es = e) := by
  rw [readTerm.eq_def]
  simp only [h]
  split
  next => simp
  next u after =>
    refine iff_exists_cons rfl ?_
    split
    next hclose => simp [hclose]
    next hclose => exact (gives_map Expression.record).trans (by simp [hclose])

theorem gives_readTerm_literal {t : Token} {l : Literal}
    (h : Grammar.literal? t.lexeme = some l) :
    Gives (readTerm stop inside t ts) e rest ↔ .literal l = e ∧ ts = rest := by
  rw [readTerm.eq_def]
  cases hlexeme : t.lexeme with
  | null | number _ | string _ | bool _ =>
      rw [hlexeme] at h
      cases h
      exact gives_ok
  | word _ | symbol _ =>
      rw [hlexeme] at h
      cases h

theorem gives_readTerm_word {t : Token} {name : String} (h : t.lexeme = .word name) :
    Gives (readTerm stop inside t ts) e rest ↔
      Gives (readName stop inside t name ts) e rest := by
  rw [readTerm.eq_def]
  simp only [h]

/-- A term starts with a literal, a word or an opening bracket of one of three kinds. -/
theorem readTerm_starts {t : Token} (h : Gives (readTerm stop inside t ts) e rest) :
    (∃ l, Grammar.literal? t.lexeme = some l) ∨ (∃ name, t.lexeme = .word name) ∨
      t.lexeme = .symbol .leftParen ∨ t.lexeme = .symbol .leftBracket ∨
        t.lexeme = .symbol .leftBrace := by
  rw [readTerm.eq_def] at h
  cases hlexeme : t.lexeme with
  | null | number _ | string _ | bool _ => exact Or.inl ⟨_, rfl⟩
  | word name => exact Or.inr (Or.inl ⟨name, rfl⟩)
  | symbol x =>
      rw [hlexeme] at h
      cases x with
      | leftParen | leftBracket | leftBrace => simp
      | _ => exact absurd h not_gives_reject

/-- A term does not start with a negation. -/
theorem readTerm_ne_bang {t : Token} (h : Gives (readTerm stop inside t ts) e rest) :
    t.lexeme ≠ .symbol .bang := by
  intro hbang
  rw [readTerm.eq_def, hbang] at h
  exact not_gives_reject h

theorem startsTerm_of_literal? {x : Lexeme} {l : Literal} (h : Grammar.literal? x = some l) :
    x.startsTerm = true := by
  cases x with
  | null | number _ | string _ | bool _ => rfl
  | word _ | symbol _ => cases h

theorem readUnary_starts (h : Gives (readUnary stop inside ts) e rest) :
    ∃ t after, ts = t :: after ∧ t.lexeme.startsTerm = true := by
  cases ts with
  | nil =>
      rw [readUnary] at h
      exact absurd h not_gives_reject
  | cons t after =>
      refine ⟨t, after, rfl, ?_⟩
      by_cases hneg : t.lexeme = .symbol .bang ∨ startsNegation t after = true
      · rcases hneg with hbang | hnot
        · rw [hbang]
          rfl
        · have hword : t.lexeme = .word "not" := by
            simp only [startsNegation, Bool.and_eq_true, beq_iff_eq] at hnot
            exact hnot.1
          rw [hword]
          rfl
      · rw [not_or, Bool.not_eq_true] at hneg
        rcases readTerm_starts ((gives_readUnary_term hneg.1 hneg.2).mp h) with
          ⟨l, hl⟩ | ⟨name, hword⟩ | hopens
        · exact startsTerm_of_literal? hl
        · rw [hword]
          rfl
        · rcases hopens with hopen | hopen | hopen <;> (rw [hopen]; rfl)

/-- An expression of any level begins with a token that starts a term. -/
theorem readLevel_starts {l : Level} {e : Expression} {rest : List Token}
    (h : Gives (readLevel stop inside l ts) e rest) :
    ∃ t after, ts = t :: after ∧ t.lexeme.startsTerm = true := by
  obtain ⟨first, mid, hfirst, -⟩ := gives_readLevel.mp h
  rw [readOperand.eq_def] at hfirst
  cases l with
  | or => exact readLevel_starts hfirst
  | and => exact readLevel_starts hfirst
  | equality => exact readLevel_starts hfirst
  | relational => exact readUnary_starts hfirst
termination_by l.height

/-- What does not start a term is not the first token of an expression. -/
theorem readLevel_starts_ne {l : Level} {x : Lexeme} (hx : x.startsTerm = false)
    (h : Gives (readLevel stop inside l ts) e rest) :
    ∃ t after, ts = t :: after ∧ t.lexeme ≠ x := by
  obtain ⟨t, after, hts, hstarts⟩ := readLevel_starts h
  refine ⟨t, after, hts, fun heq => ?_⟩
  rw [heq, hx] at hstarts
  cases hstarts

/-! ## Lists -/

/-- The items of a sequence: behind each a comma and more items, or the closing bracket. -/
theorem gives_readItems {es : List Expression} :
    Gives (readItems stop inside ts) es rest ↔
      ∃ e mid, Gives (readLevel stop inside .or ts) e mid ∧ ∃ u after, mid = u :: after ∧
        (u.lexeme = .symbol .comma ∧
            (∃ more, Gives (readItems stop inside after) more rest ∧ e :: more = es) ∨
          u.lexeme = .symbol .rightBracket ∧ [e] = es ∧ after = rest) := by
  rw [readItems]
  refine gives_then fun item => ?_
  split
  next hrest => simp [hrest]
  next u after hrest =>
    refine iff_exists_cons hrest ?_
    dsimp only
    split
    next hcomma => exact (gives_map (item.result :: ·)).trans (by simp [hcomma])
    next hcomma =>
      split
      next hclose => simp [hclose]
      next hclose => simp [hcomma, hclose]

/-- The arguments of a list that has some: behind each a comma and more arguments, or the closing
parenthesis. -/
theorem gives_readArgumentItems {opening : Nat} {es : List Expression} :
    Gives (readArgumentItems stop opening ts) es rest ↔
      ∃ e mid, Gives (readLevel stop true .or ts) e mid ∧ ∃ u after, mid = u :: after ∧
        (u.lexeme = .symbol .comma ∧
            (∃ more, Gives (readArgumentItems stop opening after) more rest ∧ e :: more = es) ∨
          u.lexeme = .symbol .rightParen ∧ [e] = es ∧ after = rest) := by
  rw [readArgumentItems]
  refine gives_then fun item => ?_
  split
  next hrest => simp [hrest]
  next u after hrest =>
    refine iff_exists_cons hrest ?_
    dsimp only
    split
    next hcomma => exact (gives_map (item.result :: ·)).trans (by simp [hcomma])
    next hcomma =>
      split
      next hclose => simp [hclose]
      next hclose => simp [hcomma, hclose]

/-- The arguments of a call, closed at once or with items. -/
theorem gives_readArguments {opening : Nat} {es : List Expression} :
    Gives (readArguments stop opening ts) es rest ↔ ∃ t after, ts = t :: after ∧
      (t.lexeme = .symbol .rightParen ∧ [] = es ∧ after = rest ∨
        t.lexeme ≠ .symbol .rightParen ∧ Gives (readArgumentItems stop opening ts) es rest) := by
  rw [readArguments.eq_def]
  split
  next => simp
  next t after =>
    refine iff_exists_cons rfl ?_
    split
    next hclose => simp [hclose]
    next hclose => simp [hclose]

/-- Entries begin with a key and a colon. -/
theorem readEntries_starts {es : List (String × Expression)}
    (h : Gives (readEntries stop inside ts) es rest) :
    ∃ t c after key, ts = t :: c :: after ∧ t.lexeme.recordKey? = some key ∧
      c.lexeme = .symbol .colon := by
  rw [readEntries.eq_def] at h
  split at h
  · exact absurd h not_gives_reject
  split at h
  · exact absurd h not_gives_reject
  split at h
  · exact absurd h not_gives_reject
  split at h
  · exact ⟨_, _, _, _, rfl, ‹_›, ‹_›⟩
  · exact absurd h not_gives_reject

/-- Behind the key and the colon stands a value, and behind the value a comma and more entries, or
the closing brace. -/
theorem gives_readEntries {t c : Token} {key : String} {es : List (String × Expression)}
    (hkey : t.lexeme.recordKey? = some key) (hcolon : c.lexeme = .symbol .colon) :
    Gives (readEntries stop inside (t :: c :: ts)) es rest ↔
      ∃ e mid, Gives (readLevel stop inside .or ts) e mid ∧ ∃ u after, mid = u :: after ∧
        (u.lexeme = .symbol .comma ∧
            (∃ more, Gives (readEntries stop inside after) more rest ∧ (key, e) :: more = es) ∨
          u.lexeme = .symbol .rightBrace ∧ [(key, e)] = es ∧ after = rest) := by
  rw [readEntries.eq_def]
  simp only [hkey, hcolon, if_true]
  refine gives_then fun value => ?_
  split
  next hrest => simp [hrest]
  next u after hrest =>
    refine iff_exists_cons hrest ?_
    split
    next hcomma => exact (gives_map ((key, value.result) :: ·)).trans (by simp [hcomma])
    next hcomma =>
      split
      next hclose => simp [hclose]
      next hclose => simp [hcomma, hclose]

/-! ## Names -/

theorem gives_readDotted_stop {parts : List String} (h : next ts ≠ some (.symbol .dot)) :
    Gives (readDotted stop ts) parts rest ↔ [] = parts ∧ ts = rest := by
  cases ts with
  | nil =>
      rw [readDotted]
      exact gives_ok
  | cons t after =>
      rw [readDotted.eq_def]
      simp only
      rw [if_neg (by simpa [next] using h)]
      exact gives_ok

theorem readDotted_starts {t : Token} {parts : List String} (ht : t.lexeme = .symbol .dot)
    (h : Gives (readDotted stop (t :: ts)) parts rest) :
    ∃ u after part, ts = u :: after ∧ u.lexeme = .word part := by
  rw [readDotted.eq_def] at h
  simp only [ht, if_true] at h
  split at h
  · exact absurd h not_gives_reject
  split at h
  · exact ⟨_, _, _, rfl, ‹_›⟩
  · exact absurd h not_gives_reject

theorem gives_readDotted {t u : Token} {part : String} {parts : List String}
    (ht : t.lexeme = .symbol .dot) (hu : u.lexeme = .word part) :
    Gives (readDotted stop (t :: u :: ts)) parts rest ↔
      ∃ more, Gives (readDotted stop ts) more rest ∧ part :: more = parts := by
  rw [readDotted.eq_def]
  simp only [ht, hu, if_true]
  exact gives_map (part :: ·)

/-- The end of a call: a name that is an operator's lets no chain pass. -/
theorem gives_finish {n k : Nat} {name : String} {args : List Expression} {rejection : Rejection}
    {r : Read (List Step) n} {h : ∀ reading : Reading (List Step) n, reading.rest.length < k} :
    Gives (r >>= fun chain =>
        if !chain.result.isEmpty && (Operator.ofName? name).isSome then .error rejection
        else .ok ⟨.invocation name args false chain.result, chain.rest, h chain⟩) e rest ↔
      ∃ steps, Gives r steps rest ∧ (steps ≠ [] → Operator.ofName? name = none) ∧
        .invocation name args false steps = e := by
  rw [gives_then (P := fun steps mid => (steps ≠ [] → Operator.ofName? name = none) ∧
    .invocation name args false steps = e ∧ mid = rest) fun chain => ?_]
  · constructor
    · rintro ⟨steps, _, hsteps, hname, he, rfl⟩
      exact ⟨steps, hsteps, hname, he⟩
    · rintro ⟨steps, hsteps, hname, he⟩
      exact ⟨steps, rest, hsteps, hname, he, rfl⟩
  · split
    next hchained =>
      simp only [Bool.and_eq_true, Bool.not_eq_true', List.isEmpty_eq_false_iff,
        Option.isSome_iff_ne_none] at hchained
      simp [hchained]
    next hchained =>
      have hname : chain.result ≠ [] → Operator.ofName? name = none := by simpa using hchained
      exact gives_ok.trans ⟨fun h => ⟨hname, h⟩, fun h => h.2⟩

/-- A name is called, or it stands for itself inside an argument list. -/
theorem gives_readName {t : Token} {first : String} :
    Gives (readName stop inside t first ts) e rest ↔
      ∃ parts mid, Gives (readDotted stop ts) parts mid ∧
        ((∃ u after, mid = u :: after ∧ u.lexeme = .symbol .leftParen ∧
            ∃ args mid', Gives (readArguments stop u.stop after) args mid' ∧
              ∃ steps, Gives (readChain stop mid') steps rest ∧
                (steps ≠ [] → Operator.ofName? (dottedName first parts) = none) ∧
                .invocation (dottedName first parts) args false steps = e) ∨
          next mid ≠ some (.symbol .leftParen) ∧ inside = true ∧
            .literal (.string (dottedName first parts)) = e ∧ mid = rest) := by
  rw [readName]
  refine gives_then fun parts => ?_
  generalize dottedName first parts.result = name
  split
  next u after hrest =>
    dsimp only
    split
    next hopen =>
      have hnext : next parts.rest = some (.symbol .leftParen) :=
        next_eq_some.mpr ⟨u, after, hrest, hopen⟩
      have hcall := iff_exists_cons hrest (P := fun u after => u.lexeme = .symbol .leftParen ∧
        ∃ args mid', Gives (readArguments stop u.stop after) args mid' ∧
          ∃ steps, Gives (readChain stop mid') steps rest ∧
            (steps ≠ [] → Operator.ofName? name = none) ∧
              .invocation name args false steps = e) (and_iff_right hopen).symm
      rw [← hcall, hnext]
      simp only [ne_eq, not_true, false_and, or_false]
      exact gives_then fun args => gives_finish
    next hopen =>
      split
      next hbare => simp [hrest, hopen, next, hbare]
      next hbare => simp [hrest, hopen, hbare]
  next hrest =>
    split
    next hbare => simp [hrest, next, hbare]
    next hbare => simp [hrest, hbare]

/-! ## Chains -/

theorem gives_readChain_stop {steps : List Step} (h : next ts ≠ some (.symbol .dot)) :
    Gives (readChain stop ts) steps rest ↔ [] = steps ∧ ts = rest := by
  cases ts with
  | nil =>
      rw [readChain]
      exact gives_ok
  | cons t after =>
      rw [readChain.eq_def]
      simp only
      rw [if_neg (by simpa [next] using h)]
      exact gives_ok

theorem readChain_starts {t : Token} {steps : List Step} (ht : t.lexeme = .symbol .dot)
    (h : Gives (readChain stop (t :: ts)) steps rest) :
    ∃ u after key, ts = u :: after ∧ u.lexeme = .word key := by
  rw [readChain.eq_def] at h
  simp only [ht, if_true] at h
  split at h
  · exact absurd h not_gives_reject
  split at h
  · exact ⟨_, _, _, rfl, ‹_›⟩
  · exact absurd h not_gives_reject

theorem gives_readChain_property {t u : Token} {key : String} {steps : List Step}
    (ht : t.lexeme = .symbol .dot) (hu : u.lexeme = .word key)
    (hnext : next ts ≠ some (.symbol .leftParen)) :
    Gives (readChain stop (t :: u :: ts)) steps rest ↔
      ∃ more, Gives (readChain stop ts) more rest ∧ .property key :: more = steps := by
  rw [readChain.eq_def]
  simp only [ht, hu, if_true]
  split
  next p inner =>
    rw [if_neg (by simpa [next] using hnext)]
    exact gives_map (Step.property key :: ·)
  next =>
    have hend (more : List Step) : Gives (readChain stop []) more rest ↔ [] = more ∧ [] = rest :=
      gives_readChain_stop (by simp [next])
    simp only [gives_ok, hend]
    constructor
    · rintro ⟨rfl, rfl⟩
      exact ⟨[], ⟨rfl, rfl⟩, rfl⟩
    · rintro ⟨_, ⟨rfl, rfl⟩, rfl⟩
      exact ⟨rfl, rfl⟩

theorem gives_readChain_method {t u p : Token} {name : String} {steps : List Step}
    (ht : t.lexeme = .symbol .dot) (hu : u.lexeme = .word name)
    (hp : p.lexeme = .symbol .leftParen) :
    Gives (readChain stop (t :: u :: p :: ts)) steps rest ↔
      ∃ args mid, Gives (readArguments stop p.stop ts) args mid ∧
        ∃ more, Gives (readChain stop mid) more rest ∧ .method name args :: more = steps := by
  rw [readChain.eq_def]
  simp only [ht, hu, hp, if_true]
  exact gives_then fun args => gives_map (Step.method name args.result :: ·)

end WhenClause.Parser
