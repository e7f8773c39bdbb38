import WhenClause.Expression.Parser

set_option autoImplicit false

/-! # What the readers do, whole

A reading carries the evidence that tokens were taken. Without it, what a reader does is a meaning
and the tokens left, or a rejection, and each reader is given by an equation over the outcomes of
the readers that it uses. Where only results matter, `Gives` says less; the equations here also
say which rejection there is. -/

namespace WhenClause.Parser

variable {α β : Type} {n k : Nat}

/-! ## Outcomes -/

/-- What a reader does: a meaning and the tokens left, or why there is none. -/
def outcome (r : Read α n) : Except Rejection (α × List Token) :=
  r.map fun reading => (reading.result, reading.rest)

/-- A reader that goes on in a way that only depends on the meaning and the tokens left. -/
theorem outcome_bind {r : Read α n} {f : Reading α n → Read β k}
    {g : α × List Token → Except Rejection (β × List Token)}
    (h : ∀ reading, outcome (f reading) = g (reading.result, reading.rest)) :
    outcome (r >>= f) = outcome r >>= g := by
  cases r with
  | error e => rfl
  | ok reading => exact h reading

/-- Tokens that are left are fewer than those that there were. -/
theorem length_lt_of_outcome {r : Read α n} {x : α} {rest : List Token}
    (h : outcome r = .ok (x, rest)) : rest.length < n := by
  cases r with
  | error e => cases h
  | ok reading =>
      cases h
      exact reading.shorter

/-- The same outcome with another meaning. -/
def changed (f : α → β) (o : Except Rejection (α × List Token)) :
    Except Rejection (β × List Token) :=
  o.map fun found => (f found.1, found.2)

theorem outcome_changed (f : α → β) {r : Read α n}
    {h : ∀ reading : Reading α n, reading.rest.length < k} :
    outcome (r >>= fun reading => .ok ⟨f reading.result, reading.rest, h reading⟩)
      = changed f (outcome r) := by
  cases r <;> rfl

/-! ## Levels -/

variable {stop : Nat} {bare : Bool}

theorem outcome_readLevel (l : Level) (ts : List Token) :
    outcome (readLevel stop bare l ts) =
      outcome (readOperand stop bare l ts) >>= fun first =>
        changed (l.assemble first.1) (outcome (readMore stop bare l first.2)) := by
  rw [readLevel]
  exact outcome_bind fun first => outcome_changed (l.assemble first.result)

/-- The operand of a level: an expression of the next level, or a term with its negations. -/
def operandOutcome (stop : Nat) (bare : Bool) (ts : List Token) :
    Level → Except Rejection (Expression × List Token)
  | .or => outcome (readLevel stop bare .and ts)
  | .and => outcome (readLevel stop bare .equality ts)
  | .equality => outcome (readLevel stop bare .relational ts)
  | .relational => outcome (readUnary stop bare ts)

theorem outcome_readOperand (l : Level) (ts : List Token) :
    outcome (readOperand stop bare l ts) = operandOutcome stop bare ts l := by
  rw [readOperand.eq_def]
  cases l <;> rfl

theorem outcome_readMore_nil (l : Level) :
    outcome (readMore stop bare l []) = .ok ([], []) := by
  rw [readMore]
  rfl

theorem outcome_readMore (l : Level) (t : Token) (rest : List Token) :
    outcome (readMore stop bare l (t :: rest)) =
      match l.operator? t.lexeme with
      | none => .ok ([], t :: rest)
      | some op => outcome (readOperand stop bare l rest) >>= fun operand =>
          changed ((op, operand.1) :: ·) (outcome (readMore stop bare l operand.2)) := by
  rw [readMore.eq_def]
  dsimp only
  cases l.operator? t.lexeme with
  | none => rfl
  | some op => exact outcome_bind fun operand => outcome_changed ((op, operand.result) :: ·)

/-! ## Negations and terms -/

theorem outcome_readUnary_nil :
    outcome (readUnary stop bare []) = reject .missingOperand stop [] := by
  rw [readUnary]
  rfl

/-- Where no tokens are left an operand is missing, at every level. -/
theorem outcome_readLevel_nil (l : Level) :
    outcome (readLevel stop bare l []) = reject .missingOperand stop [] := by
  have hmissing {l : Level} (h : operandOutcome stop bare [] l = reject .missingOperand stop []) :
      outcome (readLevel stop bare l []) = reject .missingOperand stop [] := by
    rw [outcome_readLevel, outcome_readOperand, h]
    rfl
  have hrelational := hmissing (l := .relational) outcome_readUnary_nil
  have hequality := hmissing (l := .equality) hrelational
  have hand := hmissing (l := .and) hequality
  cases l with
  | or => exact hmissing hand
  | and => exact hand
  | equality => exact hequality
  | relational => exact hrelational

theorem outcome_readUnary (t : Token) (rest : List Token) :
    outcome (readUnary stop bare (t :: rest)) =
      if t.lexeme = .symbol .bang || startsNegation t rest then
        changed Expression.negate (outcome (readUnary stop bare rest))
      else outcome (readTerm stop bare t rest) := by
  rw [readUnary.eq_def]
  dsimp only
  split
  · exact outcome_changed Expression.negate
  · rfl

/-- What stands behind a phrase that a symbol closes. -/
def closed (symbol : Symbol) (what : Expected) (stop : Nat) (x : α) :
    List Token → Except Rejection (α × List Token)
  | [] => reject (.expected what none) stop []
  | u :: after =>
      if u.lexeme = .symbol symbol then .ok (x, after)
      else reject (.expected what (some u.lexeme)) stop (u :: after)

theorem length_lt_of_closed {symbol : Symbol} {what : Expected} {x y : α} {ts rest : List Token}
    (h : closed symbol what stop x ts = .ok (y, rest)) : rest.length < ts.length := by
  cases ts with
  | nil => cases h
  | cons u after =>
      rw [closed] at h
      split at h
      · cases h
        exact Nat.lt_succ_self _
      · cases h

theorem outcome_readTerm (t : Token) (rest : List Token) :
    outcome (readTerm stop bare t rest) =
      match t.lexeme with
      | .number x => .ok (.literal (.number x), rest)
      | .string s => .ok (.literal (.string s), rest)
      | .bool b => .ok (.literal (.bool b), rest)
      | .null => .ok (.literal .null, rest)
      | .word name => outcome (readName stop bare t name rest)
      | .symbol .leftParen => outcome (readLevel stop bare .or rest) >>= fun inner =>
          closed .rightParen .closeParen stop inner.1 inner.2
      | .symbol .leftBracket =>
          match rest with
          | [] => reject .missingOperand stop []
          | u :: after =>
              if u.lexeme = .symbol .rightBracket then .ok (.sequence [], after)
              else changed Expression.sequence (outcome (readItems stop bare (u :: after)))
      | .symbol .leftBrace =>
          match rest with
          | [] => reject (.expected .recordKey none) stop []
          | u :: after =>
              if u.lexeme = .symbol .rightBrace then .ok (.record [], after)
              else changed Expression.record (outcome (readEntries stop bare (u :: after)))
      | found => reject (.unexpected (some found)) stop (t :: rest) := by
  rw [readTerm.eq_def]
  cases hlexeme : t.lexeme with
  | symbol x =>
      cases x with
      | leftParen =>
          refine outcome_bind fun inner => ?_
          dsimp only
          split
          next hrest =>
            exact (congrArg (closed .rightParen .closeParen stop inner.result) hrest).symm
          next u after hrest =>
            refine Eq.trans ?_
              (congrArg (closed .rightParen .closeParen stop inner.result) hrest).symm
            rw [closed]
            split <;> rfl
      | leftBracket =>
          cases rest with
          | nil => rfl
          | cons u after =>
              dsimp only
              split
              · rfl
              · exact outcome_changed Expression.sequence
      | leftBrace =>
          cases rest with
          | nil => rfl
          | cons u after =>
              dsimp only
              split
              · rfl
              · exact outcome_changed Expression.record
      | _ => rfl
  | _ => rfl

/-! ## Lists -/

/-- What stands behind an item of a list: a comma and more items, the symbol that closes the list,
nothing, or a stray token. -/
def listed (closing : Symbol) (single : α)
    (more : List Token → Except Rejection (α × List Token))
    (missing : Except Rejection (α × List Token))
    (stray : Token → List Token → Except Rejection (α × List Token)) :
    List Token → Except Rejection (α × List Token)
  | [] => missing
  | u :: after =>
      if u.lexeme = .symbol .comma then more after
      else if u.lexeme = .symbol closing then .ok (single, after)
      else stray u after

theorem outcome_readItems (ts : List Token) :
    outcome (readItems stop bare ts) =
      outcome (readLevel stop bare .or ts) >>= fun item =>
        listed .rightBracket [item.1]
          (fun after => changed (item.1 :: ·) (outcome (readItems stop bare after)))
          (reject (.expected .commaOrBracket none) stop [])
          (fun u after => reject (.expected .commaOrBracket (some u.lexeme)) stop (u :: after))
          item.2 := by
  rw [readItems]
  refine outcome_bind fun item => ?_
  dsimp only
  split
  next hrest => exact (congrArg (listed _ _ _ _ _) hrest).symm
  next u after hrest =>
    refine Eq.trans ?_ (congrArg (listed _ _ _ _ _) hrest).symm
    rw [listed]
    split
    · exact outcome_changed (item.result :: ·)
    · split <;> rfl

theorem outcome_readArgumentItems (opening : Nat) (ts : List Token) :
    outcome (readArgumentItems stop opening ts) =
      outcome (readLevel stop true .or ts) >>= fun item =>
        listed .rightParen [item.1]
          (fun after => changed (item.1 :: ·) (outcome (readArgumentItems stop opening after)))
          (reject .unclosedArguments stop [])
          (fun u _ => .error (.arguments opening u.lexeme)) item.2 := by
  rw [readArgumentItems]
  refine outcome_bind fun item => ?_
  dsimp only
  split
  next hrest => exact (congrArg (listed _ _ _ _ _) hrest).symm
  next u after hrest =>
    refine Eq.trans ?_ (congrArg (listed _ _ _ _ _) hrest).symm
    rw [listed]
    split
    · exact outcome_changed (item.result :: ·)
    · split <;> rfl

theorem outcome_readArguments (opening : Nat) (ts : List Token) :
    outcome (readArguments stop opening ts) =
      match ts with
      | [] => reject .missingOperand stop []
      | t :: rest =>
          if t.lexeme = .symbol .rightParen then .ok ([], rest)
          else outcome (readArgumentItems stop opening (t :: rest)) := by
  rw [readArguments.eq_def]
  cases ts with
  | nil => rfl
  | cons t rest =>
      dsimp only
      split <;> rfl

/-- The value of an entry, and the entries behind it. -/
def entryOutcome (stop : Nat) (bare : Bool) (key : String) (ts : List Token) :
    Except Rejection (List (String × Expression) × List Token) :=
  outcome (readLevel stop bare .or ts) >>= fun value =>
    listed .rightBrace [(key, value.1)]
      (fun after => changed ((key, value.1) :: ·) (outcome (readEntries stop bare after)))
      (reject (.expected .commaOrBrace none) stop [])
      (fun u after => reject (.expected .commaOrBrace (some u.lexeme)) stop (u :: after)) value.2

theorem outcome_readEntries (ts : List Token) :
    outcome (readEntries stop bare ts) =
      match ts with
      | [] => reject (.expected .recordKey none) stop []
      | t :: rest =>
          match t.lexeme.recordKey? with
          | none => reject (.expected .recordKey (some t.lexeme)) stop (t :: rest)
          | some key => closed .colon .colon stop () rest >>= fun found =>
              entryOutcome stop bare key found.2 := by
  rw [readEntries.eq_def]
  cases ts with
  | nil => rfl
  | cons t rest =>
      dsimp only
      cases t.lexeme.recordKey? with
      | none => rfl
      | some key =>
          cases rest with
          | nil => rfl
          | cons c rest =>
              dsimp only [closed]
              split
              next hcolon =>
                refine outcome_bind fun value => ?_
                dsimp only
                split
                next hrest => exact (congrArg (listed _ _ _ _ _) hrest).symm
                next u after hrest =>
                  refine Eq.trans ?_ (congrArg (listed _ _ _ _ _) hrest).symm
                  rw [listed]
                  split
                  · exact outcome_changed ((key, value.result) :: ·)
                  · split <;> rfl
              next => rfl

/-! ## Names -/

theorem outcome_readDotted_nil : outcome (readDotted stop []) = .ok ([], []) := by
  rw [readDotted]
  rfl

theorem outcome_readDotted (t : Token) (rest : List Token) :
    outcome (readDotted stop (t :: rest)) =
      if t.lexeme = .symbol .dot then
        match rest with
        | [] => reject (.expected .nameAfterDot none) stop []
        | u :: after =>
            match u.lexeme with
            | .word part => changed (part :: ·) (outcome (readDotted stop after))
            | found => reject (.expected .nameAfterDot (some found)) stop (u :: after)
      else .ok ([], t :: rest) := by
  rw [readDotted.eq_def]
  dsimp only
  split
  · cases rest with
    | nil => rfl
    | cons u after =>
        dsimp only
        cases u.lexeme with
        | word part => exact outcome_changed (part :: ·)
        | _ => rfl
  · rfl

/-- A call behind its opening parenthesis. -/
def callOutcome (stop start opening : Nat) (name : String) (ts : List Token) :
    Except Rejection (Expression × List Token) :=
  outcome (readArguments stop opening ts) >>= fun args =>
    outcome (readChain stop args.2) >>= fun chain =>
      if !chain.1.isEmpty && (Operator.ofName? name).isSome then
        .error (.fault (.operatorChain name) start)
      else .ok (.invocation name args.1 false chain.1, chain.2)

/-- A name that is not called. -/
def bareOutcome (bare : Bool) (start : Nat) (name : String) (ts : List Token) :
    Except Rejection (Expression × List Token) :=
  if bare then .ok (.literal (.string name), ts) else .error (.fault (.bareName name) start)

/-- What a name is by what stands behind it. -/
def nameOutcome (stop : Nat) (bare : Bool) (start : Nat) (name : String) :
    List Token → Except Rejection (Expression × List Token)
  | [] => bareOutcome bare start name []
  | u :: after =>
      if u.lexeme = .symbol .leftParen then callOutcome stop start u.stop name after
      else bareOutcome bare start name (u :: after)

theorem outcome_readName (t : Token) (first : String) (rest : List Token) :
    outcome (readName stop bare t first rest) =
      outcome (readDotted stop rest) >>= fun parts =>
        nameOutcome stop bare t.start (dottedName first parts.1) parts.2 := by
  rw [readName]
  refine outcome_bind fun parts => ?_
  dsimp only
  generalize dottedName first parts.result = name
  split
  next u after hrest =>
    refine Eq.trans ?_ (congrArg (nameOutcome stop bare t.start name) hrest).symm
    rw [nameOutcome]
    split
    · refine outcome_bind fun args => outcome_bind fun chain => ?_
      dsimp only
      split <;> rfl
    · cases bare <;> rfl
  next hrest =>
    refine Eq.trans ?_ (congrArg (nameOutcome stop bare t.start name) hrest).symm
    cases bare <;> rfl

/-! ## Chains -/

theorem outcome_readChain_nil : outcome (readChain stop []) = .ok ([], []) := by
  rw [readChain]
  rfl

theorem outcome_readChain (t : Token) (rest : List Token) :
    outcome (readChain stop (t :: rest)) =
      if t.lexeme = .symbol .dot then
        match rest with
        | [] => reject (.expected .memberName none) stop []
        | u :: after =>
            match u.lexeme with
            | .word key =>
                match after with
                | [] => .ok ([.property key], [])
                | p :: inner =>
                    if p.lexeme = .symbol .leftParen then
                      outcome (readArguments stop p.stop inner) >>= fun args =>
                        changed (.method key args.1 :: ·) (outcome (readChain stop args.2))
                    else changed (.property key :: ·) (outcome (readChain stop (p :: inner)))
            | found => reject (.expected .memberName (some found)) stop (u :: after)
      else .ok ([], t :: rest) := by
  rw [readChain.eq_def]
  dsimp only
  split
  · cases rest with
    | nil => rfl
    | cons u after =>
        dsimp only
        cases u.lexeme with
        | word key =>
            cases after with
            | nil => rfl
            | cons p inner =>
                dsimp only
                split
                · exact outcome_bind fun args => outcome_changed (Step.method key args.result :: ·)
                · exact outcome_changed (Step.property key :: ·)
        | _ => rfl
  · rfl

/-! ## Texts of tokens -/

/-- What is read when nothing must be left. -/
def finished (stop : Nat) (found : Expression × List Token) : Except Rejection Expression :=
  match found.2 with
  | [] => .ok found.1
  | t :: rest => reject (.unexpected (some t.lexeme)) stop (t :: rest)

theorem readAll_eq (tokens : Tokens) :
    readAll tokens =
      if tokens.list.isEmpty then .error (.fault .emptyExpression 0)
      else outcome (readLevel tokens.stop false .or tokens.list) >>= finished tokens.stop := by
  unfold readAll
  cases readLevel tokens.stop false .or tokens.list <;> rfl

end WhenClause.Parser
