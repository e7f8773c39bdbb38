import WhenClause.Proofs.Expression.Outcomes

set_option autoImplicit false

/-! # Tokens in other places

The readers look at the lexemes of tokens, and at their places only to tell whether a word `not`
is a negation, and to say where a fault is. So tokens of the same lexemes, with the same
negations among them, are read alike (`Alike.readAll`). -/

namespace WhenClause

/-- Why a text was rejected, but not where. -/
def Rejection.unplaced : Rejection → Rejection
  | .fault cause _ => .fault cause 0
  | .arguments _ found => .arguments 0 found

namespace Parser

/-- The same lexemes, and the same negations among them. -/
inductive Alike : List Token → List Token → Prop
  | nil : Alike [] []
  | cons {t t' : Token} {ts ts' : List Token} : t.lexeme = t'.lexeme →
      startsNegation t ts = startsNegation t' ts' → Alike ts ts' → Alike (t :: ts) (t' :: ts')

/-! ## Outcomes that agree -/

variable {α β : Type} {stop stop' : Nat} {bare : Bool} {ts ts' : List Token}

/-- The same meaning with tokens left that are alike, or rejections for the same reason. -/
def Agree : Except Rejection (α × List Token) → Except Rejection (α × List Token) → Prop
  | .ok (x, rest), .ok (y, rest') => x = y ∧ Alike rest rest'
  | .error e, .error e' => e.unplaced = e'.unplaced
  | _, _ => False

theorem agree_ok (x : α) (h : Alike ts ts') : Agree (.ok (x, ts)) (.ok (x, ts')) := ⟨rfl, h⟩

theorem agree_reject (cause : Fault) (us us' : List Token) :
    Agree (reject cause stop us : Except Rejection (α × List Token)) (reject cause stop' us') := rfl

theorem Agree.bind {o o' : Except Rejection (α × List Token)}
    {f g : α × List Token → Except Rejection (β × List Token)} (h : Agree o o')
    (hf : ∀ x rest rest', o = .ok (x, rest) → Alike rest rest' →
      Agree (f (x, rest)) (g (x, rest'))) : Agree (o >>= f) (o' >>= g) := by
  match o, o' with
  | .ok (x, rest), .ok (y, rest') =>
      obtain ⟨rfl, hrest⟩ := h
      exact hf x rest rest' rfl hrest
  | .error _, .error _ => exact h
  | .ok _, .error _ => exact h.elim
  | .error _, .ok _ => exact h.elim

theorem Agree.changed {o o' : Except Rejection (α × List Token)} (f : α → β) (h : Agree o o') :
    Agree (changed f o) (changed f o') := by
  match o, o' with
  | .ok (x, rest), .ok (y, rest') => exact ⟨congrArg f h.1, h.2⟩
  | .error _, .error _ => exact h
  | .ok _, .error _ => exact h.elim
  | .error _, .ok _ => exact h.elim

theorem agree_closed (symbol : Symbol) (what : Expected) (x : α) (h : Alike ts ts') :
    Agree (closed symbol what stop x ts) (closed symbol what stop' x ts') := by
  cases h with
  | nil => exact agree_reject _ _ _
  | cons hlexeme _ hrest =>
      rw [closed, closed, hlexeme]
      split
      · exact agree_ok x hrest
      · exact agree_reject _ _ _

theorem agree_listed {closing : Symbol} {single : α}
    {more more' : List Token → Except Rejection (α × List Token)}
    {missing missing' : Except Rejection (α × List Token)}
    {stray stray' : Token → List Token → Except Rejection (α × List Token)} (h : Alike ts ts')
    (hmore : ∀ after after', after.length < ts.length → Alike after after' →
      Agree (more after) (more' after'))
    (hmissing : Agree missing missing')
    (hstray : ∀ u u' after after', u.lexeme = u'.lexeme →
      Agree (stray u after) (stray' u' after')) :
    Agree (listed closing single more missing stray ts)
      (listed closing single more' missing' stray' ts') := by
  cases h with
  | nil => exact hmissing
  | cons hlexeme _ hrest =>
      rw [listed, listed, hlexeme]
      split
      · exact hmore _ _ (Nat.lt_succ_self _) hrest
      · split
        · exact agree_ok single hrest
        · exact hstray _ _ _ _ hlexeme

/-! ## The readers -/

theorem agree_readDotted {ts ts' : List Token} (h : Alike ts ts') :
    Agree (outcome (readDotted stop ts)) (outcome (readDotted stop' ts')) := by
  match h with
  | .nil =>
      rw [outcome_readDotted_nil, outcome_readDotted_nil]
      exact agree_ok _ .nil
  | .cons hlexeme hnegates hrest =>
      rw [outcome_readDotted, outcome_readDotted, hlexeme]
      split
      · match hrest with
        | .nil => exact agree_reject _ _ _
        | .cons hpart _ hafter =>
            dsimp only
            rw [hpart]
            split
            · exact (agree_readDotted hafter).changed _
            · exact agree_reject _ _ _
      · exact agree_ok _ (.cons hlexeme hnegates hrest)
termination_by ts.length

mutual

theorem agree_readLevel {bare : Bool} (l : Level) {ts ts' : List Token} (h : Alike ts ts') :
    Agree (outcome (readLevel stop bare l ts)) (outcome (readLevel stop' bare l ts')) := by
  rw [outcome_readLevel, outcome_readLevel]
  refine (agree_readOperand l h).bind fun first rest rest' hfirst hrest => ?_
  have := length_lt_of_outcome hfirst
  exact (agree_readMore l hrest).changed _
termination_by (ts.length, 2 * l.height + 1)

theorem agree_readOperand {bare : Bool} (l : Level) {ts ts' : List Token} (h : Alike ts ts') :
    Agree (outcome (readOperand stop bare l ts)) (outcome (readOperand stop' bare l ts')) := by
  rw [outcome_readOperand, outcome_readOperand]
  cases l with
  | or => exact agree_readLevel .and h
  | and => exact agree_readLevel .equality h
  | equality => exact agree_readLevel .relational h
  | relational => exact agree_readUnary h
termination_by (ts.length, 2 * l.height)

theorem agree_readMore {bare : Bool} (l : Level) {ts ts' : List Token} (h : Alike ts ts') :
    Agree (outcome (readMore stop bare l ts)) (outcome (readMore stop' bare l ts')) := by
  match h with
  | .nil =>
      rw [outcome_readMore_nil, outcome_readMore_nil]
      exact agree_ok _ .nil
  | .cons hlexeme hnegates hrest =>
      rw [outcome_readMore, outcome_readMore, hlexeme]
      split
      · exact agree_ok _ (.cons hlexeme hnegates hrest)
      · refine (agree_readOperand l hrest).bind fun operand mid mid' hoperand hmid => ?_
        have := length_lt_of_outcome hoperand
        exact (agree_readMore l hmid).changed _
termination_by (ts.length, 0)

theorem agree_readUnary {bare : Bool} {ts ts' : List Token} (h : Alike ts ts') :
    Agree (outcome (readUnary stop bare ts)) (outcome (readUnary stop' bare ts')) := by
  match h with
  | .nil =>
      rw [outcome_readUnary_nil, outcome_readUnary_nil]
      exact agree_reject _ _ _
  | .cons hlexeme hnegates hrest =>
      rw [outcome_readUnary, outcome_readUnary, hlexeme, hnegates]
      split
      · exact (agree_readUnary hrest).changed _
      · exact agree_readTerm hlexeme hrest
termination_by (ts.length, 2)

theorem agree_readTerm {bare : Bool} {t t' : Token} (hlexeme : t.lexeme = t'.lexeme)
    {ts ts' : List Token} (h : Alike ts ts') :
    Agree (outcome (readTerm stop bare t ts)) (outcome (readTerm stop' bare t' ts')) := by
  rw [outcome_readTerm, outcome_readTerm, hlexeme]
  split
  · exact agree_ok _ h
  · exact agree_ok _ h
  · exact agree_ok _ h
  · exact agree_ok _ h
  · exact agree_readName t t' _ h
  · exact (agree_readLevel .or h).bind fun x rest rest' _ hrest => agree_closed _ _ x hrest
  · match h with
    | .nil => exact agree_reject _ _ _
    | .cons hu hnegates hafter =>
        dsimp only
        rw [hu]
        split
        · exact agree_ok _ hafter
        · exact (agree_readItems (.cons hu hnegates hafter)).changed _
  · match h with
    | .nil => exact agree_reject _ _ _
    | .cons hu hnegates hafter =>
        dsimp only
        rw [hu]
        split
        · exact agree_ok _ hafter
        · exact (agree_readEntries (.cons hu hnegates hafter)).changed _
  · exact agree_reject _ _ _
termination_by ((t :: ts).length, 1)

theorem agree_readItems {bare : Bool} {ts ts' : List Token} (h : Alike ts ts') :
    Agree (outcome (readItems stop bare ts)) (outcome (readItems stop' bare ts')) := by
  rw [outcome_readItems, outcome_readItems]
  refine (agree_readLevel .or h).bind fun item rest rest' hitem hrest => ?_
  have hrest_lt := length_lt_of_outcome hitem
  dsimp only
  refine agree_listed hrest (fun after after' hlength hafter => ?_) (agree_reject _ _ _) ?_
  · exact (agree_readItems hafter).changed _
  · intro u u' after after' hu
    rw [hu]
    exact agree_reject _ _ _
termination_by (ts.length, 12)

theorem agree_readEntries {bare : Bool} {ts ts' : List Token} (h : Alike ts ts') :
    Agree (outcome (readEntries stop bare ts)) (outcome (readEntries stop' bare ts')) := by
  rw [outcome_readEntries, outcome_readEntries]
  match h with
  | .nil => exact agree_reject _ _ _
  | @Alike.cons t t' us us' hlexeme _ hrest =>
      dsimp only
      rw [hlexeme]
      split
      · exact agree_reject _ _ _
      · refine (agree_closed .colon .colon () hrest).bind fun _ mid mid' hcolon hmid => ?_
        have hmid_lt : mid.length < (t :: us).length :=
          Nat.lt_succ_of_lt (length_lt_of_closed hcolon)
        refine (agree_readLevel .or hmid).bind fun value rest rest' hvalue hrest' => ?_
        have hrest_lt := length_lt_of_outcome hvalue
        dsimp only
        refine agree_listed hrest' (fun after after' hlength hafter => ?_) (agree_reject _ _ _) ?_
        · have hafter_lt : after.length < (t :: us).length := by omega
          exact (agree_readEntries hafter).changed _
        · intro u u' after after' hu
          rw [hu]
          exact agree_reject _ _ _
termination_by (ts.length, 0)

theorem agree_readName {bare : Bool} (t t' : Token) (first : String) {ts ts' : List Token}
    (h : Alike ts ts') :
    Agree (outcome (readName stop bare t first ts))
      (outcome (readName stop' bare t' first ts')) := by
  rw [outcome_readName, outcome_readName]
  refine (agree_readDotted h).bind fun parts rest rest' hparts hrest => ?_
  have hrest_lt := length_lt_of_outcome hparts
  have hbare : ∀ {us us'}, Alike us us' →
      Agree (bareOutcome bare t.start (dottedName first parts) us)
        (bareOutcome bare t'.start (dottedName first parts) us') := by
    intro us us' hus
    unfold bareOutcome
    split
    · exact agree_ok _ hus
    · exact rfl
  cases hrest with
  | nil => exact hbare .nil
  | @cons u u' us us' hu hnegates hafter =>
      have hafter_lt : us.length < ts.length := Nat.lt_of_succ_lt_succ hrest_lt
      dsimp only [nameOutcome]
      rw [hu]
      split
      · refine (agree_readArguments hafter).bind fun args mid mid' hargs hmid => ?_
        have hmid_lt := length_lt_of_outcome hargs
        refine (agree_readChain hmid).bind fun chain after after' _ hend => ?_
        dsimp only
        split
        · exact rfl
        · exact agree_ok _ hend
      · exact hbare (.cons hu hnegates hafter)
termination_by (ts.length + 1, 0)

theorem agree_readArguments {opening opening' : Nat} {ts ts' : List Token} (h : Alike ts ts') :
    Agree (outcome (readArguments stop opening ts))
      (outcome (readArguments stop' opening' ts')) := by
  rw [outcome_readArguments, outcome_readArguments]
  match h with
  | .nil => exact agree_reject _ _ _
  | .cons hlexeme hnegates hrest =>
      dsimp only
      rw [hlexeme]
      split
      · exact agree_ok _ hrest
      · exact agree_readArgumentItems (.cons hlexeme hnegates hrest)
termination_by (ts.length, 13)

theorem agree_readArgumentItems {opening opening' : Nat} {ts ts' : List Token} (h : Alike ts ts') :
    Agree (outcome (readArgumentItems stop opening ts))
      (outcome (readArgumentItems stop' opening' ts')) := by
  rw [outcome_readArgumentItems, outcome_readArgumentItems]
  refine (agree_readLevel .or h).bind fun item rest rest' hitem hrest => ?_
  have hrest_lt := length_lt_of_outcome hitem
  dsimp only
  refine agree_listed hrest (fun after after' hlength hafter => ?_) (agree_reject _ _ _) ?_
  · exact (agree_readArgumentItems hafter).changed _
  · intro u u' after after' hu
    exact congrArg (Rejection.arguments 0) hu
termination_by (ts.length, 12)

theorem agree_readChain {ts ts' : List Token} (h : Alike ts ts') :
    Agree (outcome (readChain stop ts)) (outcome (readChain stop' ts')) := by
  match h with
  | .nil =>
      rw [outcome_readChain_nil, outcome_readChain_nil]
      exact agree_ok _ .nil
  | .cons hlexeme hnegates hrest =>
      rw [outcome_readChain, outcome_readChain, hlexeme]
      split
      · match hrest with
        | .nil => exact agree_reject _ _ _
        | .cons hu _ hafter =>
            dsimp only
            rw [hu]
            split
            · match hafter with
              | .nil => exact agree_ok _ .nil
              | .cons hp hpnegates hinner =>
                  dsimp only
                  rw [hp]
                  split
                  · refine (agree_readArguments hinner).bind fun args mid mid' hargs hmid => ?_
                    have := length_lt_of_outcome hargs
                    exact (agree_readChain hmid).changed _
                  · exact (agree_readChain (.cons hp hpnegates hinner)).changed _
            · exact agree_reject _ _ _
      · exact agree_ok _ (.cons hlexeme hnegates hrest)
termination_by (ts.length, 0)

end

/-! ## Texts of tokens -/

theorem Agree.mapError_eq {o o' : Except Rejection (Expression × List Token)} (h : Agree o o') :
    (o >>= finished stop).mapError Rejection.unplaced
      = (o' >>= finished stop').mapError Rejection.unplaced := by
  match o, o' with
  | .ok (x, rest), .ok (y, rest') =>
      obtain ⟨rfl, hrest⟩ := h
      cases hrest with
      | nil => rfl
      | cons hlexeme _ _ =>
          show Except.error (Rejection.fault (.unexpected _) 0) = Except.error _
          rw [hlexeme]
          rfl
  | .error _, .error _ => exact congrArg Except.error h
  | .ok _, .error _ => exact h.elim
  | .error _, .ok _ => exact h.elim

/-- **Tokens that are alike are read alike**, up to the places of faults. -/
theorem Alike.readAll {ts ts' : List Token} (h : Alike ts ts') :
    (readAll ⟨ts, stop⟩).mapError Rejection.unplaced
      = (Parser.readAll ⟨ts', stop'⟩).mapError Rejection.unplaced := by
  have hempty {ts ts' : List Token} (h : Alike ts ts') : ts.isEmpty = ts'.isEmpty := by
    cases h <;> rfl
  rw [readAll_eq, readAll_eq, hempty h]
  split
  · rfl
  · exact (agree_readLevel .or h).mapError_eq

end Parser

end WhenClause
