import WhenClause.Proofs.Evaluation.FailStop
import WhenClause.Proofs.Expression.Embedding

set_option autoImplicit false

/-! # Negations in front of a text

A text in parentheses with any number of negations in front of it is read as the expression of the
text, negated as often. A negation is kept in two ways, as a flag of an invocation and as a node of
its own, and either way the expression does what it did and gives the other truth value. So the
check of the longer text does what the check of the text does, and only flips the outcome
(`check_negated`). -/

namespace WhenClause

open WhenClause.Lexer WhenClause.Parser

/-! ## Texts -/

namespace Grammar

variable {inside : Bool}

/-- The two ways to write a negation. -/
inductive Negation where
  | mark
  | word

/-- How it is written in front of a term. -/
def Negation.text : Negation → String
  | mark => "!"
  | word => "not "

/-- A text in parentheses with negations in front of it. -/
def negated : List Negation → String → String
  | [], t => grouped t
  | negation :: more, t => negation.text ++ negated more t

/-- Behind an exclamation mark a negated text does not begin another symbol. -/
theorem lexeme_bang_negated (negations : List Negation) (t : String) (r : List Char) :
    lexeme '!' ((negated negations t).toList ++ r) = .ok (.symbol .bang, 0) := by
  rcases negations with _ | ⟨_ | _, more⟩
  · rw [negated, toList_grouped]
    rfl
  · rw [negated, String.toList_append]
    rfl
  · rw [negated, String.toList_append]
    rfl

/-- A negated text stands for the expression, negated as often, and begins with a token that starts
a term. -/
theorem scan_negated {t : String} {e : Expression} (h : Expression.parse t = .ok e)
    (negations : List Negation) {offset : Nat} {r : List Char} {behind : List Token}
    (hbehind : scan (offset + byteLength (negated negations t).toList) r = .ok behind) :
    ∃ token ts, scan offset ((negated negations t).toList ++ r) = .ok (token :: ts) ∧
      token.start = offset ∧ token.lexeme.startsTerm = true ∧
      Derives unchained inside (.unary (Expression.negate^[negations.length] e)) (token :: ts)
        behind := by
  induction negations generalizing offset with
  | nil =>
      have hstands : Stands inside (.unary e) (grouped t).toList := stands_grouped h
      have htext : (negated [] t).toList = '(' :: (t.toList ++ [')']) := toList_grouped t
      obtain ⟨ts, hts, hd⟩ := hstands offset r behind hbehind
      rw [toList_grouped, List.cons_append] at hts
      rw [htext, List.cons_append]
      obtain ⟨l, n, after, hl, -, rfl⟩ := scan_eq_ok alone_leftParen.1 hts
      rw [lexeme_alone alone_leftParen] at hl
      cases hl
      exact ⟨_, after, hts, rfl, rfl, hd⟩
  | cons negation more ih =>
      rw [List.length_cons, Function.iterate_succ_apply']
      cases negation with
      | mark =>
          have htext : (negated (.mark :: more) t).toList = '!' :: (negated more t).toList := by
            rw [negated, String.toList_append]
            rfl
          rw [htext, byteLength_cons, ← Nat.add_assoc] at hbehind
          obtain ⟨token, ts, hts, -, -, hd⟩ := ih hbehind
          rw [htext, List.cons_append]
          exact ⟨_, _, scan_symbol rfl (lexeme_bang_negated more t r) hts, rfl, rfl,
            .negation (Or.inl rfl) hd⟩
      | word =>
          have htext : (negated (.word :: more) t).toList
              = "not".toList ++ ' ' :: (negated more t).toList := by
            rw [negated, String.toList_append]
            rfl
          rw [htext, byteLength_append, byteLength_cons, ← Nat.add_assoc, ← Nat.add_assoc]
            at hbehind
          obtain ⟨token, ts, hts, hstart, hterm, hd⟩ := ih hbehind
          have hword : scan offset ("not".toList ++ ' ' :: ((negated more t).toList ++ r)) =
              (scan (offset + byteLength "not".toList) (' ' :: ((negated more t).toList ++ r))).map
                (⟨.word "not", offset, offset + byteLength "not".toList⟩ :: ·) :=
            scan_word rfl rfl offset
          rw [scan_blank rfl, hts] at hword
          rw [htext, List.append_assoc, List.cons_append]
          -- The blank separates the word from the token behind it, which starts a term.
          refine ⟨_, _, hword, rfl, rfl, .negation (Or.inr ?_) hd⟩
          simp only [startsNegation, List.head?_cons, Option.any_some, hstart, hterm,
            beq_self_eq_true, Bool.and_true, Bool.true_and, decide_eq_true_eq]
          exact Nat.lt_add_of_pos_right (Char.utf8Size_pos ' ')

theorem parse_negated_text {t : String} {e : Expression} (h : Expression.parse t = .ok e)
    (negations : List Negation) :
    Expression.parse (negated negations t)
      = .ok (Expression.negate^[negations.length] e) := by
  have hstands : Stands false (.unary (Expression.negate^[negations.length] e))
      (negated negations t).toList := by
    intro offset r behind hbehind
    obtain ⟨token, ts, hts, -, -, hd⟩ := scan_negated h negations hbehind
    exact ⟨token :: ts, hts, hd⟩
  exact (hstands.operand .or).level.parse

end Grammar

/-! ## Expressions -/

namespace Expression

variable {m : Type → Type} [Monad m]

def checkWith (steps : Steps m) (e : Expression) : ExceptT Error m Bool := do
  return (← evalWith steps e).truthy

variable [LawfulMonad m]

theorem check_eq_checkWith (host : Host m) (e : Expression) :
    e.check host = e.checkWith host.steps := by
  rw [check, eval_eq_evalWith, checkWith]

/-- An invocation gives the same value with and without its flag, negated or not. -/
theorem evalWith_invocation (steps : Steps m) (name : String) (args : List Expression)
    (negated : Bool) (chain : List Step) :
    evalWith steps (.invocation name args negated chain)
      = (Value.negateIf negated ·) <$> evalWith steps (.invocation name args false chain) := by
  have hplain : (fun v : Value => v.negateIf false) = id := rfl
  cases hname : Operator.ofName? name with
  | none =>
      simp only [evalWith_command steps hname, bind_pure_comp, map_bind, Functor.map_map, hplain]
      rfl
  | some op =>
      cases chain with
      | nil =>
          simp only [evalWith_operator steps hname, bind_pure_comp, Functor.map_map]
          rfl
      | cons step rest =>
          simp only [evalWith_operatorChain steps hname, bind_pure_comp, Functor.map_map]
          rfl

/-- **A negation flips the truth value and does nothing else**, whichever way it is kept. -/
theorem checkWith_negate (steps : Steps m) (e : Expression) :
    e.negate.checkWith steps = Bool.not <$> e.checkWith steps := by
  have hwrapped : (Expression.not e).checkWith steps = Bool.not <$> e.checkWith steps := by
    simp only [checkWith, evalWith, bind_pure_comp, Functor.map_map]
    rfl
  cases e with
  | invocation name args negated chain =>
      cases negated with
      | true => exact hwrapped
      | false =>
          rw [negate, checkWith, evalWith_invocation, checkWith]
          simp only [bind_pure_comp, Functor.map_map]
          rfl
  | _ => exact hwrapped

theorem checkWith_negations (steps : Steps m) (e : Expression) (n : Nat) :
    (negate^[n] e).checkWith steps = Bool.not^[n] <$> e.checkWith steps := by
  induction n with
  | zero => exact (id_map _).symm
  | succ n ih =>
      rw [Function.iterate_succ_apply', checkWith_negate, ih, Function.iterate_succ', comp_map]

end Expression

/-! ## Checks -/

namespace EvalM

variable {σ α β : Type}

theorem runAt_map (f : α → β) (x : EvalM σ α) (memory : Memory) (world : σ) :
    runAt (f <$> x) memory world =
      ((runAt x memory world).1.map f, (runAt x memory world).2) := by
  rw [← bind_pure_comp, runAt_bind]
  rcases runAt x memory world with ⟨outcome, memory', world'⟩
  cases outcome <;> rfl

end EvalM

/-- The evaluation of an expression by an evaluator is the one whose deeds are written down. -/
theorem Registry.eval_accounted {σ : Type} (registry : Registry (StateM σ))
    (objects : Objects (StateM σ)) (e : Expression) :
    (accounting σ fun err => ∃ node ∈ e.nodes, node.fault? = some err).rel Eq
      (e.eval ((registry.host objects).memoized registry.debug))
      (e.evalWith (registry.notingSteps objects)) := by
  rw [Expression.eval_eq_evalWith]
  exact Expression.evalWith_simulated (registry.steps_accounted objects) e
    fun node hnode err herr => ⟨node, hnode, herr⟩

theorem Registry.check_accounted {σ : Type} (registry : Registry (StateM σ))
    (objects : Objects (StateM σ)) (e : Expression) :
    (accounting σ fun err => ∃ node ∈ e.nodes, node.fault? = some err).rel Eq
      (e.check ((registry.host objects).memoized registry.debug))
      (e.checkWith (registry.notingSteps objects)) := by
  refine (accounting σ _).bind_rel (registry.eval_accounted objects e) ?_
  rintro v _ rfl
  exact (accounting σ _).pure_rel rfl

open Grammar in
/-- **Negation is exact.** The check of a negated text is the check of the text, with the outcome
flipped as often. For the evaluator of a registry this says that in every memory and world both
leave the same memory and the same world, and do the same deeds. -/
theorem check_negated {t : String} {e : Expression} (h : Expression.parse t = .ok e)
    (negations : List Negation) :
    ∃ e', Expression.parse (negated negations t) = .ok e' ∧
      (∀ (m : Type → Type) [Monad m] [LawfulMonad m] (host : Host m),
        checkText host (negated negations t) = Bool.not^[negations.length] <$> checkText host t) ∧
      ∀ (σ : Type) (registry : Registry (StateM σ)) (objects : Objects (StateM σ))
        (memory : Memory) (world : σ),
        let evaluator := (registry.host objects).memoized registry.debug
        ∃ outcome memory' world' deeds,
          EvalM.runAt (checkText evaluator t) memory world = (outcome, memory', world') ∧
          EvalM.runAt (e.checkWith (registry.notingSteps objects)) memory (world, [])
            = (outcome, memory', world', deeds) ∧
          EvalM.runAt (checkText evaluator (negated negations t)) memory world
            = (outcome.map Bool.not^[negations.length], memory', world') ∧
          EvalM.runAt (e'.checkWith (registry.notingSteps objects)) memory (world, [])
            = (outcome.map Bool.not^[negations.length], memory', world', deeds) := by
  have hparse := parse_negated_text h negations
  have hcheck : ∀ (m : Type → Type) [Monad m] [LawfulMonad m] (host : Host m),
      checkText host (negated negations t) = Bool.not^[negations.length] <$> checkText host t := by
    intro m _ _ host
    rw [checkText_of_parse _ hparse, checkText_of_parse _ h, Expression.check_eq_checkWith,
      Expression.checkWith_negations, Expression.check_eq_checkWith]
  refine ⟨_, hparse, hcheck, ?_⟩
  intro σ registry objects memory world evaluator
  obtain ⟨outcome, memory', world', deeds, hrun, hnoted, -⟩ :=
    FailStop.of_accounting (registry.check_accounted objects e) memory world
  refine ⟨outcome, memory', world', deeds, ?_, hnoted, ?_, ?_⟩
  · rw [checkText_of_parse _ h]
    exact hrun
  · rw [hcheck, EvalM.runAt_map, checkText_of_parse _ h, hrun]
  · rw [Expression.checkWith_negations, EvalM.runAt_map, hnoted]

/-- A comparison keeps its first negation as a flag and the second as a node. -/
theorem comparison_check_negated :
    Expression.parse "x() < y().z" = .ok (.operator .less [.call "x" [],
      .invocation "y" [] false [.property "z"]]) ∧
    ∀ (m : Type → Type) [Monad m] [LawfulMonad m] (host : Host m),
      checkText host "not !(x() < y().z)" = Bool.not^[2] <$> checkText host "x() < y().z" := by
  have hparse : Expression.parse "x() < y().z" = .ok (.operator .less [.call "x" [],
      .invocation "y" [] false [.property "z"]]) := by cbv
  obtain ⟨-, -, hcheck, -⟩ := check_negated hparse [.word, .mark]
  exact ⟨hparse, hcheck⟩

end WhenClause
