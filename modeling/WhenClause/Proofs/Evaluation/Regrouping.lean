import WhenClause.Proofs.Evaluation.Negation

set_option autoImplicit false

/-! # Operands in groups, and their negations

A logical operator asks its operands in their order, up to the first one that decides. Where the
operands are put into groups, each an invocation of the operator again, the same operands are asked
in the same order, and the same one decides. And the negated operands of the one operator are
decided by the other at the same place. So neither can be told from the plain invocation, whatever
the operands do and whether or not they fail (`Expression.logical_regrouped`). -/

namespace WhenClause

/-! ## Searches in lists -/

section

variable {m : Type → Type} [Monad m] {α β : Type}

theorem anyM_map (p : β → m Bool) (f : α → β) (as : List α) :
    (as.map f).anyM p = as.anyM fun a => p (f a) := by
  induction as with
  | nil => rfl
  | cons a as ih => rw [List.map_cons, List.anyM_cons, List.anyM_cons, ih]

variable [LawfulMonad m]

theorem allM_map (p : β → m Bool) (f : α → β) (as : List α) :
    (as.map f).allM p = as.allM fun a => p (f a) := by
  rw [List.allM_eq_not_anyM_not, List.allM_eq_not_anyM_not, anyM_map]

theorem anyM_append (p : α → m Bool) (as bs : List α) :
    (as ++ bs).anyM p =
      as.anyM p >>= fun found => if found then pure true else bs.anyM p := by
  induction as with
  | nil => simp
  | cons a as ih =>
      rw [List.cons_append, List.anyM_cons, List.anyM_cons, ih, bind_assoc]
      refine bind_congr fun found => ?_
      cases found <;> simp

/-- A search goes through groups as it goes through their items. -/
theorem anyM_flatten (p : α → m Bool) (groups : List (List α)) :
    groups.flatten.anyM p = groups.anyM fun group => group.anyM p := by
  induction groups with
  | nil => rfl
  | cons group groups ih => rw [List.flatten_cons, anyM_append, List.anyM_cons, ih]

theorem allM_flatten (p : α → m Bool) (groups : List (List α)) :
    groups.flatten.allM p = groups.allM fun group => group.allM p := by
  have hgroup (group : List α) :
      (!·) <$> group.allM p = group.anyM fun a => (!·) <$> p a := by
    rw [List.allM_eq_not_anyM_not, Functor.map_map]
    simp
  rw [List.allM_eq_not_anyM_not, List.allM_eq_not_anyM_not, anyM_flatten]
  simp only [hgroup]

end

namespace Expression

/-! ## Operands -/

variable {m : Type → Type} [Monad m] (steps : Steps m)

/-- An `and` looks for an operand that is not truthy. -/
theorem allWith_eq_allM [LawfulMonad m] (operands : List Expression) :
    allWith steps operands = operands.allM (checkWith steps) := by
  induction operands with
  | nil => rw [allWith, List.allM_nil]
  | cons e rest ih =>
      rw [allWith, List.allM_cons, checkWith, bind_assoc, ih]
      exact bind_congr fun v => by rw [pure_bind]

/-- An `or` looks for an operand that is truthy. -/
theorem anyWith_eq_anyM [LawfulMonad m] (operands : List Expression) :
    anyWith steps operands = operands.anyM (checkWith steps) := by
  induction operands with
  | nil => rw [anyWith, List.anyM_nil]
  | cons e rest ih =>
      rw [anyWith, List.anyM_cons, checkWith, bind_assoc, ih]
      exact bind_congr fun v => by rw [pure_bind]

variable [LawfulMonad m]

theorem evalWith_and (operands : List Expression) :
    evalWith steps (operator .and operands) = Value.bool <$> operands.allM (checkWith steps) := by
  rw [operator, call, evalWith_operator steps (Operator.ofName?_name .and), operatorWith_and,
    allWith_eq_allM, bind_assoc, ← bind_pure_comp]
  exact bind_congr fun b => pure_bind _ _

theorem evalWith_or (operands : List Expression) :
    evalWith steps (operator .or operands) = Value.bool <$> operands.anyM (checkWith steps) := by
  rw [operator, call, evalWith_operator steps (Operator.ofName?_name .or), operatorWith_or,
    anyWith_eq_anyM, bind_assoc, ← bind_pure_comp]
  exact bind_congr fun b => pure_bind _ _

/-- What a group of operands decides. -/
theorem checkWith_and (operands : List Expression) :
    (operator .and operands).checkWith steps = operands.allM (checkWith steps) := by
  rw [checkWith, evalWith_and, bind_pure_comp, Functor.map_map]
  exact id_map _

theorem checkWith_or (operands : List Expression) :
    (operator .or operands).checkWith steps = operands.anyM (checkWith steps) := by
  rw [checkWith, evalWith_or, bind_pure_comp, Functor.map_map]
  exact id_map _

/-! ## Groups and negations -/

theorem evalWith_and_groups (groups : List (List Expression)) :
    evalWith steps (operator .and groups.flatten)
      = evalWith steps (operator .and (groups.map (operator .and))) := by
  simp only [evalWith_and, allM_flatten, allM_map, checkWith_and]

theorem evalWith_or_groups (groups : List (List Expression)) :
    evalWith steps (operator .or groups.flatten)
      = evalWith steps (operator .or (groups.map (operator .or))) := by
  simp only [evalWith_or, anyM_flatten, anyM_map, checkWith_or]

/-- A negated operator gives the negated truth value. -/
theorem evalWith_negated_operator (op : Operator) (operands : List Expression) :
    evalWith steps (operator op operands).negate
      = (Value.negateIf true ·) <$> evalWith steps (operator op operands) :=
  evalWith_invocation steps op.name operands true []

theorem evalWith_not_and (operands : List Expression) :
    evalWith steps (operator .and operands).negate
      = evalWith steps (operator .or (operands.map negate)) := by
  rw [evalWith_negated_operator, evalWith_and, evalWith_or, List.allM_eq_not_anyM_not, anyM_map]
  simp only [checkWith_negate, Functor.map_map]
  refine congrArg (· <$> _) (funext fun b => ?_)
  cases b <;> rfl

theorem evalWith_not_or (operands : List Expression) :
    evalWith steps (operator .or operands).negate
      = evalWith steps (operator .and (operands.map negate)) := by
  rw [evalWith_negated_operator, evalWith_and, evalWith_or, allM_map, List.allM_eq_not_anyM_not]
  simp only [checkWith_negate, Functor.map_map, Bool.not_not, id_map']
  rfl

/-! ## Expressions that cannot be told apart -/

/-- Two expressions that cannot be told apart by evaluating them. -/
structure Indistinct (e e' : Expression) : Prop where
  /-- Every host evaluates both by the same computation. -/
  eval_eq : ∀ (m : Type → Type) [Monad m] [LawfulMonad m] (host : Host m),
    e.eval host = e'.eval host
  /-- For the evaluator of a registry, from every memory and in every world, both have the same
  outcome, do the same deeds, and leave the same memory and the same world. -/
  deeds_eq : ∀ (σ : Type) (registry : Registry (StateM σ)) (objects : Objects (StateM σ))
      (memory : Memory) (world : σ),
    let evaluator := (registry.host objects).memoized registry.debug
    ∃ outcome memory' world' deeds,
      EvalM.runAt (e.eval evaluator) memory world = (outcome, memory', world') ∧
      EvalM.runAt (e.evalWith (registry.notingSteps objects)) memory (world, [])
        = (outcome, memory', world', deeds) ∧
      EvalM.runAt (e'.eval evaluator) memory world = (outcome, memory', world') ∧
      EvalM.runAt (e'.evalWith (registry.notingSteps objects)) memory (world, [])
        = (outcome, memory', world', deeds)

/-- Expressions with the same evaluation over all steps cannot be told apart. -/
theorem Indistinct.of_steps {e e' : Expression}
    (h : ∀ (m : Type → Type) [Monad m] [LawfulMonad m] (steps : Steps m),
      e.evalWith steps = e'.evalWith steps) : Indistinct e e' where
  eval_eq m _ _ host := by rw [eval_eq_evalWith, eval_eq_evalWith, h]
  deeds_eq σ registry objects memory world := by
    obtain ⟨outcome, memory', world', deeds, hrun, hnoted, -⟩ :=
      FailStop.of_accounting (registry.eval_accounted objects e) memory world
    refine ⟨outcome, memory', world', deeds, hrun, hnoted, ?_, ?_⟩
    · rw [eval_eq_evalWith, ← h, ← eval_eq_evalWith, hrun]
    · rw [← h, hnoted]

/-- **Regrouping and duality of the logical operators.** An `and` of operands cannot be told from
the `and` of the `and`s of any groups that the operands are cut into, one after the other, and
neither can an `or` from the `or` of `or`s. The negation of an `and` cannot be told from the `or`
of the negated operands, nor that of an `or` from the `and` of them. -/
theorem logical_regrouped (groups : List (List Expression)) (operands : List Expression) :
    Indistinct (operator .and groups.flatten) (operator .and (groups.map (operator .and))) ∧
    Indistinct (operator .or groups.flatten) (operator .or (groups.map (operator .or))) ∧
    Indistinct (operator .and operands).negate (operator .or (operands.map negate)) ∧
    Indistinct (operator .or operands).negate (operator .and (operands.map negate)) :=
  ⟨.of_steps fun _ _ _ steps => evalWith_and_groups steps groups,
    .of_steps fun _ _ _ steps => evalWith_or_groups steps groups,
    .of_steps fun _ _ _ steps => evalWith_not_and steps operands,
    .of_steps fun _ _ _ steps => evalWith_not_or steps operands⟩

end Expression

end WhenClause
