import WhenClause.Proofs.Condition.Translation
import WhenClause.Proofs.Evaluation.Session

set_option autoImplicit false

/-! # Conditions and their expressions agree

Checking a condition and evaluating its expression are one and the same: the same outcome, the
same memory and log, and the same calls in the same order (`Condition.check_agrees`). -/

namespace WhenClause

open Stateful

/-! ## What is compared -/

theorem Cache.mem_insertEntry {key : CallKey} {v : Value} {entries : List (CallKey × Value)}
    {e : CallKey × Value} (h : e ∈ Cache.insertEntry key v entries) :
    e = (key, v) ∨ ∃ e' ∈ entries, e.1 = e'.1 := by
  induction entries with
  | nil => exact Or.inl (by simpa [Cache.insertEntry] using h)
  | cons head rest ih =>
      obtain ⟨k, w⟩ := head
      unfold Cache.insertEntry at h
      split at h
      · rcases List.mem_cons.mp h with rfl | h
        · exact Or.inr ⟨(k, w), List.mem_cons_self, rfl⟩
        · exact Or.inr ⟨e, List.mem_cons_of_mem _ h, rfl⟩
      · rcases List.mem_cons.mp h with rfl | h
        · exact Or.inr ⟨(k, w), List.mem_cons_self, rfl⟩
        · refine (ih h).imp_right ?_
          rintro ⟨e', he', heq⟩
          exact ⟨e', List.mem_cons_of_mem _ he', heq⟩

/-- No refused name was ever answered. -/
def Untouched (r : Refusals) (memory : Memory) : Prop :=
  ∀ entry ∈ memory.cache.entries, r.error? entry.1.name = none

namespace Untouched

variable {r : Refusals} {memory : Memory}

theorem empty (r : Refusals) : Untouched r Memory.empty := fun _ h => absurd h List.not_mem_nil

theorem remembering {name : String} (h : Untouched r memory) (hname : r.error? name = none)
    (verbose : Bool) (args : List Value) (v : Value) :
    Untouched r (Host.remembering verbose memory name args v) := by
  intro entry hmem
  rw [Host.remembering_cache] at hmem
  rcases Cache.mem_insertEntry hmem with rfl | ⟨e', he', heq⟩
  · exact hname
  · rw [heq]
    exact h e' he'

theorem find?_eq_none {name : String} {e : Error} (h : Untouched r memory)
    (hname : r.error? name = some e) (args : List Value) :
    memory.cache.find? (CallKey.of name args) = none := by
  unfold Cache.find?
  rw [Option.map_eq_none_iff, List.find?_eq_none]
  intro entry hmem hsame
  have heq : entry.1.name = name := by
    simp only [CallKey.same, Bool.and_eq_true, beq_iff_eq] at hsame
    exact hsame.1
  have hnone := h entry hmem
  rw [heq, hname] at hnone
  cases hnone

end Untouched

/-- Two computations agree when they do the same in every memory without refused names, whatever
comes after them. What comes after sees only such memories. -/
def agreement (m : Type → Type) [Monad m] [LawfulMonad m] (r : Refusals) :
    Congruence (StateT Memory m) (StateT Memory m) where
  rel {α} x y := ∀ memory, Untouched r memory →
    ∀ {γ : Type} (k l : Except Error α × Memory → m γ),
      (∀ outcome t, Untouched r t → k (outcome, t) = l (outcome, t)) →
      runIn x memory >>= k = runIn y memory >>= l
  pure_rel a memory h _ k l hkl := by
    rw [runIn_pure, pure_bind, pure_bind]
    exact hkl _ _ h
  throw_rel e memory h _ k l hkl := by
    rw [runIn_throw, pure_bind, pure_bind]
    exact hkl _ _ h
  bind_rel {α β x y f g} hx hf memory h _ k l hkl := by
    rw [runIn_bind, runIn_bind, bind_assoc, bind_assoc]
    refine hx memory h _ _ fun outcome t ht => ?_
    cases outcome with
    | ok a => exact hf a t ht k l hkl
    | error e =>
        rw [pure_bind, pure_bind]
        exact hkl _ _ ht

variable {m : Type → Type} [Monad m] [LawfulMonad m]

/-- Agreement makes two computations equal where nothing is remembered yet. -/
theorem runIn_eq_of_agreement {r : Refusals} {α : Type} {x y : ExceptT Error (StateT Memory m) α}
    (h : (agreement m r).rel x y) : runIn x Memory.empty = runIn y Memory.empty := by
  have hpure := h Memory.empty (Untouched.empty r) pure pure fun _ _ _ => rfl
  rwa [bind_pure, bind_pure] at hpure

/-! ## What is asked of the host -/

variable (host : Host m) (verbose : Bool) {r : Refusals}

/-- A call of a name that is not refused. -/
theorem invoke_agrees {name : String} (hname : r.error? name = none) (args : List Value) :
    (agreement m r).rel ((host.memoized verbose).invoke name args)
      (((host.refusing r).memoized verbose).invoke name args) := by
  intro memory h γ k l hkl
  -- Both sides look the call up in the same memory, and only a miss comes to the host.
  cases hfind : memory.cache.find? (CallKey.of name args) with
  | some v =>
      rw [Host.memoized_hit host verbose hfind, Host.memoized_hit _ verbose hfind, pure_bind,
        pure_bind]
      exact hkl _ _ h
  | none =>
      rw [Host.memoized_miss host verbose hfind, Host.memoized_miss _ verbose hfind,
        Host.refusing_invoke hname, bind_assoc, bind_assoc]
      refine bind_congr fun outcome => ?_
      cases outcome with
      | ok v =>
          rw [pure_bind, pure_bind]
          exact hkl _ _ (h.remembering hname verbose args v)
      | error e =>
          rw [pure_bind, pure_bind]
          exact hkl _ _ h

/-- A call of a refused name fails with its error. -/
theorem throw_agrees {name : String} {e : Error} (hname : r.error? name = some e)
    (args : List Value) :
    (agreement m r).rel (throw e) (((host.refusing r).memoized verbose).invoke name args) := by
  intro memory h γ k l hkl
  rw [Host.memoized_miss _ verbose (h.find?_eq_none hname args),
    Host.refusing_invoke_error hname]
  show pure (Except.error e, memory) >>= k = (pure (Except.error e) >>= _) >>= l
  rw [pure_bind, pure_bind, pure_bind]
  exact hkl _ _ h

/-! ## Truth values -/

theorem Value.truthy_negateIf (negated : Bool) (v : Value) :
    (v.negateIf negated).truthy = (v.truthy != negated) := by
  cases negated
  · exact (Bool.bne_false _).symm
  · exact (Bool.bne_true _).symm

namespace Expression

variable {n : Type → Type} [Monad n] [LawfulMonad n] (host : Host n)

/-- The truth value of an invocation of a command. -/
theorem check_command {name : String} (h : Operator.ofName? name = none) (args : List Expression)
    (negated : Bool) :
    check host (.invocation name args negated []) =
      evalItems host args >>= fun values =>
        host.invoke name values >>= fun v => pure (v.truthy != negated) := by
  unfold check
  rw [eval_command host h]
  simp only [bind_assoc, evalChain_nil, pure_bind, Value.truthy_negateIf]

theorem check_comparison {op : Operator} (h : op.isLogical = false) (left right : Expression)
    (negated : Bool) :
    check host (.invocation op.name [left, right] negated []) =
      eval host left >>= fun a =>
        eval host right >>= fun b => pure (op.holds a b != negated) := by
  unfold check
  rw [eval_operator host (Operator.ofName?_name op), evalOperator_comparison host h]
  simp only [bind_assoc, pure_bind, Value.truthy_negateIf]
  rfl

theorem check_and (operands : List Expression) :
    check host (.operator .and operands) = evalAll host operands := by
  unfold check operator call
  rw [eval_operator host (Operator.ofName?_name .and), evalOperator_and]
  simp only [bind_assoc, pure_bind, Value.negateIf, Value.truthy, Bool.false_eq_true, if_false,
    bind_pure]

theorem check_or (operands : List Expression) :
    check host (.operator .or operands) = evalAny host operands := by
  unfold check operator call
  rw [eval_operator host (Operator.ofName?_name .or), evalOperator_or]
  simp only [bind_assoc, pure_bind, Value.negateIf, Value.truthy, Bool.false_eq_true, if_false,
    bind_pure]

theorem evalAll_check (e : Expression) (rest : List Expression) :
    evalAll host (e :: rest) =
      check host e >>= fun holds => if holds then evalAll host rest else pure false := by
  rw [evalAll_cons, check, bind_assoc]
  simp only [pure_bind]

theorem evalAny_check (e : Expression) (rest : List Expression) :
    evalAny host (e :: rest) =
      check host e >>= fun holds => if holds then pure true else evalAny host rest := by
  rw [evalAny_cons, check, bind_assoc]
  simp only [pure_bind]

/-- A call with quoted arguments is the call with the arguments. -/
theorem eval_call_quote {name : String} (h : Operator.ofName? name = none) {args : List Value}
    (hargs : Value.PlainItems args) :
    eval host (.call name (Value.quoteItems args)) = host.invoke name args := by
  unfold call
  rw [eval_command host h, Value.evalItems_quote host hargs]
  simp only [pure_bind, evalChain_nil, Value.negateIf, Bool.false_eq_true, if_false, bind_pure]

end Expression

/-! ## Leaves -/

namespace Condition

/-- The arguments of a leaf are data, and so is the value it compares with. -/
def LeafPlain : Condition → Prop
  | .call c => Value.PlainItems c.args
  | .comparison context operator right =>
      Value.PlainItems context.args ∧ Value.PlainItems operator.args ∧ right.Plain
  | _ => True

/-- What a leaf must be so that its expression says the same. -/
structure LeafReady (r : Refusals) (leaf : Condition) : Prop where
  plain : leaf.LeafPlain
  unreserved : leaf.leafUnreserved = true
  names : ∀ name ∈ leaf.leafNames, r.error? name = none
  fault : ∀ e, leaf.fault? = some e → e ∈ r.errors

theorem comparisonOperator?_eq_some {name : String} {op : Operator}
    (h : comparisonOperator? name = some op) : op.name = name ∧ op.isLogical = false := by
  obtain ⟨hname, hlogical⟩ := Option.filter_eq_some_iff.mp h
  exact ⟨by simpa using List.find?_some hname, by simpa using hlogical⟩

/-- An operator that does not compare is a command. -/
theorem ofName?_eq_none {name : String} (h : comparisonOperator? name = none)
    (hname : (Operator.ofName? name).all (fun op => !op.isLogical) = true) :
    Operator.ofName? name = none := by
  cases hop : Operator.ofName? name with
  | none => rfl
  | some op =>
      rw [hop] at hname
      have hfilter := Option.filter_eq_none_iff.mp h op hop
      exact absurd hname hfilter

/-- What the record of a comparison evaluates to. -/
theorem evalItems_comparisonRecord {n : Type → Type} [Monad n] [LawfulMonad n] (host : Host n)
    {args : List Value} (hargs : Value.PlainItems args) (left : Expression) {right : Value}
    (hright : right.Plain) :
    Expression.evalItems host
        [.record [("args", .sequence (Value.quoteItems args)), ("left", left),
          ("right", right.quote)]] =
      Expression.eval host left >>= fun v => pure [comparisonRecord args v right] := by
  rw [Expression.evalItems_cons, Expression.eval_record, Expression.evalEntries_cons,
    Expression.eval_sequence, Value.evalItems_quote host hargs]
  simp only [pure_bind, Expression.evalEntries_cons, Value.eval_quote host hright, bind_assoc,
    Expression.evalEntries_nil, Expression.evalItems_nil, comparisonRecord, Value.recordOf,
    Dictionary.ofList, List.foldl_cons, List.foldl_nil]

theorem comparison_agrees {context operator : Call} {right : Value}
    (h : LeafReady r (.comparison context operator right)) :
    (agreement m r).rel (checkComparison (host.memoized verbose) context operator right)
      (Expression.check ((host.refusing r).memoized verbose)
        (comparisonExpression context operator right)) := by
  obtain ⟨hcontext, hargs, hright⟩ := h.plain
  have hreserved := h.unreserved
  simp only [leafUnreserved, Bool.and_eq_true, Option.isNone_iff_eq_none] at hreserved
  have hleft := invoke_agrees host verbose (h.names context.name (by simp [leafNames])) context.args
  unfold checkComparison comparisonExpression
  cases hop : comparisonOperator? operator.name with
  | some op =>
      obtain ⟨-, hlogical⟩ := comparisonOperator?_eq_some hop
      rw [Expression.check_comparison _ hlogical, Expression.eval_call_quote _ hreserved.1 hcontext,
        Value.eval_quote _ hright]
      simp only [pure_bind]
      exact (agreement m r).bind_rel hleft fun _ => (agreement m r).pure_rel _
  | none =>
      have hname := ofName?_eq_none hop hreserved.2
      rw [Expression.check_command _ hname, evalItems_comparisonRecord _ hargs _ hright,
        Expression.eval_call_quote _ hreserved.1 hcontext]
      simp only [bind_assoc, pure_bind]
      refine (agreement m r).bind_rel hleft fun left => ?_
      exact (agreement m r).bind_rel
        (invoke_agrees host verbose (h.names operator.name (by simp [leafNames])) _)
        fun _ => (agreement m r).pure_rel _

/-! ## Whole conditions -/

mutual

theorem check_agrees (c : Condition) (h : ∀ leaf ∈ c.leaves, LeafReady r leaf) :
    (agreement m r).rel (check (host.memoized verbose) c)
      (Expression.check ((host.refusing r).memoized verbose) (c.toExpression r)) := by
  match c with
  | .anyOf groups =>
      show (agreement m r).rel (check _ _) (Expression.check _ (.operator .or _))
      rw [Expression.check_or, check]
      exact checkAny_agrees groups h
  | .call c =>
      have hready := h (.call c) List.mem_cons_self
      show (agreement m r).rel (check _ _) (Expression.check _ (.invocation _ _ _ _))
      rw [Expression.check_command _ (by simpa [leafUnreserved] using hready.unreserved), check,
        Value.evalItems_quote _ hready.plain, pure_bind]
      exact (agreement m r).bind_rel
        (invoke_agrees host verbose (hready.names c.name List.mem_cons_self) _)
        fun _ => (agreement m r).pure_rel _
  | .comparison context operator right =>
      rw [check]
      exact comparison_agrees host verbose (h _ List.mem_cons_self)
  | .fault e =>
      have hready := h (.fault e) List.mem_cons_self
      have hrefused := Refusals.error?_name (hready.fault e rfl)
      -- The invocation asks for the truth of an answer that never comes, so the failure of the
      -- part is written with that question behind it.
      have hthrow : (throw e : ExceptT Error (StateT Memory m) Bool)
          = (throw e : ExceptT Error (StateT Memory m) Value) >>= fun v =>
            pure (v.truthy != false) := (ExceptT.bind_throw _).symm
      show (agreement m r).rel (check _ _) (Expression.check _ (.invocation _ [] _ []))
      rw [Expression.check_command _ (Refusals.ofName?_name r e), check, Expression.evalItems_nil,
        pure_bind, hthrow]
      exact (agreement m r).bind_rel (throw_agrees host verbose hrefused []) fun _ =>
        (agreement m r).pure_rel _

theorem checkAny_agrees (groups : List (List Condition))
    (h : ∀ leaf ∈ groupLeaves groups, LeafReady r leaf) :
    (agreement m r).rel (checkAny (host.memoized verbose) groups)
      (Expression.evalAny ((host.refusing r).memoized verbose) (groupExpressions r groups)) := by
  match groups with
  | [] =>
      show (agreement m r).rel (checkAny _ []) (Expression.evalAny _ [])
      rw [Expression.evalAny_nil, checkAny]
      exact (agreement m r).pure_rel _
  | group :: rest =>
      show (agreement m r).rel (checkAny _ _) (Expression.evalAny _ (.operator .and _ :: _))
      rw [Expression.evalAny_check, Expression.check_and, checkAny]
      refine (agreement m r).bind_rel
        (checkAll_agrees group fun leaf hleaf => h leaf (List.mem_append_left _ hleaf)) ?_
      intro holds
      cases holds with
      | true => exact (agreement m r).pure_rel _
      | false => exact checkAny_agrees rest fun leaf hleaf => h leaf (List.mem_append_right _ hleaf)

theorem checkAll_agrees (parts : List Condition)
    (h : ∀ leaf ∈ partLeaves parts, LeafReady r leaf) :
    (agreement m r).rel (checkAll (host.memoized verbose) parts)
      (Expression.evalAll ((host.refusing r).memoized verbose) (partExpressions r parts)) := by
  match parts with
  | [] =>
      show (agreement m r).rel (checkAll _ []) (Expression.evalAll _ [])
      rw [Expression.evalAll_nil, checkAll]
      exact (agreement m r).pure_rel _
  | part :: rest =>
      show (agreement m r).rel (checkAll _ _) (Expression.evalAll _ (toExpression r part :: _))
      rw [Expression.evalAll_check, checkAll]
      refine (agreement m r).bind_rel
        (check_agrees part fun leaf hleaf => h leaf (List.mem_append_left _ hleaf)) ?_
      intro holds
      cases holds with
      | true => exact checkAll_agrees rest fun leaf hleaf => h leaf (List.mem_append_right _ hleaf)
      | false => exact (agreement m r).pure_rel _

end

end Condition

end WhenClause
