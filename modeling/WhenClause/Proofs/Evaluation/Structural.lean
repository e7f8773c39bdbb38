import WhenClause.Proofs.Evaluation.Running
import WhenClause.Proofs.Evaluation.Simulation
import WhenClause.Proofs.Expression.WellFormed

set_option autoImplicit false

/-! # Errors about expressions

An evaluation ends with an error about the expression only at a node that is not regular, and a
text that is read has none (`Expression.parse_never_structural`). -/

namespace WhenClause

open Stateful

variable {σ : Type}

/-- No command of the host ends with an error about an expression or a text. -/
def Host.NeverStructural (host : Host (StateM σ)) : Prop :=
  ∀ name args world e, ((host.invoke name args).run.run world).1 = .error e →
    e.isStructural = false

/-- Neither an unknown command nor the failure of a command is such an error. -/
theorem Registry.neverStructural (registry : Registry (StateM σ)) (objects : Objects (StateM σ)) :
    (registry.host objects).NeverStructural := by
  intro name args world e h
  have h : ((registry.invoke name args).run.run world).1 = .error e := h
  cases hcommand : registry.get? name with
  | none =>
      rw [run_missing hcommand] at h
      cases h
      rfl
  | some command =>
      rw [run_command hcommand] at h
      cases houtcome : ((command.run args).run.run world).1 with
      | ok v =>
          rw [houtcome] at h
          cases h
      | error failure =>
          rw [houtcome] at h
          cases h
          rfl

/-- The outcome is a result that is expected, or an error that is permitted. -/
def Within {α : Type} (expected : α → Prop) (permitted : Error → Prop) : Except Error α → Prop
  | .ok a => expected a
  | .error e => permitted e

/-- A computation of an evaluator ends with an error that is permitted, if with any. -/
def endsWithin (σ : Type) (permitted : Error → Prop) :
    Simulation (StateT Memory (StateM σ)) (StateT Memory (StateM σ)) where
  rel P x _ := ∀ memory world,
    Within (fun a => ∃ b, P a b) permitted (EvalM.runAt x memory world).1
  throws := permitted
  pure_rel h _ _ := ⟨_, h⟩
  throw_rel h _ _ := h
  bind_rel {α β γ δ P Q x y f g} hx hf memory world := by
    rw [EvalM.runAt_bind]
    have h := hx memory world
    rcases hr : EvalM.runAt x memory world with ⟨outcome, memory', world'⟩
    rw [hr] at h
    cases outcome with
    | ok a =>
        obtain ⟨b, hab⟩ := h
        exact hf a b hab memory' world'
    | error e => exact h

/-- The steps of an evaluator end with no error about an expression. -/
theorem Host.NeverStructural.steps {host : Host (StateM σ)} (h : host.NeverStructural)
    (verbose : Bool) {permitted : Error → Prop}
    (hpermitted : ∀ e : Error, e.isStructural = false → permitted e) :
    (host.memoized verbose).steps.Simulated (endsWithin σ permitted) Likeness.identity
      (host.memoized verbose).steps where
  invoke {args _} name _ _ memory world := by
    show Within _ _ (EvalM.runAt ((host.memoized verbose).invoke name args) memory world).1
    cases hfind : memory.cache.find? (CallKey.of name args) with
    | some v =>
        rw [EvalM.runAt_hit host verbose hfind]
        exact ⟨v, rfl⟩
    | none =>
        rcases hr : (host.invoke name args).run.run world with ⟨outcome, world'⟩
        cases outcome with
        | ok v =>
            rw [EvalM.runAt_success host verbose hfind hr]
            exact ⟨v, rfl⟩
        | error e =>
            rw [EvalM.runAt_failure host verbose hfind hr]
            exact hpermitted e (h name args world e (congrArg Prod.fst hr))
  property {v _} key _ memory world := by
    rw [EvalM.runAt_property]
    cases ((host.member v key).run world).1 with
    | some x => exact ⟨x, rfl⟩
    | none => exact hpermitted _ rfl
  method {v _} name _ memory world := by
    rw [EvalM.runAt_method]
    cases ((host.member v name).run world).1.bind Value.callee? with
    | some f => exact ⟨f, rfl⟩
    | none => exact hpermitted _ rfl
  call {f _ args _} name _ _ memory world := by
    rw [EvalM.runAt_call]
    cases ((host.call f args).run.run world).1 with
    | ok v => exact ⟨v, rfl⟩
    | error failure => exact hpermitted _ rfl

namespace Expression

/-- **An evaluation that ends with an error about the expression ends with the fault of one of its
nodes.** -/
theorem fault_of_eval_structural {host : Host (StateM σ)} (hhost : host.NeverStructural)
    (verbose : Bool) (e : Expression) {memory : Memory} {world : σ} {err : Error}
    (h : (EvalM.runAt (e.eval (host.memoized verbose)) memory world).1 = .error err)
    (hstructural : err.isStructural = true) : ∃ node ∈ e.nodes, node.fault? = some err := by
  -- The errors of steps are permitted because they are not structural, those of nodes as faults.
  let permitted (err : Error) : Prop :=
    err.isStructural = true → ∃ node ∈ e.nodes, node.fault? = some err
  have hsteps : ∀ err : Error, err.isStructural = false → permitted err := by
    intro err hnone hsome
    rw [hnone] at hsome
    cases hsome
  have hend := evalWith_simulated (S := endsWithin σ permitted) (hhost.steps verbose hsteps) e
    (fun node hnode fault hfault _ => ⟨node, hnode, hfault⟩) memory world
  rw [← eval_eq_evalWith, h] at hend
  exact hend hstructural

/-- **What a text is read as is never at fault itself.** In what a text is read as, every operator
is without a chain and every comparison has two operands. So, whatever is remembered, no
evaluation of it ends with an error about an expression, unless a command gives one as its own. -/
theorem parse_never_structural {text : String} {e : Expression} (h : parse text = .ok e) :
    (∀ node ∈ e.nodes, node.Regular) ∧
      ∀ (σ : Type) (host : Host (StateM σ)) (verbose : Bool), host.NeverStructural →
        ∀ memory world err,
          (EvalM.runAt (e.eval (host.memoized verbose)) memory world).1 = .error err →
            err.isStructural = false := by
  have hregular := parse_regular h
  refine ⟨hregular, fun σ host verbose hhost memory world err herr => ?_⟩
  by_contra hstructural
  rw [Bool.not_eq_false] at hstructural
  obtain ⟨node, hnode, hfault⟩ := fault_of_eval_structural hhost verbose e herr hstructural
  rw [(hregular node hnode).fault?_eq_none] at hfault
  cases hfault

/-- A comparison with a chain in it, for a host that knows no command. -/
theorem comparison_never_structural :
    let e : Expression :=
      .operator .less [.call "x" [], .invocation "y" [] false [.property "z"]]
    let host : Host (StateM Unit) :=
      ⟨fun name _ => throw (.unknownCommand name), fun _ _ => pure none, fun _ _ => throw ""⟩
    parse "x() < y().z" = .ok e ∧ host.NeverStructural ∧ (∀ node ∈ e.nodes, node.Regular) ∧
      ∀ memory err, (EvalM.runAt (e.eval (host.memoized false)) memory ()).1 = .error err →
        err.isStructural = false := by
  intro e host
  have hparse : parse "x() < y().z" = .ok e := by cbv
  have hhost : host.NeverStructural := by
    intro name args world err h
    cases h
    rfl
  obtain ⟨hregular, herrors⟩ := parse_never_structural hparse
  exact ⟨hparse, hhost, hregular, fun memory err => herrors Unit host false hhost memory () err⟩

end Expression

end WhenClause
