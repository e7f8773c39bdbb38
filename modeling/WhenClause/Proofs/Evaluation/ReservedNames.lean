import WhenClause.Predicate
import WhenClause.Proofs.Evaluation.FailStop

set_option autoImplicit false

/-! # Reserved names and the table of commands

The names of the operators are reserved. Whatever a check of a text, of lines or of an expression
asks the table of commands for has another name; only a condition in JSON asks for a reserved
name, when one of its calls has it (`Registry.reserved_only_by_calls`). Such a condition does ask
for it: a call written `and()` runs the command `and` (`Registry.reserved_name_asked`). -/

namespace WhenClause

variable {σ : Type}

/-! ## The commands that are asked for -/

def Deed.command? : Deed → Option String
  | missing name => some name
  | ran name _ _ => some name
  | _ => none

/-- The names of the commands that were asked for, in their order. -/
def Deeds.commands (deeds : Deeds) : List String := deeds.filterMap Deed.command?

theorem Deed.TellsOf.command? {deed : Deed} {name : String} {args : List Value}
    {outcome : Except Error Value} (h : deed.TellsOf name args outcome) :
    deed.command? = some name := by
  cases h <;> rfl

/-- Writing deeds down changes nothing but that they are written, and only allowed commands are
asked for. -/
def asking (σ : Type) (allowed : String → Prop) :
    Simulation (StateT Memory (StateM σ)) (StateT Memory (StateM (σ × Deeds))) where
  rel P x y := ∀ memory world earlier, ∃ outcome outcome' memory' world' deeds,
    EvalM.runAt x memory world = (outcome, memory', world') ∧
    EvalM.runAt y memory (world, earlier) = (outcome', memory', world', earlier ++ deeds) ∧
    EndAlike P outcome outcome' ∧ ∀ name ∈ Deeds.commands deeds, allowed name
  throws _ := True
  pure_rel {α β P a b} hab memory world earlier :=
    ⟨.ok a, .ok b, memory, world, [], rfl, by simp, hab, List.forall_mem_nil _⟩
  throw_rel {α β P e} _ memory world earlier :=
    ⟨.error e, .error e, memory, world, [], rfl, by simp, rfl, List.forall_mem_nil _⟩
  bind_rel {α β γ δ P Q x y f g} hx hf memory world earlier := by
    obtain ⟨outcome, outcome', memory₁, world₁, deeds₁, hrx, hry, hend, hallowed⟩ :=
      hx memory world earlier
    rcases hend.elim with ⟨a, b, rfl, rfl, hab⟩ | ⟨e, rfl, rfl⟩
    · obtain ⟨result, result', memory₂, world₂, deeds₂, hrf, hrg, hend', hallowed'⟩ :=
        hf a b hab memory₁ world₁ (earlier ++ deeds₁)
      refine ⟨result, result', memory₂, world₂, deeds₁ ++ deeds₂, ?_, ?_, hend', ?_⟩
      · rw [EvalM.runAt_bind_ok hrx, hrf]
      · rw [EvalM.runAt_bind_ok hry, hrg, List.append_assoc]
      · rw [Deeds.commands, List.filterMap_append, List.forall_mem_append]
        exact ⟨hallowed, hallowed'⟩
    · exact ⟨.error e, .error e, memory₁, world₁, deeds₁, EvalM.runAt_bind_error hrx f,
        EvalM.runAt_bind_error hry g, rfl, hallowed⟩

theorem asking_mono {allowed allowed' : String → Prop} {α β : Type} {P : α → β → Prop}
    {x : EvalM σ α} {y : EvalM (σ × Deeds) β} (h : (asking σ allowed).rel P x y)
    (hallowed : ∀ name, allowed name → allowed' name) : (asking σ allowed').rel P x y := by
  intro memory world earlier
  obtain ⟨outcome, outcome', memory', world', deeds, hx, hy, hend, hnames⟩ :=
    h memory world earlier
  exact ⟨outcome, outcome', memory', world', deeds, hx, hy, hend,
    fun name hname => hallowed name (hnames name hname)⟩

namespace Registry

variable (registry : Registry (StateM σ)) (objects : Objects (StateM σ))
  {allowed : String → Prop}

/-- A call of an allowed command: it is answered from memory, or it is asked for. -/
theorem invoke_asking {name : String} (h : allowed name) (args : List Value) :
    (asking σ allowed).rel Eq (((registry.host objects).memoized registry.debug).invoke name args)
      ((registry.notingEvaluator objects).invoke name args) := by
  intro memory world earlier
  cases hfind : memory.cache.find? (CallKey.of name args) with
  | some v =>
      refine ⟨.ok v, .ok v, _, world, [], EvalM.runAt_hit _ _ hfind, ?_, rfl,
        List.forall_mem_nil _⟩
      rw [List.append_nil]
      exact EvalM.runAt_hit _ _ hfind
  | none =>
      obtain ⟨outcome, world', deed, hrun, hnoting, htells⟩ :=
        registry.run_noting objects name args world
      have hallowed : ∀ name ∈ Deeds.commands [deed], allowed name := by
        rw [Deeds.commands, List.filterMap_cons_some htells.command?]
        exact List.forall_mem_singleton.mpr h
      cases outcome with
      | ok v =>
          exact ⟨_, _, _, world', [deed], EvalM.runAt_success _ _ hfind hrun,
            EvalM.runAt_success _ _ hfind (hnoting earlier), rfl, hallowed⟩
      | error e =>
          exact ⟨_, _, memory, world', [deed], EvalM.runAt_failure _ _ hfind hrun,
            EvalM.runAt_failure _ _ hfind (hnoting earlier), rfl, hallowed⟩

/-- A step that asks for no command. -/
theorem silent_asking {α : Type} {x : EvalM σ α} {y : EvalM (σ × Deeds) α}
    (h : ∀ memory world earlier, ∃ outcome world',
      EvalM.runAt x memory world = (outcome, memory, world') ∧
      EvalM.runAt y memory (world, earlier) = (outcome, memory, world', earlier)) :
    (asking σ allowed).rel Eq x y := by
  intro memory world earlier
  obtain ⟨outcome, world', hx, hy⟩ := h memory world earlier
  refine ⟨outcome, outcome, memory, world', [], hx, ?_, EndAlike.refl outcome,
    List.forall_mem_nil _⟩
  rw [List.append_nil]
  exact hy

/-- The steps of an evaluation ask for no reserved name. -/
theorem steps_asking :
    ((registry.host objects).memoized registry.debug).steps.Simulated
      (asking σ fun name => Operator.ofName? name = none) Likeness.identity
      (registry.notingEvaluator objects).steps where
  invoke {args args'} name hname hargs := by
    obtain rfl := Likeness.identity_values hargs
    exact registry.invoke_asking objects hname args
  property {v w} key hvw := by
    obtain rfl : v = w := hvw
    exact silent_asking fun _ _ _ =>
      ⟨_, _, EvalM.runAt_property _ _ v key, EvalM.runAt_property _ _ v key⟩
  method {v w} name hvw := by
    obtain rfl : v = w := hvw
    exact silent_asking fun _ _ _ =>
      ⟨_, _, EvalM.runAt_method _ _ v name, EvalM.runAt_method _ _ v name⟩
  call {f g args args'} name hfg hargs := by
    obtain rfl : f = g := hfg
    obtain rfl := Likeness.identity_values hargs
    exact silent_asking fun _ _ _ =>
      ⟨_, _, EvalM.runAt_call _ _ name f args, EvalM.runAt_call _ _ name f args⟩

/-! ## Checks -/

/-- The check of an expression asks for no reserved name. -/
theorem expression_asking (e : Expression) :
    (asking σ fun name => Operator.ofName? name = none).rel Eq
      (e.check ((registry.host objects).memoized registry.debug))
      (e.check (registry.notingEvaluator objects)) := by
  unfold Expression.check
  rw [Expression.eval_eq_evalWith, Expression.eval_eq_evalWith]
  refine (asking σ _).bind_rel (Expression.evalWith_simulated
    (registry.steps_asking objects) e fun _ _ _ _ => trivial) ?_
  intro v w hvw
  obtain rfl : v = w := hvw
  exact (asking σ _).pure_rel rfl

/-- The check of a text asks for no reserved name. -/
theorem text_asking (s : String) :
    (asking σ fun name => Operator.ofName? name = none).rel Eq
      (checkText ((registry.host objects).memoized registry.debug) s)
      (checkText (registry.notingEvaluator objects) s) := by
  have hread : (asking σ fun name => Operator.ofName? name = none).rel Eq
      (ExceptT.mk (pure (Expression.parse s)) : EvalM σ Expression)
      (ExceptT.mk (pure (Expression.parse s))) := by
    cases Expression.parse s with
    | error e => exact (asking σ _).throw_rel trivial
    | ok e => exact (asking σ _).pure_rel rfl
  refine (asking σ _).bind_rel hread ?_
  rintro e _ rfl
  exact registry.expression_asking objects e

/-- The check of a condition asks for no names but those of its calls. -/
theorem condition_asking (c : Condition) :
    (asking σ fun name => ∃ leaf ∈ c.leaves, name ∈ leaf.commandNames).rel Eq
      (c.check ((registry.host objects).memoized registry.debug))
      (c.check (registry.notingEvaluator objects)) :=
  Condition.check_simulated_of_names c
    (fun leaf hleaf _ hname => registry.invoke_asking objects ⟨leaf, hleaf, hname⟩)
    fun _ _ _ _ => trivial

/-- **Only the calls of a condition ask for reserved names.** Whatever the commands are and whatever
is remembered, the commands that the check of a predicate asks for have names that are not
reserved, unless the predicate is a condition in JSON with a call of just that name. -/
theorem reserved_only_by_calls (p : Predicate) (memory : Memory) (world : σ) :
    ∃ outcome memory' world' deeds,
      EvalM.runAt (p.check ((registry.host objects).memoized registry.debug)) memory world
        = (outcome, memory', world') ∧
      EvalM.runAt (p.check (registry.notingEvaluator objects)) memory (world, [])
        = (outcome, memory', world', deeds) ∧
      ∀ name ∈ Deeds.commands deeds, Operator.ofName? name = none ∨
        ∃ j, p = .condition j ∧ ∃ leaf ∈ (Condition.ofJson j).leaves, name ∈ leaf.commandNames := by
  have hcheck : (asking σ fun name => Operator.ofName? name = none ∨ ∃ j, p = .condition j ∧
      ∃ leaf ∈ (Condition.ofJson j).leaves, name ∈ leaf.commandNames).rel Eq
        (p.check ((registry.host objects).memoized registry.debug))
        (p.check (registry.notingEvaluator objects)) := by
    cases p with
    | text s => exact asking_mono (registry.text_asking objects s) fun _ => Or.inl
    | lines ls => exact asking_mono (registry.text_asking objects _) fun _ => Or.inl
    | expression e => exact asking_mono (registry.expression_asking objects e) fun _ => Or.inl
    | condition j =>
        -- A call of a condition is made as it is written, whatever its name is.
        refine asking_mono (registry.condition_asking objects (Condition.ofJson j)) ?_
        exact fun name hname => Or.inr ⟨j, rfl, hname⟩
  obtain ⟨outcome, outcome', memory', world', deeds, hrun, hnoting, hend, hnames⟩ :=
    hcheck memory world []
  obtain rfl := EndAlike.eq hend
  exact ⟨outcome, memory', world', deeds, hrun, hnoting, hnames⟩

/-- The condition `["and()"]` asks for the command of the reserved name, and its result counts. -/
theorem reserved_name_asked :
    let registry : Registry (StateM Unit) :=
      ⟨[("and", ⟨"and", "", fun _ => pure (.bool false)⟩)], false⟩
    let objects : Objects (StateM Unit) := ⟨pure 0, fun _ _ => pure none, fun _ _ => throw ""⟩
    let found := EvalM.runAt
      ((Predicate.condition (.array [.string "and()"])).check (registry.notingEvaluator objects))
      Memory.empty ((), [])
    Operator.ofName? "and" = some .and ∧ Deeds.commands found.2.2.2 = ["and"] ∧
      found.1 = .ok false := by
  refine ⟨rfl, ?_, ?_⟩ <;> rfl

end Registry

end WhenClause
