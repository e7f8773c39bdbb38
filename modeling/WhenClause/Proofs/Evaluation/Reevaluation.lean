import WhenClause.Proofs.Evaluation.Negation

set_option autoImplicit false

/-! # Evaluating an expression again

What an evaluator remembers it never forgets or changes. So an expression that asks for nothing but
commands is answered from memory once it was evaluated: the same evaluator, whatever it did since
and whatever became of the commands, finds the same value again and does nothing
(`Session.evaluate_again`). Members and methods are not remembered, hence the restriction to
expressions without chains. -/

namespace WhenClause

variable {σ τ : Type}

/-! ## What stays remembered -/

namespace Cache

/-- What is remembered in the one cache is remembered in the other. -/
def Within (c c' : Cache) : Prop := ∀ key v, c.find? key = some v → c'.find? key = some v

theorem Within.refl (c : Cache) : c.Within c := fun _ _ h => h

theorem Within.trans {c c' c'' : Cache} (h : c.Within c') (h' : c'.Within c'') : c.Within c'' :=
  fun key v hfind => h' key v (h key v hfind)

/-- Entries that are put behind the others hide none of them. -/
theorem within_of_entries {c c' : Cache} {new : List (CallKey × Value)}
    (h : c'.entries = c.entries ++ new) : c.Within c' := by
  intro key v hfind
  obtain ⟨entry, hentry, hv⟩ := Option.map_eq_some_iff.mp hfind
  rw [find?, h, List.find?_append, hentry]
  exact congrArg some hv

/-- A result under a new key hides no other. -/
theorem within_insert {c : Cache} {key : CallKey} {v : Value} (h : c.find? key = none) :
    c.Within (c.insert key v) :=
  within_of_entries (insert_entries h)

/-- A result under a new key is found. -/
theorem find?_insert {c : Cache} {key : CallKey} {v : Value} (h : c.find? key = none) :
    (c.insert key v).find? key = some v := by
  have hnone : c.entries.find? (fun e => e.1.same key) = none := Option.map_eq_none_iff.mp h
  rw [find?, insert_entries h, List.find?_append, hnone]
  simp [CallKey.same_refl]

end Cache

/-! ## Expressions without chains -/

/-- Steps that run commands and find no members, so that there is no method to call either. -/
def Steps.commandsOnly {m : Type → Type} [Monad m]
    (invoke : String → List Value → ExceptT Error m Value) : Steps m where
  invoke := invoke
  property target key := throw (Error.noMember .property key target)
  method target name := throw (Error.noMember .method name target)
  call name f _ := throw (Error.noMember .method name f.receiver)

namespace Expression

def Chainless : Expression → Prop
  | .invocation _ _ _ chain => chain = []
  | _ => True

section

variable {m : Type → Type} [Monad m] {steps other : Steps m}

mutual

/-- **Where there are no chains, only the commands count.** -/
theorem evalWith_eq_of_invoke (h : steps.invoke = other.invoke) (e : Expression)
    (he : ∀ node ∈ e.nodes, node.Chainless) : evalWith steps e = evalWith other e := by
  cases e with
  | literal l => rw [evalWith, evalWith]
  | sequence items =>
      rw [nodes] at he
      rw [evalWith, evalWith, itemsWith_eq_of_invoke h items (List.forall_mem_cons.mp he).2]
  | record entries =>
      rw [nodes] at he
      rw [evalWith, evalWith, entriesWith_eq_of_invoke h entries (List.forall_mem_cons.mp he).2]
  | invocation name args negated chain =>
      rw [nodes] at he
      obtain ⟨hroot, hinner⟩ := List.forall_mem_cons.mp he
      obtain rfl : chain = [] := hroot
      have hargs := (List.forall_mem_append.mp hinner).1
      cases hname : Operator.ofName? name with
      | none =>
          rw [evalWith_command _ hname, evalWith_command _ hname, h,
            itemsWith_eq_of_invoke h args hargs]
          simp only [chainWith]
      | some op =>
          rw [evalWith_operator _ hname, evalWith_operator _ hname,
            operatorWith_eq_of_invoke h op args hargs]
  | not inner =>
      rw [nodes] at he
      rw [evalWith, evalWith, evalWith_eq_of_invoke h inner (List.forall_mem_cons.mp he).2]
termination_by (sizeOf e, 0)

theorem itemsWith_eq_of_invoke (h : steps.invoke = other.invoke) (items : List Expression)
    (he : ∀ node ∈ nodesOfItems items, node.Chainless) :
    itemsWith steps items = itemsWith other items := by
  cases items with
  | nil => rw [itemsWith, itemsWith]
  | cons e rest =>
      obtain ⟨hfirst, hrest⟩ := List.forall_mem_append.mp he
      rw [itemsWith, itemsWith, evalWith_eq_of_invoke h e hfirst,
        itemsWith_eq_of_invoke h rest hrest]
termination_by (sizeOf items, 0)

theorem entriesWith_eq_of_invoke (h : steps.invoke = other.invoke)
    {fields : List (String × Value)} (entries : List (String × Expression))
    (he : ∀ node ∈ nodesOfEntries entries, node.Chainless) :
    entriesWith steps fields entries = entriesWith other fields entries := by
  match entries with
  | [] => rw [entriesWith, entriesWith]
  | (key, e) :: rest =>
      obtain ⟨hfirst, hrest⟩ := List.forall_mem_append.mp he
      rw [entriesWith, entriesWith, evalWith_eq_of_invoke h e hfirst]
      exact bind_congr fun v => entriesWith_eq_of_invoke h rest hrest
termination_by (sizeOf entries, 0)

theorem operatorWith_eq_of_invoke (h : steps.invoke = other.invoke) (op : Operator)
    (operands : List Expression) (he : ∀ node ∈ nodesOfItems operands, node.Chainless) :
    operatorWith steps op operands = operatorWith other op operands := by
  by_cases hand : op = .and
  · rw [hand, operatorWith_and, operatorWith_and, allWith_eq_of_invoke h operands he]
  by_cases hor : op = .or
  · rw [hor, operatorWith_or, operatorWith_or, anyWith_eq_of_invoke h operands he]
  have hop : op.isLogical = false := by cases op <;> first | rfl | contradiction
  match operands with
  | [left, right] =>
      obtain ⟨hleft, hrest⟩ := List.forall_mem_append.mp he
      have hright := (List.forall_mem_append.mp hrest).1
      rw [operatorWith_comparison _ hop, operatorWith_comparison _ hop,
        evalWith_eq_of_invoke h left hleft, evalWith_eq_of_invoke h right hright]
  | [] | [_] | _ :: _ :: _ :: _ =>
      rw [operatorWith_arity _ hop (by simp), operatorWith_arity _ hop (by simp)]
termination_by (sizeOf operands, 1)

theorem allWith_eq_of_invoke (h : steps.invoke = other.invoke) (operands : List Expression)
    (he : ∀ node ∈ nodesOfItems operands, node.Chainless) :
    allWith steps operands = allWith other operands := by
  cases operands with
  | nil => rw [allWith, allWith]
  | cons e rest =>
      obtain ⟨hfirst, hrest⟩ := List.forall_mem_append.mp he
      rw [allWith, allWith, evalWith_eq_of_invoke h e hfirst, allWith_eq_of_invoke h rest hrest]
termination_by (sizeOf operands, 0)

theorem anyWith_eq_of_invoke (h : steps.invoke = other.invoke) (operands : List Expression)
    (he : ∀ node ∈ nodesOfItems operands, node.Chainless) :
    anyWith steps operands = anyWith other operands := by
  cases operands with
  | nil => rw [anyWith, anyWith]
  | cons e rest =>
      obtain ⟨hfirst, hrest⟩ := List.forall_mem_append.mp he
      rw [anyWith, anyWith, evalWith_eq_of_invoke h e hfirst, anyWith_eq_of_invoke h rest hrest]
termination_by (sizeOf operands, 0)

end

end

end Expression

/-! ## Finding everything again -/

/-- What the first computation finds, the second one finds again from every memory in which all that
was then remembered still is. It leaves the cache of that memory as it is, and the world too. -/
def recalling (σ τ : Type) : Simulation (StateT Memory (StateM σ)) (StateT Memory (StateM τ)) where
  rel P x y := ∀ memory world (world' : τ) a memory₁ world₁,
    EvalM.runAt x memory world = (.ok a, memory₁, world₁) →
      memory.cache.Within memory₁.cache ∧
      ∃ b, P a b ∧ ∀ later, memory₁.cache.Within later.cache →
        ∃ later', EvalM.runAt y later world' = (.ok b, later', world') ∧
          later'.cache = later.cache
  throws _ := True
  pure_rel hab := by
    rintro memory world world' _ _ _ ⟨⟩
    exact ⟨Cache.Within.refl _, _, hab, fun later _ => ⟨later, rfl, rfl⟩⟩
  throw_rel _ := by
    rintro memory world world' _ _ _ ⟨⟩
  bind_rel {α β γ δ P Q x y f g} hx hf memory world world' c memory₂ world₂ hrun := by
    rcases hrx : EvalM.runAt x memory world with ⟨outcome, memory₁, world₁⟩
    cases outcome with
    | error e =>
        rw [EvalM.runAt_bind_error hrx] at hrun
        cases hrun
    | ok a =>
        rw [EvalM.runAt_bind_ok hrx] at hrun
        obtain ⟨hwithin₁, b, hab, hagain₁⟩ := hx memory world world' a memory₁ world₁ hrx
        obtain ⟨hwithin₂, d, hcd, hagain₂⟩ := hf a b hab memory₁ world₁ world' c memory₂ world₂ hrun
        refine ⟨hwithin₁.trans hwithin₂, d, hcd, fun later hlater => ?_⟩
        obtain ⟨later₁, hry, hcache₁⟩ := hagain₁ later (hwithin₂.trans hlater)
        obtain ⟨later₂, hrg, hcache₂⟩ := hagain₂ later₁ (hcache₁ ▸ hlater)
        exact ⟨later₂, (EvalM.runAt_bind_ok hry g).trans hrg, hcache₂.trans hcache₁⟩

/-- A computation that only fails finds nothing that would have to be found again. -/
theorem recalling_throw {α β : Type} {P : α → β → Prop} (e : Error) (y : EvalM τ β) :
    (recalling σ τ).rel P (throw e) y := by
  rintro memory world world' _ _ _ ⟨⟩

/-- A call of a command that gave a result is answered with it by every evaluator that remembers
as much, whatever the commands of that evaluator are. -/
theorem Host.recalling_invoke (host : Host (StateM σ)) (other : Host (StateM τ))
    (verbose verbose' : Bool) (name : String) (args : List Value) :
    (recalling σ τ).rel Eq ((host.memoized verbose).invoke name args)
      ((other.memoized verbose').invoke name args) := by
  intro memory world world' v memory₁ world₁ hrun
  -- Either way the result is remembered in the end.
  have hkept : memory.cache.Within memory₁.cache ∧
      memory₁.cache.find? (CallKey.of name args) = some v := by
    cases hfind : memory.cache.find? (CallKey.of name args) with
    | some w =>
        rw [EvalM.runAt_hit host verbose hfind] at hrun
        cases hrun
        exact ⟨Cache.Within.refl _, hfind⟩
    | none =>
        rcases hinvoke : (host.invoke name args).run.run world with ⟨outcome, world₂⟩
        cases outcome with
        | error e =>
            rw [EvalM.runAt_failure host verbose hfind hinvoke] at hrun
            cases hrun
        | ok w =>
            rw [EvalM.runAt_success host verbose hfind hinvoke] at hrun
            cases hrun
            rw [Host.remembering_cache]
            exact ⟨Cache.within_insert hfind, Cache.find?_insert hfind⟩
  refine ⟨hkept.1, v, rfl, fun later hlater => ?_⟩
  exact ⟨_, EvalM.runAt_hit other verbose' (hlater _ _ hkept.2), rfl⟩

/-- **What an expression without chains was found to be, it is found to be again**, over all steps
whose commands are those of an evaluator that remembers as much. -/
theorem Expression.eval_recalled (host : Host (StateM σ)) (other : Host (StateM τ))
    (verbose verbose' : Bool) (steps : Steps (StateT Memory (StateM τ)))
    (hsteps : steps.invoke = (other.memoized verbose').invoke) (e : Expression)
    (he : ∀ node ∈ e.nodes, node.Chainless) :
    (recalling σ τ).rel Eq (e.eval (host.memoized verbose)) (e.evalWith steps) := by
  have hcommands : (Steps.commandsOnly (host.memoized verbose).invoke).Simulated (recalling σ τ)
      Likeness.identity steps :=
    { invoke := fun {args args'} name _ hargs => by
        obtain rfl := Likeness.identity_values hargs
        rw [hsteps]
        exact host.recalling_invoke other verbose verbose' name args
      property := fun _ _ => recalling_throw _ _
      method := fun _ _ => recalling_throw _ _
      call := fun _ _ _ => recalling_throw _ _ }
  have hcommandsOnly : evalWith (host.memoized verbose).steps e
      = evalWith (Steps.commandsOnly (host.memoized verbose).invoke) e :=
    evalWith_eq_of_invoke (by rfl) e he
  rw [eval_eq_evalWith, hcommandsOnly]
  exact evalWith_simulated hcommands e fun _ _ _ _ => trivial

/-! ## Sessions -/

namespace Session

variable (objects : Objects (StateM σ))

theorem evaluate_eq (e : Expression) (s : Session σ) :
    s.evaluate objects e =
      let (outcome, memory, world) :=
        EvalM.runAt (e.eval ((s.registry.host objects).memoized s.registry.debug)) s.memory s.world
      (outcome, ⟨s.registry, memory, world⟩) := rfl

/-- No action makes an evaluator forget. -/
theorem step_within (s : Session σ) (action : Action σ) :
    s.memory.cache.Within (s.step objects action).memory.cache := by
  cases action with
  | register command => exact Cache.Within.refl _
  | evaluate e =>
      obtain ⟨outcome, memory', world', deeds, hrun, -, -, -, -, hcache⟩ :=
        FailStop.of_accounting (s.registry.eval_accounted objects e) s.memory s.world
      rw [step, evaluate_eq, hrun]
      exact Cache.within_of_entries hcache

theorem run_within (s : Session σ) (actions : List (Action σ)) :
    s.memory.cache.Within (s.run objects actions).memory.cache := by
  induction actions generalizing s with
  | nil => exact Cache.Within.refl _
  | cons action rest ih => exact (s.step_within objects action).trans (ih _)

/-- **Evaluating an expression again does nothing.** Let an evaluator, whatever it remembers, find
the value of an expression without chains. Whatever is evaluated and registered later, and whatever
commands and whatever world there are in the end, the evaluator finds the same value again: it
leaves what it remembers and the world as they are, and does not ask for anything. -/
theorem evaluate_again {e : Expression} (he : ∀ node ∈ e.nodes, node.Chainless) {s : Session σ}
    {v : Value} (h : (s.evaluate objects e).1 = .ok v) (later : List (Action σ))
    (registry : Registry (StateM σ)) (world : σ) :
    let t := (s.evaluate objects e).2.run objects later
    ∃ memory, memory.cache = t.memory.cache ∧
      Session.evaluate objects e ⟨registry, t.memory, world⟩
        = (.ok v, ⟨registry, memory, world⟩) ∧
      EvalM.runAt (e.evalWith (registry.notingSteps objects)) t.memory (world, [])
        = (.ok v, memory, world, []) := by
  intro t
  rcases hfirst : EvalM.runAt (e.eval ((s.registry.host objects).memoized s.registry.debug))
    s.memory s.world with ⟨outcome, memory₁, world₁⟩
  rw [evaluate_eq, hfirst] at h
  obtain rfl : outcome = .ok v := h
  have hwithin : memory₁.cache.Within t.memory.cache := by
    have hmemory : (s.evaluate objects e).2.memory = memory₁ := by rw [evaluate_eq, hfirst]
    rw [← hmemory]
    exact run_within objects _ later
  -- The run that is written down is the one that recalls; what it writes is what is done.
  obtain ⟨-, w, rfl, hagain⟩ := Expression.eval_recalled (s.registry.host objects)
    (registry.noting objects) s.registry.debug registry.debug (registry.notingSteps objects) rfl e
    he s.memory s.world (world, []) v memory₁ world₁ hfirst
  obtain ⟨memory, hnoted, hcache⟩ := hagain t.memory hwithin
  obtain ⟨outcome, memory', world', deeds, hrun, hnoted', -⟩ :=
    FailStop.of_accounting (registry.eval_accounted objects e) t.memory world
  rw [hnoted] at hnoted'
  cases hnoted'
  refine ⟨memory, hcache, ?_, hnoted⟩
  rw [evaluate_eq, hrun]

/-- A clock gives a new handle at each tick. After it was replaced by one that is broken, the
evaluator still has the two ticks that it heard. -/
theorem ticks_evaluate_again :
    let tick (n : Nat) : Value := .handle ⟨"tick", "", n⟩
    let clock : Command (StateM Nat) :=
      ⟨"tick", "", fun _ => ExceptT.mk fun n => (.ok (tick n), n + 1)⟩
    let broken : Command (StateM Nat) := ⟨"tick", "", fun _ => throw "broken"⟩
    let objects : Objects (StateM Nat) := ⟨pure 0, fun _ _ => pure none, fun _ _ => throw ""⟩
    let e : Expression :=
      .sequence [.call "tick" [], .call "tick" [.literal .null], .call "tick" []]
    let start := Session.start ((Registry.empty false).register clock) 0
    let now := (start.evaluate objects e).2.run objects
      [.register broken, .evaluate (.call "tick" [.literal (.bool true)])]
    (now.evaluate objects (.call "tick" [.literal (.bool true)])).1
        = .error (.command "tick" "broken") ∧
      (now.evaluate objects e).1 = .ok (.array [tick 0, tick 1, tick 0]) := by
  intro tick clock broken objects e start now
  have hchainless : ∀ node ∈ e.nodes, node.Chainless := by
    simp [e, Expression.nodes, Expression.nodesOfItems, Expression.call, Expression.nodesOfChain,
      Expression.Chainless]
  have hfirst : (start.evaluate objects e).1 = .ok (.array [tick 0, tick 1, tick 0]) := by cbv
  obtain ⟨memory, -, hagain, -⟩ := evaluate_again objects hchainless hfirst
    [.register broken, .evaluate (.call "tick" [.literal (.bool true)])] now.registry now.world
  exact ⟨by cbv, congrArg Prod.fst hagain⟩

end Session

end WhenClause
