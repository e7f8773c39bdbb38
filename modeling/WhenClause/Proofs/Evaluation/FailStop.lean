import WhenClause.Proofs.Condition.Simulation
import WhenClause.Proofs.Evaluation.AtMostOnce
import WhenClause.Proofs.Evaluation.Running
import WhenClause.Proofs.Evaluation.Simulation
import WhenClause.Proofs.Value.Members

set_option autoImplicit false

/-! # The first failure ends everything

An evaluation does things that may fail: it runs commands, looks up members, and calls methods.
Here they are written down as they are done. Writing them down changes nothing, and what is
written shows that no failure is swallowed, and that nothing is done after one
(`Registry.first_failure_ends`). -/

namespace WhenClause

variable {σ α β γ : Type}

/-! ## Deeds -/

/-- Something done that may fail. -/
inductive Deed where
  /-- A command was asked for, and there is none of the name. -/
  | missing (name : String)
  | ran (name : String) (args : List Value) (outcome : Except String Value)
  /-- A property or a method was looked up, and there was one or not. -/
  | lookedUp (kind : MemberKind) (key : String) (target : Value) (there : Bool)
  | called (name : String) (f : Callee) (args : List Value) (outcome : Except String Value)

namespace Deed

def failure? : Deed → Option Error
  | missing name => some (.unknownCommand name)
  | ran name _ (.error failure) => some (.command name failure)
  | lookedUp kind key target false => some (.unknownMember kind key target.text)
  | called name _ _ (.error failure) => some (.command name failure)
  | _ => none

/-- What is remembered of a deed: the result of a command, under the key of the call. -/
def remembered? : Deed → Option (CallKey × Value)
  | ran name args (.ok v) => some (CallKey.of name args, v)
  | _ => none

/-- The deed tells of a call of a command, and of its outcome for the evaluation: there is no such
command, or it was run. -/
inductive TellsOf (name : String) (args : List Value) : Deed → Except Error Value → Prop
  | missing : TellsOf name args (.missing name) (.error (.unknownCommand name))
  | ran (outcome : Except String Value) :
      TellsOf name args (.ran name args outcome) (outcome.mapError (Error.command name))

/-- An outcome that tells of a deed: its failure, or a result if it did not fail. -/
def Reports (deed : Deed) : Except Error α → Prop
  | .ok _ => deed.failure? = none
  | .error e => deed.failure? = some e

end Deed

/-- What was done so far, the first deed first. -/
abbrev Deeds : Type := List Deed

/-! ## Writing deeds down -/

/-- An action on the world that is written down when it is done, with its outcome for the
evaluation. -/
def noted (act : StateM σ α) (deed : α → Deed) (outcome : α → Except Error β) :
    ExceptT Error (StateM (σ × Deeds)) β :=
  ExceptT.mk fun s =>
    let (a, world) := act.run s.1
    (outcome a, world, s.2 ++ [deed a])

theorem run_noted (act : StateM σ α) (deed : α → Deed) (outcome : α → Except Error β) (world : σ)
    (earlier : Deeds) :
    (noted act deed outcome).run.run (world, earlier) =
      (outcome (act.run world).1, (act.run world).2, earlier ++ [deed (act.run world).1]) := rfl

/-- An action that does not touch the memory. -/
def withMemory (act : ExceptT Error (StateM (σ × Deeds)) α) : EvalM (σ × Deeds) α :=
  ExceptT.mk (StateT.lift act.run)

theorem runAt_withMemory (act : ExceptT Error (StateM (σ × Deeds)) α) (memory : Memory)
    (s : σ × Deeds) :
    EvalM.runAt (withMemory act) memory s = ((act.run.run s).1, memory, (act.run.run s).2) := rfl

namespace Registry

/-- The host of a table of commands that writes down which commands are run. -/
def noting (registry : Registry (StateM σ)) (objects : Objects (StateM σ)) :
    Host (StateM (σ × Deeds)) where
  invoke name args :=
    match registry.get? name with
    | some command =>
        noted (command.run args).run (.ran name args) (·.mapError (Error.command name))
    | none => noted (pure ()) (fun _ => .missing name) fun _ => .error (.unknownCommand name)
  member target key := fun s =>
    let (found, world) := (objects.memberOf target key).run s.1
    (found, world, s.2)
  call f args := ExceptT.mk fun s =>
    let (outcome, world) := (objects.callOf f args).run.run s.1
    (outcome, world, s.2)

/-- A call that is really made has its outcome, and a deed that tells of it is written down. -/
theorem run_noting (registry : Registry (StateM σ)) (objects : Objects (StateM σ)) (name : String)
    (args : List Value) (world : σ) :
    ∃ outcome world' deed,
      ((registry.host objects).invoke name args).run.run world = (outcome, world') ∧
      (∀ earlier, ((registry.noting objects).invoke name args).run.run (world, earlier)
        = (outcome, world', earlier ++ [deed])) ∧
      deed.TellsOf name args outcome := by
  cases hcommand : registry.get? name with
  | none =>
      refine ⟨_, world, _, run_missing hcommand args world, fun earlier => ?_, .missing⟩
      simp only [noting, hcommand]
      exact run_noted _ _ _ world earlier
  | some command =>
      rcases hrun : (command.run args).run.run world with ⟨outcome, world'⟩
      refine ⟨_, world', _, ?_, fun earlier => ?_, .ran outcome⟩
      · have hcall := run_command hcommand args world
        rw [hrun] at hcall
        exact hcall
      · simp only [noting, hcommand]
        rw [run_noted, hrun]

/-- The same host, remembering its calls as an evaluator does. -/
def notingEvaluator (registry : Registry (StateM σ)) (objects : Objects (StateM σ)) :
    Host (StateT Memory (StateM (σ × Deeds))) :=
  (registry.noting objects).memoized registry.debug

/-- The steps of an evaluation, each written down when it is done. A call that is answered from
memory does nothing, and nothing is written. -/
def notingSteps (registry : Registry (StateM σ)) (objects : Objects (StateM σ)) :
    Steps (StateT Memory (StateM (σ × Deeds))) where
  invoke := (registry.notingEvaluator objects).invoke
  property target key :=
    withMemory (noted (objects.memberOf target key)
      (fun found => .lookedUp .property key target found.isSome)
      (EvalM.found .property key target))
  method target name :=
    withMemory (noted (objects.memberOf target name)
      (fun found => .lookedUp .method name target (found.bind Value.callee?).isSome)
      (fun found => EvalM.found .method name target (found.bind Value.callee?)))
  call name f args :=
    withMemory (noted (objects.callOf f args).run (.called name f args)
      (·.mapError (Error.command name)))

end Registry

/-! ## Accounts -/

/-- The deeds account for the outcome. A result comes after deeds that all succeeded; an error is
that of the last deed, or, if none failed, one that is permitted. -/
def AccountsFor (permitted : Error → Prop) (deeds : Deeds) : Except Error α → Prop
  | .ok _ => ∀ deed ∈ deeds, deed.failure? = none
  | .error e =>
      ((∀ deed ∈ deeds, deed.failure? = none) ∧ permitted e) ∨
        ∃ before last, deeds = before ++ [last] ∧ (∀ deed ∈ before, deed.failure? = none) ∧
          last.failure? = some e

namespace AccountsFor

variable {permitted : Error → Prop} {deeds : Deeds} {outcome : Except Error α}

theorem of_reports {deed : Deed} (h : deed.Reports outcome) :
    AccountsFor permitted [deed] outcome := by
  cases outcome with
  | ok a => exact List.forall_mem_singleton.mpr h
  | error e => exact Or.inr ⟨[], deed, rfl, List.forall_mem_nil _, h⟩

/-- Deeds that succeeded may come before. -/
theorem append {earlier : Deeds} (hearlier : ∀ deed ∈ earlier, deed.failure? = none)
    (h : AccountsFor permitted deeds outcome) :
    AccountsFor permitted (earlier ++ deeds) outcome := by
  cases outcome with
  | ok a => exact List.forall_mem_append.mpr ⟨hearlier, h⟩
  | error e =>
      rcases h with ⟨hdeeds, he⟩ | ⟨before, last, rfl, hbefore, hlast⟩
      · exact Or.inl ⟨List.forall_mem_append.mpr ⟨hearlier, hdeeds⟩, he⟩
      · exact Or.inr ⟨earlier ++ before, last, (List.append_assoc _ _ _).symm,
          List.forall_mem_append.mpr ⟨hearlier, hbefore⟩, hlast⟩

/-- A deed that fails is the last, and the outcome is its failure. -/
theorem of_failure (h : AccountsFor permitted deeds outcome) {before after : Deeds} {deed : Deed}
    {e : Error} (hdeeds : deeds = before ++ deed :: after) (he : deed.failure? = some e) :
    after = [] ∧ outcome = .error e := by
  have hmem : deed ∈ deeds := by simp [hdeeds]
  cases outcome with
  | ok a =>
      have hnone := h deed hmem
      rw [he] at hnone
      cases hnone
  | error e' =>
      rcases h with ⟨hall, -⟩ | ⟨front, last, rfl, hfront, hlast⟩
      · have hnone := hall deed hmem
        rw [he] at hnone
        cases hnone
      · -- The deed is not among those in front of the last one, for none of them failed.
        rcases List.eq_nil_or_concat after with rfl | ⟨init, final, rfl⟩
        · obtain ⟨-, hsingle⟩ := List.append_inj' hdeeds rfl
          cases hsingle
          rw [he] at hlast
          cases hlast
          exact ⟨rfl, rfl⟩
        · rw [List.concat_eq_append, ← List.cons_append, ← List.append_assoc] at hdeeds
          obtain ⟨rfl, -⟩ := List.append_inj' hdeeds rfl
          have hnone := hfront deed (by simp)
          rw [he] at hnone
          cases hnone

end AccountsFor

/-- Writing deeds down changes nothing but that they are written. What is written accounts for the
outcome, and its results are what is newly remembered. -/
def accounting (σ : Type) (permitted : Error → Prop) :
    Simulation (StateT Memory (StateM σ)) (StateT Memory (StateM (σ × Deeds))) where
  rel P x y := ∀ memory world earlier, ∃ outcome outcome' memory' world' deeds,
    EvalM.runAt x memory world = (outcome, memory', world') ∧
    EvalM.runAt y memory (world, earlier) = (outcome', memory', world', earlier ++ deeds) ∧
    EndAlike P outcome outcome' ∧ AccountsFor permitted deeds outcome ∧
    memory'.cache.entries = memory.cache.entries ++ deeds.filterMap Deed.remembered?
  throws := permitted
  pure_rel {α β P a b} hab memory world earlier :=
    ⟨.ok a, .ok b, memory, world, [], rfl, by simp, hab, List.forall_mem_nil _, by simp⟩
  throw_rel {α β P e} he memory world earlier :=
    ⟨.error e, .error e, memory, world, [], rfl, by simp, rfl,
      Or.inl ⟨List.forall_mem_nil _, he⟩, by simp⟩
  bind_rel {α β γ δ P Q x y f g} hx hf memory world earlier := by
    obtain ⟨outcome, outcome', memory₁, world₁, deeds₁, hrx, hry, hend, haccount, hcache⟩ :=
      hx memory world earlier
    rcases hend.elim with ⟨a, b, rfl, rfl, hab⟩ | ⟨e, rfl, rfl⟩
    · obtain ⟨result, result', memory₂, world₂, deeds₂, hrf, hrg, hend', haccount', hcache'⟩ :=
        hf a b hab memory₁ world₁ (earlier ++ deeds₁)
      refine ⟨result, result', memory₂, world₂, deeds₁ ++ deeds₂, ?_, ?_, hend',
        haccount'.append haccount, ?_⟩
      · rw [EvalM.runAt_bind_ok hrx, hrf]
      · rw [EvalM.runAt_bind_ok hry, hrg, List.append_assoc]
      · rw [hcache', hcache, List.filterMap_append, List.append_assoc]
    · exact ⟨.error e, .error e, memory₁, world₁, deeds₁, EvalM.runAt_bind_error hrx f,
        EvalM.runAt_bind_error hry g, rfl, haccount, hcache⟩

/-! ## Steps and their accounts -/

namespace Registry

variable {permitted : Error → Prop}

/-- A step that acts on the world only, and nothing of which is remembered. -/
theorem noted_accounted {x : EvalM σ β} {act : StateM σ α} {deed : α → Deed}
    {outcome : α → Except Error β}
    (hx : ∀ memory world, EvalM.runAt x memory world =
      (outcome (act.run world).1, memory, (act.run world).2))
    (hreports : ∀ a, (deed a).Reports (outcome a)) (hnew : ∀ a, (deed a).remembered? = none) :
    (accounting σ permitted).rel Eq x (withMemory (noted act deed outcome)) := by
  intro memory world earlier
  refine ⟨_, _, memory, (act.run world).2, [deed (act.run world).1], hx memory world, ?_,
    EndAlike.refl _, .of_reports (hreports _), by simp [hnew]⟩
  rw [runAt_withMemory, run_noted]

theorem lookedUp_reports (kind : MemberKind) (key : String) (target : Value) (found : Option α) :
    (Deed.lookedUp kind key target found.isSome).Reports (EvalM.found kind key target found) := by
  cases found <;> rfl

variable (registry : Registry (StateM σ)) (objects : Objects (StateM σ))

/-- A call of a command: it is answered from memory, or there is no such command, or it is run. -/
theorem invoke_accounted (name : String) (args : List Value) :
    (accounting σ permitted).rel Eq
      (((registry.host objects).memoized registry.debug).invoke name args)
      ((registry.notingEvaluator objects).invoke name args) := by
  intro memory world earlier
  cases hfind : memory.cache.find? (CallKey.of name args) with
  | some v =>
      refine ⟨.ok v, .ok v, _, world, [], EvalM.runAt_hit _ _ hfind, ?_, rfl,
        List.forall_mem_nil _, (List.append_nil _).symm⟩
      rw [List.append_nil]
      exact EvalM.runAt_hit _ _ hfind
  | none =>
      obtain ⟨outcome, world', deed, hrun, hnoting, htells⟩ :=
        registry.run_noting objects name args world
      cases htells with
      | missing =>
          exact ⟨_, _, memory, world', _, EvalM.runAt_failure _ _ hfind hrun,
            EvalM.runAt_failure _ _ hfind (hnoting earlier), rfl, .of_reports rfl,
            (List.append_nil _).symm⟩
      | ran outcome =>
          cases outcome with
          | ok v =>
              refine ⟨_, _, _, world', _, EvalM.runAt_success _ _ hfind hrun,
                EvalM.runAt_success _ _ hfind (hnoting earlier), rfl, .of_reports rfl, ?_⟩
              rw [Host.remembering_cache, Cache.insert_entries hfind]
              rfl
          | error failure =>
              exact ⟨_, _, memory, world', _, EvalM.runAt_failure _ _ hfind hrun,
                EvalM.runAt_failure _ _ hfind (hnoting earlier), rfl, .of_reports rfl,
                (List.append_nil _).symm⟩

theorem steps_accounted :
    ((registry.host objects).memoized registry.debug).steps.Simulated (accounting σ permitted)
      Likeness.identity (registry.notingSteps objects) where
  invoke {args args'} name _ hargs := by
    obtain rfl := Likeness.identity_values hargs
    exact registry.invoke_accounted objects name args
  property {v w} key hvw := by
    obtain rfl : v = w := hvw
    exact noted_accounted (fun _ _ => EvalM.runAt_property _ _ v key)
      (lookedUp_reports .property key v) fun _ => rfl
  method {v w} name hvw := by
    obtain rfl : v = w := hvw
    exact noted_accounted (fun _ _ => EvalM.runAt_method _ _ v name)
      (fun found => lookedUp_reports .method name v (found.bind Value.callee?)) fun _ => rfl
  call {f g args args'} name hfg hargs := by
    obtain rfl : f = g := hfg
    obtain rfl := Likeness.identity_values hargs
    refine noted_accounted (fun _ _ => EvalM.runAt_call _ _ name f args) (fun outcome => ?_)
      fun _ => rfl
    cases outcome <;> rfl

end Registry

/-! ## Failures -/

/-- A computation of an evaluator, given with a version of it that writes down what it does, stops
at the first failure. From every memory and in every world both have the same outcome and leave
the same memory and world, and of what was written down:

* a deed that failed is the last, and the outcome is its failure;
* if there is a result, no deed failed;
* if there is an error and no deed failed, the error is a permitted one;
* what is remembered afterwards is what was remembered before, and the result of each command that
  was run and gave one. -/
def FailStop (permitted : Error → Prop) (x : EvalM σ α) (y : EvalM (σ × Deeds) α) : Prop :=
  ∀ memory world, ∃ outcome memory' world' deeds,
    EvalM.runAt x memory world = (outcome, memory', world') ∧
    EvalM.runAt y memory (world, []) = (outcome, memory', world', deeds) ∧
    (∀ before deed after e, deeds = before ++ deed :: after → deed.failure? = some e →
      after = [] ∧ outcome = .error e) ∧
    (∀ a, outcome = .ok a → ∀ deed ∈ deeds, deed.failure? = none) ∧
    (∀ e, outcome = .error e → (∀ deed ∈ deeds, deed.failure? = none) → permitted e) ∧
    memory'.cache.entries = memory.cache.entries ++ deeds.filterMap Deed.remembered?

theorem FailStop.of_accounting {permitted : Error → Prop} {x : EvalM σ α}
    {y : EvalM (σ × Deeds) α} (h : (accounting σ permitted).rel Eq x y) :
    FailStop permitted x y := by
  intro memory world
  obtain ⟨outcome, outcome', memory', world', deeds, hx, hy, hend, haccount, hcache⟩ :=
    h memory world []
  obtain rfl := hend.eq
  refine ⟨outcome, memory', world', deeds, hx, hy, fun _ _ _ _ => haccount.of_failure, ?_, ?_,
    hcache⟩
  · rintro a rfl
    exact haccount
  · rintro e rfl hnone
    rcases haccount with ⟨-, he⟩ | ⟨before, last, rfl, -, hlast⟩
    · exact he
    · have hlast' := hnone last (by simp)
      rw [hlast] at hlast'
      cases hlast'

namespace Registry

/-- **The first failure ends everything, and no failure is swallowed.** Whatever the commands are
and whatever is remembered, the evaluation of an expression, its check, and the check of a
condition stop at the first command that is missing or fails, the first member that is missing, or
the first method that fails, and end with the error of just that. -/
theorem first_failure_ends (registry : Registry (StateM σ)) (objects : Objects (StateM σ)) :
    let evaluator := (registry.host objects).memoized registry.debug
    (∀ e : Expression,
      FailStop (fun err => ∃ node ∈ e.nodes, node.fault? = some err) (e.eval evaluator)
        (e.evalWith (registry.notingSteps objects))) ∧
    (∀ e : Expression,
      FailStop (fun err => ∃ node ∈ e.nodes, node.fault? = some err) (e.check evaluator)
        (do return (← e.evalWith (registry.notingSteps objects)).truthy)) ∧
    (∀ c : Condition,
      FailStop (fun err => ∃ leaf ∈ c.leaves, leaf.fault? = some err) (c.check evaluator)
        (c.check (registry.notingEvaluator objects))) := by
  intro evaluator
  have heval : ∀ e : Expression,
      (accounting σ fun err => ∃ node ∈ e.nodes, node.fault? = some err).rel Eq
        (e.eval evaluator) (e.evalWith (registry.notingSteps objects)) := by
    intro e
    rw [Expression.eval_eq_evalWith]
    exact Expression.evalWith_simulated (registry.steps_accounted objects) e
      fun node hnode err herr => ⟨node, hnode, herr⟩
  refine ⟨fun e => .of_accounting (heval e), fun e => .of_accounting ?_,
    fun c => .of_accounting ?_⟩
  · refine (accounting σ _).bind_rel (heval e) ?_
    rintro v _ rfl
    exact (accounting σ _).pure_rel rfl
  · exact Condition.check_simulated (registry.invoke_accounted objects) c
      fun leaf hleaf err herr => ⟨leaf, hleaf, herr⟩

/-- The call in front of a missing command succeeds and is remembered; the one behind it is not
made. -/
theorem missing_command_ends :
    let registry := (Registry.empty false).register Command.echo
    let objects : Objects (StateM Nat) := ⟨pure 0, fun _ _ => pure none, fun _ _ => throw ""⟩
    let e : Expression := .sequence
      [.call "echo" [.literal .null], .call "none" [], .call "echo" [.literal (.string "a")]]
    ∃ memory,
      EvalM.runAt (e.eval ((registry.host objects).memoized false)) Memory.empty 0
        = (.error (.unknownCommand "none"), memory, 1) ∧
      EvalM.runAt (e.evalWith (registry.notingSteps objects)) Memory.empty (0, [])
        = (.error (.unknownCommand "none"), memory, 1,
          [.ran "echo" [.null] (.ok (.array [.null])), .missing "none"]) ∧
      memory.cache.entries = [(CallKey.of "echo" [.null], .array [.null])] := by
  intro registry objects e
  obtain ⟨outcome, memory, world, deeds, hrun, hnoted, -, -, -, hcache⟩ :=
    (first_failure_ends registry objects).1 e Memory.empty 0
  have houtcome : (EvalM.runAt (e.eval ((registry.host objects).memoized registry.debug))
      Memory.empty 0).1 = .error (.unknownCommand "none") := by cbv
  have hdeeds : (EvalM.runAt (e.evalWith (registry.notingSteps objects)) Memory.empty
      (0, [])).2.2 = (1, [.ran "echo" [.null] (.ok (.array [.null])), .missing "none"]) := by cbv
  rw [hrun] at houtcome
  rw [hnoted] at hdeeds
  obtain rfl : outcome = _ := houtcome
  cases hdeeds
  exact ⟨memory, hrun, hnoted, hcache⟩

end Registry

end WhenClause
