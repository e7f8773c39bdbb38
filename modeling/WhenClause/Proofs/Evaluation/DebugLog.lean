import WhenClause.Proofs.Evaluation.FailStop

set_option autoImplicit false

/-! # The debug flag only logs

Two evaluators of one table of commands, one whose calls are to be logged and one whose are not,
are at work on the same expressions. Their logs differ in the records of the info level, and
nothing else differs: not the outcomes, not what they do, not what they remember. The records of
the info level tell of the calls of commands that were really made and succeeded, one of each
(`Registry.debug_only_logs`). -/

namespace WhenClause

variable {σ : Type}

/-! ## Records of the info level -/

namespace Memory

/-- The messages of the info level in the log, the oldest first. -/
def infos (memory : Memory) : List String :=
  memory.log.filterMap fun record => if record.level = .info then some record.message else none

def quieted (memory : Memory) : Memory :=
  { memory with log := memory.log.filter (·.level ≠ .info) }

theorem infos_note_info (memory : Memory) (message : String) :
    (memory.note .info message).infos = memory.infos ++ [message] := by
  simp [infos, note]

theorem infos_note_trace (memory : Memory) (message : String) :
    (memory.note .trace message).infos = memory.infos := by
  simp [infos, note]

theorem quieted_note_info (memory : Memory) (message : String) :
    (memory.note .info message).quieted = memory.quieted := by
  simp [quieted, note]

theorem quieted_note_trace (memory : Memory) (message : String) :
    (memory.note .trace message).quieted = memory.quieted.note .trace message := by
  simp [quieted, note]

/-- A memory without records of the info level has no messages of that level. -/
theorem infos_quieted (memory : Memory) : memory.quieted.infos = [] := by
  refine List.filterMap_eq_nil_iff.mpr fun record hrecord => ?_
  have hlevel : record.level ≠ .info := by simpa using (List.mem_filter.mp hrecord).2
  exact if_neg hlevel

/-- What a loud evaluator writes about a call, and a quiet one does not. -/
theorem infos_remembering (memory : Memory) (name : String) (args : List Value) (v : Value) :
    (Host.remembering true memory name args v).infos
      = memory.infos ++ [callMessage name args v] :=
  infos_note_info memory _

theorem quieted_remembering (memory : Memory) (name : String) (args : List Value) (v : Value) :
    (Host.remembering true memory name args v).quieted
      = Host.remembering false memory.quieted name args v := by
  have hnote := quieted_note_info memory (callMessage name args v)
  exact congrArg (·.remember (CallKey.of name args) v) hnote

end Memory

namespace Deed

/-- The texts of arguments, with a comma and a blank between two of them. -/
def argumentsText : List Value → String
  | [] => ""
  | [v] => v.text
  | v :: rest => v.text ++ ", " ++ argumentsText rest

/-- The message of a deed: the command that was run, its arguments between parentheses, and its
result behind an equals sign. There is none unless the command succeeded. -/
def message? : Deed → Option String
  | ran name args (.ok v) => some (name ++ "(" ++ argumentsText args ++ ") = " ++ v.text)
  | _ => none

theorem intercalate_eq_argumentsText (args : List Value) :
    String.intercalate ", " (args.map Value.text) = argumentsText args := by
  induction args with
  | nil => rfl
  | cons v rest ih =>
      cases rest with
      | nil => exact String.intercalate_singleton
      | cons w rest =>
          rw [List.map_cons, List.map_cons, String.intercalate_cons_cons, ← List.map_cons, ih]
          rfl

theorem callMessage_eq (name : String) (args : List Value) (v : Value) :
    callMessage name args v = name ++ "(" ++ argumentsText args ++ ") = " ++ v.text := by
  rw [← intercalate_eq_argumentsText]
  rfl

/-- A call that succeeds has a message, and one that fails has none. -/
theorem TellsOf.message? {deed : Deed} {name : String} {args : List Value}
    {outcome : Except Error Value} (h : deed.TellsOf name args outcome) :
    deed.message? = outcome.toOption.map (callMessage name args) := by
  cases h with
  | missing => rfl
  | ran outcome =>
      cases outcome with
      | ok v => exact congrArg some (callMessage_eq name args v).symm
      | error failure => rfl

end Deed

/-! ## Loud and quiet evaluations -/

/-- A loud computation and a quiet one do the same, and the loud one logs the messages of what it
does. -/
def quieting (σ : Type) :
    Simulation (StateT Memory (StateM (σ × Deeds))) (StateT Memory (StateM (σ × Deeds))) where
  rel P x y := ∀ memory world earlier, ∃ outcome outcome' memory' world' deeds,
    EvalM.runAt x memory (world, earlier) = (outcome, memory', world', earlier ++ deeds) ∧
    EvalM.runAt y memory.quieted (world, earlier)
      = (outcome', memory'.quieted, world', earlier ++ deeds) ∧
    EndAlike P outcome outcome' ∧
    memory'.infos = memory.infos ++ deeds.filterMap Deed.message?
  throws _ := True
  pure_rel {α β P a b} hab memory world earlier :=
    ⟨.ok a, .ok b, memory, world, [], by simp, by simp, hab, by simp⟩
  throw_rel {α β P e} _ memory world earlier :=
    ⟨.error e, .error e, memory, world, [], by simp, by simp, rfl, by simp⟩
  bind_rel {α β γ δ P Q x y f g} hx hf memory world earlier := by
    obtain ⟨outcome, outcome', memory₁, world₁, deeds₁, hrx, hry, hend, hinfos⟩ :=
      hx memory world earlier
    rcases hend.elim with ⟨a, b, rfl, rfl, hab⟩ | ⟨e, rfl, rfl⟩
    · obtain ⟨result, result', memory₂, world₂, deeds₂, hrf, hrg, hend', hinfos'⟩ :=
        hf a b hab memory₁ world₁ (earlier ++ deeds₁)
      refine ⟨result, result', memory₂, world₂, deeds₁ ++ deeds₂, ?_, ?_, hend', ?_⟩
      · rw [EvalM.runAt_bind_ok hrx, hrf, List.append_assoc]
      · rw [EvalM.runAt_bind_ok hry, hrg, List.append_assoc]
      · rw [hinfos', hinfos, List.filterMap_append, List.append_assoc]
    · exact ⟨.error e, .error e, memory₁, world₁, deeds₁, EvalM.runAt_bind_error hrx f,
        EvalM.runAt_bind_error hry g, rfl, hinfos⟩

namespace Registry

/-- A step that does not call a command, and of which nothing is logged. -/
theorem noted_quieted {α β : Type} (act : StateM σ α) (deed : α → Deed)
    (outcome : α → Except Error β) (hmessage : ∀ a, (deed a).message? = none) :
    (quieting σ).rel Eq (withMemory (noted act deed outcome))
      (withMemory (noted act deed outcome)) := by
  intro memory world earlier
  refine ⟨_, _, memory, (act.run world).2, [deed (act.run world).1], ?_, ?_,
    EndAlike.refl (outcome (act.run world).1), by simp [hmessage]⟩
  · rw [runAt_withMemory, run_noted]
  · rw [runAt_withMemory, run_noted]

variable (registry : Registry (StateM σ)) (objects : Objects (StateM σ))

/-- A call of a command: it is answered from memory, and no message is logged, or it is made, and
its result is logged. -/
theorem invoke_quieted (name : String) (args : List Value) :
    (quieting σ).rel Eq (({ registry with debug := true }.notingEvaluator objects).invoke name args)
      (({ registry with debug := false }.notingEvaluator objects).invoke name args) := by
  intro memory world earlier
  cases hfind : memory.cache.find? (CallKey.of name args) with
  | some v =>
      have hfind' : memory.quieted.cache.find? (CallKey.of name args) = some v := hfind
      -- The hit is written down on both sides, for its level is another one.
      refine ⟨.ok v, .ok v, memory.note .trace s!"Cache hit for {name}", world, [], ?_, ?_, rfl, ?_⟩
      · rw [List.append_nil]
        exact EvalM.runAt_hit _ true hfind
      · rw [List.append_nil, Memory.quieted_note_trace]
        exact EvalM.runAt_hit _ false hfind'
      · rw [Memory.infos_note_trace]
        exact (List.append_nil _).symm
  | none =>
      have hfind' : memory.quieted.cache.find? (CallKey.of name args) = none := hfind
      obtain ⟨outcome, world', deed, -, hnoting, htells⟩ :=
        registry.run_noting objects name args world
      cases outcome with
      | ok v =>
          have hmessage : deed.message? = some (callMessage name args v) := htells.message?
          refine ⟨.ok v, .ok v, Host.remembering true memory name args v, world', [deed],
            EvalM.runAt_success _ true hfind (hnoting earlier), ?_, rfl, ?_⟩
          · rw [Memory.quieted_remembering]
            exact EvalM.runAt_success _ false hfind' (hnoting earlier)
          · rw [Memory.infos_remembering, List.filterMap_cons_some hmessage]
            rfl
      | error e =>
          have hmessage : deed.message? = none := htells.message?
          refine ⟨.error e, .error e, memory, world', [deed],
            EvalM.runAt_failure _ true hfind (hnoting earlier),
            EvalM.runAt_failure _ false hfind' (hnoting earlier), rfl, ?_⟩
          rw [List.filterMap_cons_none hmessage]
          exact (List.append_nil _).symm

/-- Every step is the same, loud and quiet. -/
theorem steps_quieted :
    ({ registry with debug := true }.notingSteps objects).Simulated (quieting σ)
      Likeness.identity ({ registry with debug := false }.notingSteps objects) where
  invoke {args args'} name _ hargs := by
    obtain rfl := Likeness.identity_values hargs
    exact registry.invoke_quieted objects name args
  property {v w} key hvw := by
    obtain rfl : v = w := hvw
    exact noted_quieted _ _ _ fun _ => rfl
  method {v w} name hvw := by
    obtain rfl : v = w := hvw
    exact noted_quieted _ _ _ fun _ => rfl
  call {f g args args'} name hfg hargs := by
    obtain rfl : f = g := hfg
    obtain rfl := Likeness.identity_values hargs
    exact noted_quieted _ _ _ fun _ => rfl

/-- An evaluation is the same, loud and quiet. -/
theorem eval_quieted (e : Expression) :
    (quieting σ).rel Eq (e.evalWith ({ registry with debug := true }.notingSteps objects))
      (e.evalWith ({ registry with debug := false }.notingSteps objects)) :=
  Expression.evalWith_simulated (registry.steps_quieted objects) e fun _ _ _ _ => trivial

end Registry

/-! ## Expressions one after another -/

/-- What there is after the evaluation of an expression: its outcome, the memory of the evaluator,
and the world. -/
structure Report (σ : Type) where
  /-- The value of the expression, or an error. -/
  outcome : Except Error Value
  memory : Memory
  /-- What the commands act on. -/
  world : σ

/-- The reports of expressions that are evaluated one after another. -/
def reports (evaluation : Expression → EvalM σ Value) :
    List Expression → Memory → σ → List (Report σ)
  | [], _, _ => []
  | e :: rest, memory, world =>
      let (outcome, memory, world) := EvalM.runAt (evaluation e) memory world
      ⟨outcome, memory, world⟩ :: reports evaluation rest memory world

theorem reports_cons {evaluation : Expression → EvalM σ Value} {e : Expression}
    {memory memory' : Memory} {world world' : σ} {outcome : Except Error Value}
    (h : EvalM.runAt (evaluation e) memory world = (outcome, memory', world'))
    (rest : List Expression) :
    reports evaluation (e :: rest) memory world
      = ⟨outcome, memory', world'⟩ :: reports evaluation rest memory' world' := by
  rw [reports, h]

namespace Report

/-- What was done so far, if it was written down. -/
def deeds (report : Report (σ × Deeds)) : Deeds := report.world.2

def unnoted (report : Report (σ × Deeds)) : Report σ :=
  { report with world := report.world.1 }

def quieted (report : Report σ) : Report σ :=
  { report with memory := report.memory.quieted }

end Report

namespace Registry

variable (registry : Registry (StateM σ)) (objects : Objects (StateM σ))

theorem reports_noted (es : List Expression) (memory : Memory) (world : σ) (earlier : Deeds) :
    reports (·.eval ((registry.host objects).memoized registry.debug)) es memory world =
      (reports (·.evalWith (registry.notingSteps objects)) es memory (world, earlier)).map
        Report.unnoted := by
  induction es generalizing memory world earlier with
  | nil => rfl
  | cons e rest ih =>
      have haccount : (accounting σ fun _ => True).rel Eq _ _ := Expression.evalWith_simulated
        (registry.steps_accounted objects) e fun _ _ _ _ => trivial
      obtain ⟨outcome, outcome', memory', world', deeds, heval, hnoted, hend, -⟩ :=
        haccount memory world earlier
      obtain rfl := EndAlike.eq hend
      rw [← Expression.eval_eq_evalWith] at heval
      rw [reports_cons heval, reports_cons hnoted, List.map_cons, ih memory' world']
      rfl

/-- The reports of a quiet evaluator are those of a loud one without the records of the info
level, and these are the messages of what was done. -/
theorem reports_quieted (es : List Expression) (memory : Memory) (world : σ) (earlier : Deeds)
    (hinfos : memory.infos = earlier.filterMap Deed.message?) :
    reports (·.evalWith ({ registry with debug := false }.notingSteps objects)) es memory.quieted
        (world, earlier) =
      (reports (·.evalWith ({ registry with debug := true }.notingSteps objects)) es memory
        (world, earlier)).map Report.quieted ∧
    ∀ report ∈ reports (·.evalWith ({ registry with debug := true }.notingSteps objects)) es memory
        (world, earlier),
      report.memory.infos = report.deeds.filterMap Deed.message? := by
  induction es generalizing memory world earlier with
  | nil => exact ⟨rfl, List.forall_mem_nil _⟩
  | cons e rest ih =>
      obtain ⟨outcome, outcome', memory', world', deeds, hloud, hquiet, hend, hinfos'⟩ :=
        registry.eval_quieted objects e memory world earlier
      obtain rfl := EndAlike.eq hend
      -- The log of a report goes back to the first expression, and so do the deeds.
      have hafter : memory'.infos = (earlier ++ deeds).filterMap Deed.message? := by
        rw [hinfos', hinfos, List.filterMap_append]
      obtain ⟨hrest, hmessages⟩ := ih memory' world' (earlier ++ deeds) hafter
      rw [reports_cons hloud, reports_cons hquiet, List.map_cons, hrest]
      exact ⟨rfl, List.forall_mem_cons.mpr ⟨hafter, hmessages⟩⟩

/-- **The debug flag only logs.** Let a new evaluator evaluate expressions one after another, and
let its commands, its look-ups and its method calls be written down, which changes nothing. After
each expression:

* with the flag off, all is as with the flag on, but for the records of the info level in the log:
  the outcome, what was done, what is remembered, and the world;
* with the flag on, these records are the messages of the commands that were run and succeeded, in
  their order;
* with the flag off, there is none. -/
theorem debug_only_logs (es : List Expression) (world : σ) :
    let written (debug : Bool) := reports
      (·.evalWith ({ registry with debug }.notingSteps objects)) es Memory.empty (world, [])
    (∀ debug, reports (·.eval (({ registry with debug }.host objects).memoized debug)) es
        Memory.empty world = (written debug).map Report.unnoted) ∧
      written false = (written true).map Report.quieted ∧
      (∀ report ∈ written true, report.memory.infos = report.deeds.filterMap Deed.message?) ∧
      ∀ report ∈ written false, report.memory.infos = [] := by
  intro written
  obtain ⟨hquiet, hmessages⟩ := registry.reports_quieted objects es Memory.empty world [] rfl
  refine ⟨fun debug => ?_, hquiet, hmessages, fun report hreport => ?_⟩
  · exact { registry with debug }.reports_noted objects es Memory.empty world []
  · have hmem : report ∈ (written true).map Report.quieted := hquiet ▸ hreport
    obtain ⟨loud, -, rfl⟩ := List.mem_map.mp hmem
    exact loud.memory.infos_quieted

/-- The same call twice, and the call of a name that is missing. -/
def echoes : List Expression :=
  [.call "echo" [.literal .null, .literal (.string "a")],
    .call "echo" [.literal .null, .literal (.string "a")], .call "none" []]

/-- The call is logged when it is made. The second time it is answered from memory, and the other
call fails; neither is logged. -/
theorem echo_logged_once :
    let registry := (Registry.empty false).register Command.echo
    let objects : Objects (StateM Nat) := ⟨pure 0, fun _ _ => pure none, fun _ _ => throw ""⟩
    let run (debug : Bool) := reports
      (·.eval (({ registry with debug }.host objects).memoized debug)) echoes Memory.empty 0
    let line := "echo(null, \"a\") = [null,\"a\"]"
    (run true).map (·.memory.infos) = [[line], [line], [line]] ∧
      (run false).map (·.memory.infos) = [[], [], []] ∧
      (run true).map (·.world) = [1, 1, 1] ∧ (run false).map (·.world) = [1, 1, 1] ∧
      (run false).map (·.outcome) = (run true).map (·.outcome) := by
  intro registry objects run line
  obtain ⟨hwritten, hquiet, -, -⟩ := debug_only_logs registry objects echoes 0
  refine ⟨by cbv, by cbv, by cbv, by cbv, ?_⟩
  show (run false).map _ = (run true).map _
  rw [show run false = _ from hwritten false, show run true = _ from hwritten true, hquiet]
  simp only [List.map_map]
  rfl

end Registry

end WhenClause
