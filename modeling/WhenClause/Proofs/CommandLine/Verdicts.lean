import WhenClause.CommandLine.Run
import WhenClause.Proofs.Evaluation.Equations
import WhenClause.Proofs.Evaluation.Remembering
import WhenClause.Proofs.Value.Truth

set_option autoImplicit false

/-! # Checks and evaluations of the command line

A call that checks an expression and a call that evaluates it do the same things: they compose the
same registry, read the same expression and find the same value (`valueFor`). Only then do they
part: the one prints the truth of the value, the other its JSON. So they agree
(`check_agrees_with_eval`), except that an infinite number is true, while JSON has nothing but null
for it. -/

namespace WhenClause.CommandLine

open Stateful

/-! ## The same request -/

/-- The text and the options among the arguments behind the name of a command. -/
def readCall (args : List String) : Option (String × Options) := do
  let p ← readOptions .start args
  return (← p.text, p.options)

theorem readRequest_check (args : List String) :
    readRequest ("check" :: args) = (readCall args).map fun call => .check call.1 call.2 := by
  rw [readRequest, readCall]
  cases readOptions .start args with
  | none => rfl
  | some p => cases h : p.text <;> simp [h]

theorem readRequest_eval (args : List String) :
    readRequest ("eval" :: args) = (readCall args).map fun call => .eval call.1 call.2 := by
  rw [readRequest, readCall]
  cases readOptions .start args with
  | none => rfl
  | some p => cases h : p.text <;> simp [h]

/-! ## The same value -/

def valueFor {m : Type → Type} [Monad m] (machine : Machine m) (expression : String)
    (options : Options) : CallM m Value := do
  let registry ← registryFor machine options
  let e ← given (Expression.parse expression)
  logging (registry.evaluate machine.objects e)

section

variable {m : Type → Type} [Monad m]

@[simp] theorem runIn_given {α : Type} (result : Except Error α) (log : Log) :
    runIn (given result : CallM m α) log = pure (result, log) := rfl

variable [LawfulMonad m]

/-- What is logged goes behind what was logged before. -/
theorem runIn_logging {α : Type} (action : m (Except Error α × Log)) (log : Log) :
    runIn (logging action) log = (fun done => (done.1, log ++ done.2)) <$> action := by
  have hlift : runIn (liftM action : CallM m (Except Error α × Log)) log
      = (fun done => (Except.ok done, log)) <$> action := by
    show (Except.ok <$> (StateT.lift action : StateT Log m _)).run log = _
    simp
  unfold logging
  rw [runIn_bind, hlift, bind_map_left, ← bind_pure_comp]
  refine bind_congr fun done => ?_
  simp only [runIn_bind, runIn_modify, pure_bind, runIn_given]

theorem withNewMemory_eq {α : Type} (x : ExceptT Error (StateT Memory m) α) :
    withNewMemory x = (fun done => (done.1, done.2.log)) <$> runIn x Memory.empty := by
  rw [withNewMemory, ← bind_pure_comp]
  rfl

/-- The check of a text reads it, evaluates the expression and takes the truth of the value. -/
theorem logging_check (registry : Registry m) (objects : Objects m) (expression : String) :
    logging (registry.check objects (.text expression)) = (do
      let e ← given (Expression.parse expression)
      let v ← logging (registry.evaluate objects e)
      return v.truthy : CallM m Bool) := by
  refine ExceptT.ext (StateT.ext fun log => ?_)
  show runIn _ log = runIn _ log
  rw [runIn_bind, runIn_given, pure_bind, runIn_logging, Registry.check, Predicate.check,
    withNewMemory_eq]
  cases hparse : Expression.parse expression with
  | error e => simp [checkText_of_error _ hparse, Memory.empty]
  | ok e =>
      simp [checkText_of_parse _ hparse, Expression.check, bind_pure_comp, runIn_map,
        runIn_logging, Registry.evaluate, withNewMemory_eq]

variable (machine : Machine m) (expression : String) (options : Options)

theorem answer_eval :
    answer machine (.eval expression options)
      = (fun v => .answer 0 (v.toJson.pretty ++ "\n")) <$> valueFor machine expression options := by
  simp only [answer, valueFor, map_eq_pure_bind, bind_assoc]

theorem answer_check :
    answer machine (.check expression options)
      = (fun v => verdict v.truthy) <$> valueFor machine expression options := by
  simp only [answer, valueFor, logging_check, map_eq_pure_bind, bind_assoc, pure_bind]

def ending : Except Error Outcome × Log → Ending
  | (.ok outcome, log) => ⟨outcome, log⟩
  | (.error e, log) => ⟨.failure e, log⟩

theorem run_of_request {args : List String} {request : Request}
    (h : readRequest args = some request) :
    run machine args = ending <$> runIn (answer machine request) [] := by
  rw [run, h, ← bind_pure_comp]
  refine bind_congr fun done => ?_
  rcases done with ⟨result, log⟩
  cases result <;> rfl

end

theorem verdict_eq_true_iff (holds : Bool) : verdict holds = .answer 0 "true\n" ↔ holds = true := by
  cases holds <;> decide

theorem verdict_eq_false_iff (holds : Bool) :
    verdict holds = .answer 1 "false\n" ↔ holds = false := by
  cases holds <;> decide

/-- **Checks and evaluations agree.** On every machine and whatever the arguments are, `check` and
`eval` leave the same world and the same log. Neither understands the arguments, or both end with
the same error, or both find the same value. Then `check` prints true if the text that `eval`
prints is none of the four that are false, and it prints false and exits with one otherwise. The
only exception are the infinite numbers: `eval` prints null for them, and `check` true. -/
theorem check_agrees_with_eval {σ : Type} (machine : Machine (StateM σ)) (args : List String)
    (world : σ) :
    ∃ checked evaluated log world',
      (run machine ("check" :: args)).run world = (⟨checked, log⟩, world') ∧
      (run machine ("eval" :: args)).run world = (⟨evaluated, log⟩, world') ∧
      match readCall args with
      | none => checked = .usage ∧ evaluated = .usage
      | some (expression, options) =>
          ∃ found, (runIn (valueFor machine expression options) []).run world
              = ((found, log), world') ∧
            match found with
            | .error e => checked = .failure e ∧ evaluated = .failure e
            | .ok v =>
                evaluated = .answer 0 (v.toJson.pretty ++ "\n") ∧
                (v.isInfinite = true → checked = .answer 0 "true\n" ∧ v.toJson.pretty = "null") ∧
                (v.isInfinite = false →
                  (checked = .answer 0 "true\n" ↔ v.toJson.pretty ∉ Json.falsyTexts) ∧
                  (checked = .answer 1 "false\n" ↔ v.toJson.pretty ∈ Json.falsyTexts)) := by
  cases hcall : readCall args with
  | none =>
      have hcheck : readRequest ("check" :: args) = none := by rw [readRequest_check, hcall]; rfl
      have heval : readRequest ("eval" :: args) = none := by rw [readRequest_eval, hcall]; rfl
      refine ⟨.usage, .usage, [], world, ?_, ?_, rfl, rfl⟩
      · rw [run, hcheck]
        rfl
      · rw [run, heval]
        rfl
  | some call =>
      obtain ⟨expression, options⟩ := call
      have hcheck : readRequest ("check" :: args) = some (.check expression options) := by
        rw [readRequest_check, hcall]
        rfl
      have heval : readRequest ("eval" :: args) = some (.eval expression options) := by
        rw [readRequest_eval, hcall]
        rfl
      rcases hvalue : (runIn (valueFor machine expression options) []).run world
        with ⟨⟨found, log⟩, world'⟩
      have hrun (f : Value → Outcome) :
          (ending <$> runIn (f <$> valueFor machine expression options) []).run world
            = (ending (found.map f, log), world') := by
        rw [runIn_map, StateT.run_map, StateT.run_map, hvalue]
        rfl
      have hchecked := hrun fun v => verdict v.truthy
      have hevaluated := hrun fun v => .answer 0 (v.toJson.pretty ++ "\n")
      rw [← answer_check, ← run_of_request machine hcheck] at hchecked
      rw [← answer_eval, ← run_of_request machine heval] at hevaluated
      cases found with
      | error e =>
          exact ⟨.failure e, .failure e, log, world', hchecked, hevaluated, .error e, hvalue, rfl, rfl⟩
      | ok v =>
          refine ⟨verdict v.truthy, .answer 0 (v.toJson.pretty ++ "\n"), log, world', hchecked,
            hevaluated, .ok v, hvalue, rfl, fun hinf => ?_, fun hinf => ?_⟩
          · rw [verdict_eq_true_iff, Value.toJson_of_isInfinite hinf]
            exact ⟨Value.truthy_of_isInfinite hinf, rfl⟩
          · have htruth : v.toJson.truthy = v.truthy := by
              rw [Value.truthy_toJson, hinf, Bool.not_false, Bool.and_true]
            rw [verdict_eq_true_iff, verdict_eq_false_iff, Value.pretty_toJson_falsy, htruth,
              Bool.not_eq_false]
            exact ⟨Iff.rfl, Iff.rfl⟩

/-- The number `1e999` is infinite: its check prints true, and its evaluation prints null. -/
theorem infinity_prints_null :
    let machine : Machine (StateM Unit) :=
      ⟨fun _ => pure none, "", "", throw "", fun _ => pure none, fun _ => throw "", pure 0⟩
    (run machine ["check", "1e999"]).run () = (⟨.answer 0 "true\n", []⟩, ()) ∧
      (run machine ["eval", "1e999"]).run () = (⟨.answer 0 "null\n", []⟩, ()) ∧
      "null" ∈ Json.falsyTexts := by
  have hcheck : readRequest ["check", "1e999"] = some (.check "1e999" ⟨none, [], false⟩) := by
    decide +kernel
  have heval : readRequest ["eval", "1e999"] = some (.eval "1e999" ⟨none, [], false⟩) := by
    decide +kernel
  intro machine
  refine ⟨?_, ?_, by decide⟩
  · rw [run, hcheck]
    cbv
  · rw [run, heval]
    cbv

end WhenClause.CommandLine
