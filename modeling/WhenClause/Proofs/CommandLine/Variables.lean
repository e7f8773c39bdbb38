import WhenClause.Proofs.CommandLine.Verdicts
import WhenClause.Proofs.Dictionary
import WhenClause.Proofs.Environment.Composition
import WhenClause.Proofs.Value.Rereading

set_option autoImplicit false

/-! # Variables of the command line

A variable given with the call is found by the command `var` under the key in front of the first
equals sign, with exactly the value behind it, whatever characters are in either. Of several
variables of one key the last counts, and a key that was not given has the value null
(`CommandLine.variables_reach_expressions`).

The way is followed from end to end: how a call gives variables (`Gives`), what the options are then
(`readOptions_gives`), which command they make (`get?_var`), how a comparison of a call with a
literal is read (`Expression.parse_comparison`), and what it gives. -/

namespace WhenClause

open Stateful

/-! ## A call compared with a literal -/

namespace Expression

open Grammar Lexer

/-- A term compared with a literal at the end of the text. -/
theorem parse_comparison {op : Operator} (hop : op.isLogical = false) {e : Expression}
    {s s' : List Char} (h : Stands false (.unary e) s) {admits : List Char → Prop}
    (hnil : admits []) {x : Lexeme} {l : Literal} (hl : literal? x = some l)
    (h' : Taken admits x s') {text : String}
    (htext : text.toList = s ++ ((spaced op).toList ++ s')) :
    parse text = .ok (operator op [e, .literal l]) := by
  -- What follows is scanned from the end of the text.
  have hlast := h'.scan hnil (byteLength s + byteLength (spaced op).toList)
  rw [List.append_nil, scan_nil] at hlast
  obtain ⟨t, ht, hmiddle⟩ := scan_spaced op hlast
  obtain ⟨ts, hts, hd⟩ := h.operand (levelOf op) 0 _ _ (by rwa [Nat.zero_add])
  have hliteral : ∀ start stop : Nat,
      Derives unchained false (operand (levelOf op) (.literal l)) [⟨x, start, stop⟩] [] :=
    fun start stop => Derives.operand (.term (by simp [Parser.startsNegation]) (.literal hl)) _
  have hlevel := Derives.level hd (.more (ht ▸ joins_levelOf op) (hliteral _ _) .noMore)
  have htree : tree (levelOf op) e [(op, .literal l)] = operator op [e, .literal l] := by
    cases op with
    | and | or => cases hop
    | _ => rfl
  rw [htree] at hlevel
  exact parse_of_tokens (htext ▸ hts) hlevel.or

/-- A call is made, and then its result is compared with the literal. -/
theorem eval_comparison {m : Type → Type} [Monad m] [LawfulMonad m] (host : Host m)
    {op : Operator} (hop : op.isLogical = false) {name : String}
    (hname : Operator.ofName? name = none) (argument l : Literal) :
    eval host (operator op [call name [.literal argument], .literal l]) =
      host.invoke name [argument.value] >>= fun v => pure (.bool (op.holds v l.value)) := by
  rw [operator, call, eval_operator host (Operator.ofName?_name op),
    evalOperator_comparison host hop, call, eval_command host hname]
  simp [evalItems_cons, Value.negateIf]

end Expression

namespace CommandLine

/-! ## How variables are given -/

/-- The words of a call that give variables: each in one word, or in two if the second does not
look like an option. -/
inductive Gives : List String → List String → Prop
  | nil : Gives [] []
  | joined {arg args words} : Gives args words → Gives (arg :: args) (("--var=" ++ arg) :: words)
  | apart {arg args words} : looksLikeOption arg.toList = false → Gives args words →
      Gives (arg :: args) ("--var" :: arg :: words)

/-- The key of a variable: what stands in front of its first equals sign. -/
def keyOf (arg : String) : String := String.ofList (arg.toList.takeWhile (· ≠ '='))

/-- The value of a variable: what stands behind its first equals sign. -/
def valueOf (arg : String) : String := String.ofList (arg.toList.dropWhile (· ≠ '=')).tail

/-- The last variable of the key has the value. -/
def LastGiven (key value : String) (args : List String) : Prop :=
  ∃ before arg after, args = before ++ arg :: after ∧ keyOf arg = key ∧ valueOf arg = value ∧
    ∀ later ∈ after, keyOf later ≠ key

theorem splitEquals?_of_mem {s : List Char} (h : '=' ∈ s) :
    Progress.splitEquals? s = some (s.takeWhile (· ≠ '='), (s.dropWhile (· ≠ '=')).tail) := by
  rw [Progress.splitEquals?]
  cases hdrop : s.dropWhile (· ≠ '=') with
  | nil =>
      rw [List.dropWhile_eq_nil_iff] at hdrop
      simpa using hdrop '=' h
  | cons c after => rfl

theorem withVar_of_mem {arg : String} (h : '=' ∈ arg.toList) (p : Progress) :
    p.withVar arg = some { p with options :=
      { p.options with vars := p.options.vars ++ [(keyOf arg, valueOf arg)] } } := by
  rw [Progress.withVar, splitEquals?_of_mem h]
  rfl

section

variable {p p' : Progress} {arg : String} {c : Char} {more : List Char}

/-- An option that is all there. -/
theorem readOptions_done (harg : arg.toList = '-' :: c :: more) (hmore : more ≠ [])
    (hoption : readOption p (c :: more) = some (.done p')) (rest : List String) :
    readOptions p (arg :: rest) = readOptions p' rest := by
  rw [readOptions, harg]
  split
  next hdashes => exact absurd (List.cons.inj (List.cons.inj hdashes).2).2 hmore
  next hdash =>
    cases hdash
    simp only [hoption]
  next hother => exact absurd rfl (hother c more)

/-- An option whose value is the next word. -/
theorem readOptions_awaits (harg : arg.toList = '-' :: c :: more) (hmore : more ≠ [])
    {option : Valued} (hoption : readOption p (c :: more) = some (.awaits option p'))
    {value : String} (hvalue : looksLikeOption value.toList = false) (rest : List String) :
    readOptions p (arg :: value :: rest)
      = (option.apply p' value).bind fun p => readOptions p rest := by
  rw [readOptions, harg]
  split
  next hdashes => exact absurd (List.cons.inj (List.cons.inj hdashes).2).2 hmore
  next hdash =>
    cases hdash
    simp only [hoption, hvalue]
    rfl
  next hother => exact absurd rfl (hother c more)

/-- A word that is no option is the text. -/
theorem readOptions_text (harg : arg.toList.head? ≠ some '-') (rest : List String) :
    readOptions p (arg :: rest) = (p.withText arg).bind fun p => readOptions p rest := by
  rw [readOptions]
  split
  next hdashes => exact absurd (by rw [hdashes]; rfl) harg
  next hdash => exact absurd (by rw [hdash]; rfl) harg
  next => rfl

end

/-- A variable by its key and its value. -/
def pairOf (arg : String) : String × String := (keyOf arg, valueOf arg)

def withVars (p : Progress) (vars : List (String × String)) : Progress :=
  { p with options := { p.options with vars := p.options.vars ++ vars } }

/-- **Variables are understood as their keys and values**, in the order in which they are given. -/
theorem readOptions_gives {args words : List String} (h : Gives args words)
    (hequals : ∀ arg ∈ args, '=' ∈ arg.toList) (p : Progress) (rest : List String) :
    readOptions p (words ++ rest) = readOptions (withVars p (args.map pairOf)) rest := by
  induction h generalizing p with
  | nil => simp [withVars]
  | @joined arg args words _ ih =>
      obtain ⟨harg, hargs⟩ := List.forall_mem_cons.mp hequals
      have hword : ("--var=" ++ arg).toList
          = '-' :: '-' :: 'v' :: 'a' :: 'r' :: '=' :: arg.toList := by
        rw [String.toList_append]
        rfl
      have hoption : readOption p ('-' :: 'v' :: 'a' :: 'r' :: '=' :: arg.toList)
          = some (.done (withVars p [pairOf arg])) := by
        simp [readOption, longOption, Progress.splitEquals?, withVar_of_mem harg, withVars, pairOf]
      rw [List.cons_append, readOptions_done hword (List.cons_ne_nil _ _) hoption, ih hargs]
      simp [withVars]
  | @apart arg args words hlooks _ ih =>
      obtain ⟨harg, hargs⟩ := List.forall_mem_cons.mp hequals
      have hoption : readOption p ['-', 'v', 'a', 'r'] = some (.awaits .var p) := rfl
      have happly : Valued.var.apply p arg = some (withVars p [pairOf arg]) := withVar_of_mem harg p
      rw [List.cons_append, List.cons_append,
        readOptions_awaits rfl (List.cons_ne_nil _ _) hoption hlooks, happly, Option.bind_some,
        ih hargs]
      simp [withVars]

/-- Variables in front of a text and behind it are one list. -/
theorem readCall_gives {args args' words words' : List String} (h : Gives args words)
    (h' : Gives args' words') (hequals : ∀ arg ∈ args ++ args', '=' ∈ arg.toList) {text : String}
    (htext : text.toList.head? ≠ some '-') :
    readCall (words ++ text :: words')
      = some (text, ⟨none, (args ++ args').map pairOf, false⟩) := by
  have hbefore := fun arg harg => hequals arg (List.mem_append_left args' harg)
  have hbehind := fun arg harg => hequals arg (List.mem_append_right args harg)
  have hlast : ∀ p, readOptions p words' = some (withVars p (args'.map pairOf)) := by
    intro p
    have hread := readOptions_gives h' hbehind p []
    rwa [List.append_nil, readOptions] at hread
  rw [readCall, readOptions_gives h hbefore, readOptions_text htext]
  simp [Progress.withText, Progress.start, withVars, hlast]

/-- A variable is the last one of its key if none behind it has that key. -/
theorem lastGiven_iff (key value : String) (args : List String) :
    LastGiven key value args ↔
      (((args.map pairOf).reverse.find? (·.1 == key)).map Prod.snd) = some value := by
  rw [← List.map_reverse, List.find?_map, Option.map_map, Option.map_eq_some_iff]
  constructor
  · rintro ⟨before, arg, after, rfl, hkey, hvalue, hlater⟩
    refine ⟨arg, List.find?_eq_some_iff_append.mpr ⟨?_, after.reverse, before.reverse, ?_, ?_⟩,
      hvalue⟩
    · simpa [pairOf] using hkey
    · simp
    · intro later hmem
      simpa [pairOf] using hlater later (List.mem_reverse.mp hmem)
  · rintro ⟨arg, hfind, hvalue⟩
    obtain ⟨hkey, after, before, hargs, hlater⟩ := List.find?_eq_some_iff_append.mp hfind
    refine ⟨before.reverse, arg, after.reverse, ?_, ?_, hvalue, fun later hmem => ?_⟩
    · rw [← List.reverse_reverse args, hargs]
      simp
    · simpa [pairOf] using hkey
    · simpa [pairOf] using hlater later (List.mem_reverse.mp hmem)

theorem no_key_iff (key : String) (args : List String) :
    (∀ arg ∈ args, keyOf arg ≠ key) ↔
      (((args.map pairOf).reverse.find? (·.1 == key)).map Prod.snd) = none := by
  simp [pairOf]

/-! ## The command that finds them -/

section

variable {m : Type → Type} [Monad m]

/-- The registry of a call without a configuration file, and what its composition logs. -/
def composition (machine : Machine m) (debug : Bool) (vars : List (String × String)) :
    Registry m × Log :=
  (Registry.empty debug).extend (machine.commands (Dictionary.ofList vars))

theorem get?_var (machine : Machine m) (debug : Bool) (vars : List (String × String)) :
    (composition machine debug vars).1.get? "var"
      = some (Machine.varCommand (Dictionary.ofList vars)) := by
  rw [composition, Registry.get?_extend]
  rfl

/-- The value of the last variable of a key, or null. -/
def valueUnder (key : String) (vars : List (String × String)) : Value :=
  Machine.textOrNull ((vars.reverse.find? (·.1 == key)).map Prod.snd)

variable [LawfulMonad m]

theorem invoke_var (machine : Machine m) (debug : Bool) (vars : List (String × String))
    (key : String) :
    (composition machine debug vars).1.invoke "var" [.string key] = pure (valueUnder key vars) := by
  have hrun : (Machine.varCommand (Dictionary.ofList vars)).run [.string key]
      = (pure (Machine.textOrNull (Dictionary.find? key (Dictionary.ofList vars))) :
          ExceptT String m Value) :=
    pure_bind (m := ExceptT String m) key _
  rw [Registry.invoke, get?_var]
  show ExceptT.adapt (Error.command "var")
    ((Machine.varCommand (Dictionary.ofList vars)).run [.string key]) = _
  rw [hrun, Dictionary.find?_ofList]
  exact ExceptT.ext (map_pure (f := m) _ _)

/-! ## The call -/

/-- A call without a configuration file asks only whether the environment turns logging on. -/
theorem runIn_registryFor (machine : Machine m) (vars : List (String × String)) (debug : Bool) :
    runIn (registryFor machine ⟨none, vars, debug⟩) [] =
      (fun text =>
        let composed := composition machine (text.any Config.turnsOn || debug) vars
        (.ok composed.1, composed.2)) <$> machine.envValue Config.debugVariable := by
  have hlift : runIn (liftM (machine.envValue Config.debugVariable) : CallM m (Option String)) []
      = (fun text => (Except.ok text, [])) <$> machine.envValue Config.debugVariable := by
    show (Except.ok <$> (StateT.lift (machine.envValue Config.debugVariable) : StateT Log m _)).run []
      = _
    simp
  unfold registryFor configFor
  simp only [bind_assoc, pure_bind]
  rw [runIn_bind, hlift, bind_map_left, ← bind_pure_comp]
  refine bind_congr fun text => ?_
  show runIn (Environment.build ⟨machine.commands (Dictionary.ofList vars), []⟩ _) [] = _
  rw [Environment.build, runIn_bind, Environment.runIn_extend, pure_bind]
  rfl

/-- The value of a comparison of a variable with a literal. -/
theorem runIn_valueFor (machine : Machine m) (vars : List (String × String)) (debug : Bool)
    {key text : String} {l : Literal} {op : Operator} (hop : op.isLogical = false)
    (hparse : Expression.parse text
      = .ok (.operator op [.call "var" [.literal (.string key)], .literal l])) :
    Prod.fst <$> runIn (valueFor machine text ⟨none, vars, debug⟩) [] =
      (fun _ => .ok (.bool (op.holds (valueUnder key vars) l.value))) <$>
        machine.envValue Config.debugVariable := by
  have hevaluate : ∀ loud : Bool, ∃ log : Log,
      (composition machine loud vars).1.evaluate machine.objects
          (.operator op [.call "var" [.literal (.string key)], .literal l])
        = pure (.ok (.bool (op.holds (valueUnder key vars) l.value)), log) := by
    intro loud
    have hinvoke : ((composition machine loud vars).1.host machine.objects).invoke "var"
        [(Literal.string key).value] = pure (valueUnder key vars) := invoke_var machine loud vars key
    rw [Registry.evaluate, withNewMemory_eq, Expression.eval_comparison _ hop rfl, runIn_bind,
      Host.memoized_miss _ _ rfl, hinvoke]
    simp only [ExceptT.run_pure, pure_bind, runIn_pure, map_pure]
    exact ⟨_, rfl⟩
  have hrest : ∀ loud log, Prod.fst <$>
      runIn (logging ((composition machine loud vars).1.evaluate machine.objects
        (.operator op [.call "var" [.literal (.string key)], .literal l])) : CallM m Value) log
      = pure (.ok (.bool (op.holds (valueUnder key vars) l.value))) := by
    intro loud log
    obtain ⟨made, hmade⟩ := hevaluate loud
    rw [runIn_logging, hmade, map_pure, map_pure]
  rw [valueFor, runIn_bind, runIn_registryFor, bind_map_left, map_bind, ← bind_pure_comp]
  refine bind_congr fun override => ?_
  dsimp only
  rw [hparse, runIn_bind, runIn_given, pure_bind]
  exact hrest _ _

/-- What a call that checks such a comparison answers. -/
theorem outcome_check (machine : Machine m) {args : List String} {vars : List (String × String)}
    {debug : Bool} {key text : String} {l : Literal} {op : Operator} (hop : op.isLogical = false)
    (hcall : readCall args = some (text, ⟨none, vars, debug⟩))
    (hparse : Expression.parse text
      = .ok (.operator op [.call "var" [.literal (.string key)], .literal l])) :
    Ending.outcome <$> run machine ("check" :: args) =
      (fun _ => verdict (op.holds (valueUnder key vars) l.value)) <$>
        machine.envValue Config.debugVariable := by
  have hrequest : readRequest ("check" :: args) = some (.check text ⟨none, vars, debug⟩) := by
    rw [readRequest_check, hcall]
    rfl
  -- The outcome depends on the value alone, not on the log.
  have houtcome : ∀ done : Except Error Value × Log,
      (ending (done.1.map fun v => verdict v.truthy, done.2)).outcome
        = (ending (done.1.map fun v => verdict v.truthy, [])).outcome := by
    rintro ⟨_ | _, _⟩ <;> rfl
  have hvalue := runIn_valueFor machine vars debug hop hparse
  calc Ending.outcome <$> run machine ("check" :: args)
      = (fun found => (ending (found.map fun v => verdict v.truthy, [])).outcome) <$>
          (Prod.fst <$> runIn (valueFor machine text ⟨none, vars, debug⟩) []) := by
        rw [run_of_request machine hrequest, answer_check, runIn_map]
        simp only [Functor.map_map, houtcome]
    _ = (fun _ => verdict (op.holds (valueUnder key vars) l.value)) <$>
          machine.envValue Config.debugVariable := by
        rw [hvalue, Functor.map_map]
        rfl

end

/-! ## The comparisons -/

/-- The text that compares a variable with something written. -/
def comparisonText (key written : String) : String :=
  "var(" ++ Text.Quoted.quote key ++ ") == " ++ written

section

open Grammar Lexer

theorem parse_comparisonText (key : String) {written : String} {admits : List Char → Prop}
    (hnil : admits []) {x : Lexeme} {l : Literal} (hl : literal? x = some l)
    (h : Taken admits x written.toList) :
    Expression.parse (comparisonText key written)
      = .ok (.operator .equal [.call "var" [.literal (.string key)], .literal l]) := by
  have hquote : (Text.Quoted.quote key).toList = Text.Quoted.encode key.toList :=
    String.toList_ofList
  have hparsed : Parsed [(Text.Quoted.quote key, .literal (.string key))] := by
    intro p hp
    obtain rfl := List.mem_singleton.mp hp
    refine Written.parse (written_literal (fun _ _ => trivial) (x := .string key) rfl ?_)
    rw [hquote]
    exact taken_encode key
  have hdotted : IsDotted "var" := ⟨"var", [], by decide +kernel, rfl⟩
  refine Expression.parse_comparison rfl (stands_call hdotted hparsed) hnil hl h ?_
  have hopen : "var(".toList = "var".toList ++ ['('] := rfl
  have hmiddle : ") == ".toList = ')' :: (spaced .equal).toList := by decide
  simp only [comparisonText, listed, String.toList_append, List.map_cons, List.map_nil,
    String.intercalate_singleton, hopen, hmiddle, List.append_assoc, List.cons_append,
    List.nil_append]

end

theorem textOrNull_equal_string (found : Option String) (value : String) :
    Operator.equal.holds (Machine.textOrNull found) (.string value) = true ↔
      found = some value := by
  cases found <;> simp [Operator.holds, Machine.textOrNull, Value.deepEq]

theorem textOrNull_equal_null (found : Option String) :
    Operator.equal.holds (Machine.textOrNull found) .null = true ↔ found = none := by
  cases found <;> simp [Operator.holds, Machine.textOrNull, Value.deepEq]

/-- **Variables reach expressions as they were given.** On every machine, with variables in front of
the text and behind it, a check whether the variable of a key is equal to a string prints true if
the last variable of that key has just that value, and a check whether it is null if there is no
variable of that key. Otherwise they print false. All that a check asks of the machine is whether
the environment turns logging on. -/
theorem variables_reach_expressions {m : Type → Type} [Monad m] [LawfulMonad m]
    (machine : Machine m) {args args' words words' : List String} (hgives : Gives args words)
    (hgives' : Gives args' words') (hequals : ∀ arg ∈ args ++ args', '=' ∈ arg.toList)
    (key value : String) :
    (∃ holds : Bool, (holds = true ↔ LastGiven key value (args ++ args')) ∧
      Ending.outcome <$>
          run machine ("check" ::
            (words ++ comparisonText key (Text.Quoted.quote value) :: words'))
        = (fun _ => verdict holds) <$> machine.envValue Config.debugVariable) ∧
    (∃ holds : Bool, (holds = true ↔ ∀ arg ∈ args ++ args', keyOf arg ≠ key) ∧
      Ending.outcome <$>
          run machine ("check" :: (words ++ comparisonText key "null" :: words'))
        = (fun _ => verdict holds) <$> machine.envValue Config.debugVariable) := by
  have hcall : ∀ written, readCall (words ++ comparisonText key written :: words')
      = some (comparisonText key written, ⟨none, (args ++ args').map pairOf, false⟩) := by
    intro written
    refine readCall_gives hgives hgives' hequals ?_
    simp [comparisonText]
  have hvalue : Expression.parse (comparisonText key (Text.Quoted.quote value)) = _ :=
    parse_comparisonText key (x := .string value) (l := .string value) trivial rfl
      (by rw [Text.Quoted.quote, String.toList_ofList]; exact Lexer.taken_encode value)
  have hnull : Expression.parse (comparisonText key "null") = _ :=
    parse_comparisonText key (x := .null) (l := .null) Lexer.endsItem_nil rfl Lexer.taken_null
  refine ⟨⟨_, ?_, outcome_check machine rfl (hcall _) hvalue⟩,
    _, ?_, outcome_check machine rfl (hcall _) hnull⟩
  · exact (textOrNull_equal_string _ _).trans (lastGiven_iff key value _).symm
  · exact (textOrNull_equal_null _).trans (no_key_iff key _).symm

/-- Of two variables of one key the second counts, up to the quote at its end; the first is found
under the key no more. -/
theorem sample_variables_reach_expressions :
    let machine : Machine Id :=
      ⟨fun _ => none, "", "", throw "", fun _ => none, fun _ => throw "", (0 : Nat)⟩
    Gives ["k=1"] ["--var=k=1"] ∧ Gives ["k=a=\""] ["--var", "k=a=\""] ∧
      (∀ arg ∈ ["k=1"] ++ ["k=a=\""], '=' ∈ arg.toList) ∧
      (run machine ["check", "--var=k=1", comparisonText "k" (Text.Quoted.quote "a=\""), "--var",
        "k=a=\""]).outcome = .answer 0 "true\n" ∧
      (run machine ["check", "--var=k=1", comparisonText "k" "null", "--var",
        "k=a=\""]).outcome = .answer 1 "false\n" := by
  intro machine
  have hfirst : Gives ["k=1"] ["--var=k=1"] := .joined .nil
  have hsecond : Gives ["k=a=\""] ["--var", "k=a=\""] := .apart (by decide) .nil
  have hequals : ∀ arg ∈ ["k=1"] ++ ["k=a=\""], '=' ∈ arg.toList := by decide
  obtain ⟨⟨holds, hvalue, hrun⟩, ⟨absent, hnull, hrun'⟩⟩ :=
    variables_reach_expressions machine hfirst hsecond hequals "k" "a=\""
  obtain rfl : holds = true :=
    hvalue.mpr ⟨["k=1"], "k=a=\"", [], rfl, by decide, by decide, by simp⟩
  obtain rfl : absent = false := by
    rw [← Bool.not_eq_true, hnull]
    exact fun hall => hall "k=1" (by simp) (by decide)
  exact ⟨hfirst, hsecond, hequals, hrun, hrun'⟩

end CommandLine

end WhenClause
