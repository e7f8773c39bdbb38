import WhenClause.Environment.Builder
import WhenClause.Proofs.Dictionary
import WhenClause.Proofs.Evaluation.Remembering
import WhenClause.Proofs.Text.ByteOrder

set_option autoImplicit false

/-! # What a composition does

A composition activates the active extensions in the order of their names and asks each for its
commands before it comes to the next one. What it does to extensions is written down here as it is
done, which changes nothing. What is written shows in which order the extensions were handled and
where the composition ended (`Environment.build_composes`). -/

namespace WhenClause

open Stateful

variable {m : Type → Type} {σ : Type}

/-! ## Command tables -/

def Command.last? (name : String) (commands : List (Command m)) : Option (Command m) :=
  commands.reverse.find? (·.name == name)

namespace Registry

theorem extend_append (registry : Registry m) (commands more : List (Command m)) :
    (registry.extend (commands ++ more)).1 = ((registry.extend commands).1.extend more).1 := by
  induction commands generalizing registry with
  | nil => rfl
  | cons command rest ih => exact ih (registry.register command)

theorem extend_debug (registry : Registry m) (commands : List (Command m)) :
    (registry.extend commands).1.debug = registry.debug := by
  induction commands generalizing registry with
  | nil => rfl
  | cons command rest ih => exact ih (registry.register command)

theorem extend_sorted {registry : Registry m} (h : Dictionary.Sorted registry.table)
    (commands : List (Command m)) : Dictionary.Sorted (registry.extend commands).1.table := by
  induction commands generalizing registry with
  | nil => exact h
  | cons command rest ih => exact ih (Dictionary.insert_sorted _ _ h)

/-- A name stands for the last command of that name, or for the one it stood for before. -/
theorem get?_extend (registry : Registry m) (commands : List (Command m)) (name : String) :
    (registry.extend commands).1.get? name
      = (Command.last? name commands).or (registry.get? name) := by
  induction commands generalizing registry with
  | nil => rfl
  | cons command rest ih =>
      have hregister : (registry.register command).get? name
          = if command.name = name then some command else registry.get? name :=
        Dictionary.find?_insert _ _ _ _
      have hextend : ((registry.extend (command :: rest)).1.get? name)
          = (Command.last? name rest).or ((registry.register command).get? name) := ih _
      rw [hextend, hregister, Command.last?, Command.last?, List.reverse_cons, List.find?_append]
      by_cases hname : command.name = name
      · simp [hname]
      · simp [hname]

/-- A registry holds a sequence of commands: a name stands for the last command of that name, and
the names, in the order of their octets, are those of the commands. -/
structure Holds (registry : Registry m) (commands : List (Command m)) : Prop where
  get? : ∀ name, registry.get? name = Command.last? name commands
  mem_names : ∀ name, name ∈ registry.names ↔ ∃ command ∈ commands, command.name = name
  ascending : registry.names.Pairwise fun a b => Text.octets a < Text.octets b

theorem empty_extend_holds (debug : Bool) (commands : List (Command m)) :
    ((empty debug).extend commands).1.Holds commands := by
  have hget : ∀ name,
      ((empty debug).extend commands).1.get? name = Command.last? name commands := by
    intro name
    rw [get?_extend]
    exact Option.or_none
  have hsorted : Dictionary.Sorted ((empty debug).extend commands).1.table :=
    extend_sorted (show Dictionary.Sorted (empty (m := m) debug).table from List.Pairwise.nil)
      commands
  refine ⟨hget, fun name => ?_, hsorted.keys.imp fun h => (Text.lt_iff_octets_lt _ _).mp h⟩
  rw [names, Dictionary.mem_keys_iff]
  change (((empty debug).extend commands).1.get? name).isSome = true ↔ _
  rw [hget, Command.last?, List.find?_isSome]
  simp

end Registry

/-! ## The active extensions -/

namespace Config

theorem activeExtensions_ascending {config : Config} (h : Dictionary.Sorted config.extensions) :
    config.activeExtensions.Pairwise fun a b => Text.octets a < Text.octets b := by
  refine List.pairwise_map.mpr ((h.filter _).imp ?_)
  exact fun hlt => (Text.lt_iff_octets_lt _ _).mp hlt

theorem mem_activeExtensions {config : Config} {name : String} :
    name ∈ config.activeExtensions ↔ (name, true) ∈ config.extensions := by
  simp [Config.activeExtensions]

/-- The extensions of a configuration that is read come in the order of their names. -/
theorem ofDocument?_sorted {d : Yaml.Document} {config : Config} (h : ofDocument? d = some config) :
    Dictionary.Sorted config.extensions := by
  unfold ofDocument? at h
  split at h
  · cases h
    exact List.Pairwise.nil
  · simp only [Option.bind_eq_bind, Option.bind_eq_some_iff, Option.some.injEq] at h
    obtain ⟨_, _, _, _, _, _, extensions, hextensions, rfl⟩ := h
    unfold only at hextensions
    split at hextensions
    · cases hextensions
      exact List.Pairwise.nil
    · simp only [extensionsOf?, Option.bind_eq_bind, Option.bind_eq_some_iff,
        Option.some.injEq] at hextensions
      obtain ⟨-, -, -, -, rfl⟩ := hextensions
      exact Dictionary.ofList_sorted _
    · cases hextensions

theorem parse_sorted {text : String} {config : Config} (h : parse text = .ok config) :
    Dictionary.Sorted config.extensions := by
  unfold parse at h
  split at h
  · cases h
    exact List.Pairwise.nil
  · split at h
    next hread =>
      cases h
      obtain ⟨_, -, hdocument⟩ := Option.bind_eq_some_iff.mp hread
      exact ofDocument?_sorted hdocument
    next => cases h

end Config

/-! ## Touches -/

/-- Something that is done to an extension, with its outcome. -/
inductive Touch (m : Type → Type) where
  /-- The extension got ready, or failed to. -/
  | activated (name : String) (outcome : Except String Unit)
  /-- The extension was asked for its commands. -/
  | asked (name : String) (outcome : Except String (List (Command m)))

/-- What was done to extensions so far, the first thing first. -/
abbrev Touches (m : Type → Type) : Type := List (Touch m)

/-- What is done to an extension that gives its commands. -/
def handled (contribution : String × List (Command m)) : Touches m :=
  [.activated contribution.1 (.ok ()), .asked contribution.1 (.ok contribution.2)]

/-! ## Writing touches down -/

section

variable [Monad m]

/-- The same command, beside a further state. -/
def Command.lifted (τ : Type) (command : Command m) : Command (StateT τ m) where
  name := command.name
  description := command.description
  run args := ExceptT.mk (StateT.lift (command.run args).run)

def Registry.lifted (τ : Type) (registry : Registry m) : Registry (StateT τ m) where
  table := registry.table.map fun entry => (entry.1, entry.2.lifted τ)
  debug := registry.debug

/-- An extension to which nothing is done without being written down. -/
def Extension.noted (extension : Extension m) : Extension (StateT (Touches m) m) where
  name := extension.name
  activate := ExceptT.mk do
    let outcome ← extension.activate.run
    modify (· ++ [.activated extension.name outcome])
    return outcome
  commands := ExceptT.mk do
    let outcome ← extension.commands.run
    modify (· ++ [.asked extension.name outcome])
    return outcome.map (List.map (Command.lifted _))

/-- The same environment, with everything written down that is done to its extensions. -/
def Environment.noted (env : Environment m) : Environment (StateT (Touches m) m) where
  defaults := env.defaults.map (Command.lifted _)
  extensions := env.extensions.map Extension.noted

end

/-! ### Tables beside a further state -/

namespace Dictionary

theorem map_insert {α β : Type} (f : α → β) (key : String) (value : α)
    (entries : List (String × α)) :
    (insert key value entries).map (fun e => (e.1, f e.2))
      = insert key (f value) (entries.map fun e => (e.1, f e.2)) := by
  induction entries with
  | nil => rfl
  | cons head rest ih =>
      obtain ⟨k, v⟩ := head
      simp only [insert, List.map_cons]
      split
      · rfl
      · split
        · rfl
        · rw [List.map_cons, ih]

theorem find?_map {α β : Type} (f : α → β) (key : String) (entries : List (String × α)) :
    find? key (entries.map fun e => (e.1, f e.2)) = (find? key entries).map f := by
  induction entries with
  | nil => rfl
  | cons head rest ih =>
      obtain ⟨k, v⟩ := head
      simp only [List.map_cons, find?, ih]
      split <;> rfl

end Dictionary

namespace Registry

variable [Monad m] (τ : Type)

theorem lifted_register (registry : Registry m) (command : Command m) :
    (registry.lifted τ).register (command.lifted τ) = (registry.register command).lifted τ := by
  simp only [lifted, register, Dictionary.map_insert (Command.lifted τ)]
  rfl

theorem registerLog_lifted (registry : Registry m) (command : Command m) :
    (registry.lifted τ).registerLog (command.lifted τ) = registry.registerLog command := by
  have hget : (registry.lifted τ).get? (command.lifted τ).name
      = (registry.get? command.name).map (Command.lifted τ) :=
    Dictionary.find?_map (Command.lifted τ) command.name registry.table
  rw [registerLog, registerLog, hget, Option.isSome_map]
  rfl

/-- A table beside a further state takes commands as it does alone. -/
theorem lifted_extend (registry : Registry m) (commands : List (Command m)) :
    (registry.lifted τ).extend (commands.map (Command.lifted τ)) =
      ((registry.extend commands).1.lifted τ, (registry.extend commands).2) := by
  induction commands generalizing registry with
  | nil => rfl
  | cons command rest ih =>
      rw [List.map_cons, extend, lifted_register, ih, registerLog_lifted]
      rfl

end Registry

/-! ## A composition, step by step -/

namespace Environment

section

theorem name_of_extension? {env : Environment m} {name : String} {extension : Extension m}
    (h : env.extension? name = some extension) : extension.name = name := by
  have hname := List.find?_some h
  simpa using hname

theorem extension?_eq_none_iff {env : Environment m} {name : String} :
    env.extension? name = none ↔ name ∉ env.extensions.map Extension.name := by
  simp [extension?, List.find?_eq_none]

variable [Monad m]

theorem extension?_noted (env : Environment m) (name : String) :
    env.noted.extension? name = (env.extension? name).map Extension.noted := by
  unfold extension? noted
  rw [← List.map_reverse, List.find?_map]
  rfl

variable {env : Environment m}

def contributedLog (log : Log) (registry : Registry m) (name : String)
    (commands : List (Command m)) : Log :=
  log ++ [⟨.info, activationMessage name commands⟩] ++ (registry.extend commands).2

/-- The log says the same of commands beside a further state. -/
theorem contributedLog_lifted (τ : Type) (log : Log) (registry : Registry m) (name : String)
    (commands : List (Command m)) :
    contributedLog log (registry.lifted τ) name (commands.map (Command.lifted τ))
      = contributedLog log registry name commands := by
  have hmessage : activationMessage name (commands.map (Command.lifted τ))
      = activationMessage name commands := by
    unfold activationMessage
    rw [List.length_map]
  unfold contributedLog
  rw [Registry.lifted_extend, hmessage]

theorem runIn_activateAll_missing {name : String} (h : env.extension? name = none)
    (registry : Registry m) (rest : List String) (log : Log) :
    runIn (activateAll env registry (name :: rest)) log
      = pure (.error (.config s!"Context extension declared but not found: {name}"), log) := by
  rw [activateAll, h]
  rfl

variable [LawfulMonad m]

theorem runIn_attempt {α : Type} (name : String) (action : ExceptT String m α) (log : Log) :
    runIn (attempt name action) log
      = (fun outcome => (outcome.mapError (Error.extension name), log)) <$> action.run := by
  have hadapt : (attempt name action).run
      = Except.mapError (Error.extension name) <$> StateT.lift action.run := rfl
  rw [runIn, hadapt, StateT.run_map, StateT.run_lift, map_bind]
  simp only [map_pure, bind_pure_comp]

theorem runIn_extend (registry : Registry m) (commands : List (Command m)) (log : Log) :
    runIn (extend registry commands) log
      = pure (.ok (registry.extend commands).1, log ++ (registry.extend commands).2) := by
  simp only [extend, runIn_bind, runIn_modify, runIn_pure, pure_bind]

/-- An extension that is there is activated, then asked for its commands, and then it is the turn
of the others. -/
theorem runIn_activateAll {name : String} {extension : Extension m}
    (h : env.extension? name = some extension) (registry : Registry m) (rest : List String)
    (log : Log) :
    runIn (activateAll env registry (name :: rest)) log =
      extension.activate.run >>= fun activation =>
        match activation with
        | .error failure => pure (.error (.extension name failure), log)
        | .ok _ => extension.commands.run >>= fun contribution =>
            match contribution with
            | .error failure => pure (.error (.extension name failure), log)
            | .ok commands =>
                runIn (activateAll env (registry.extend commands).1 rest)
                  (contributedLog log registry name commands) := by
  rw [activateAll, h]
  simp only [runIn_bind, runIn_attempt, bind_map_left]
  refine bind_congr fun activation => ?_
  cases activation with
  | error failure => rfl
  | ok _ =>
      simp only [Except.mapError]
      refine bind_congr fun contribution => ?_
      cases contribution with
      | error failure => rfl
      | ok commands =>
          simp only [runIn_modify, runIn_extend, pure_bind]
          rfl

end

/-! ## Courses of compositions -/

/-- How the composition ends at an extension: with what is done to it, and with an error that names
it. -/
inductive Fails (env : Environment m) (name : String) : Touches m → Error → Prop
  | unavailable : name ∉ env.extensions.map Extension.name →
      Fails env name [] (.config s!"Context extension declared but not found: {name}")
  | notActivated (failure : String) : name ∈ env.extensions.map Extension.name →
      Fails env name [.activated name (.error failure)] (.extension name failure)
  | noCommands (failure : String) : name ∈ env.extensions.map Extension.name →
      Fails env name [.activated name (.ok ()), .asked name (.error failure)]
        (.extension name failure)

/-- What was done to the extensions of the given names accounts for the outcome. After a registry,
all of them were handled, one after the other, and their commands were added; after an error, those
in front of the one that fails were. -/
def AccountsFor (env : Environment m) (registry : Registry m) (names : List String)
    (touches : Touches m) : Except Error (Registry m) → Prop
  | .ok result => ∃ contributions : List (String × List (Command m)),
      names = contributions.map Prod.fst ∧ touches = contributions.flatMap handled ∧
        result = (registry.extend (contributions.flatMap Prod.snd)).1
  | .error e => ∃ (contributions : List (String × List (Command m))) (name : String)
      (rest : List String) (last : Touches m),
      names = contributions.map Prod.fst ++ name :: rest ∧
        touches = contributions.flatMap handled ++ last ∧ env.Fails name last e

namespace AccountsFor

variable {env : Environment m} {registry : Registry m} {name : String} {names : List String}
  {touches : Touches m} {outcome : Except Error (Registry m)}

theorem fails {e : Error} (h : env.Fails name touches e) :
    env.AccountsFor registry (name :: names) touches (.error e) :=
  ⟨[], name, names, touches, rfl, rfl, h⟩

/-- An extension that gives its commands comes in front of the others. -/
theorem cons {commands : List (Command m)}
    (h : env.AccountsFor (registry.extend commands).1 names touches outcome) :
    env.AccountsFor registry (name :: names) (handled (name, commands) ++ touches) outcome := by
  cases outcome with
  | ok result =>
      obtain ⟨contributions, rfl, rfl, rfl⟩ := h
      refine ⟨(name, commands) :: contributions, rfl, rfl, ?_⟩
      rw [List.flatMap_cons, Registry.extend_append]
  | error e =>
      obtain ⟨contributions, failing, rest, last, rfl, rfl, hfails⟩ := h
      exact ⟨(name, commands) :: contributions, failing, rest, last, rfl,
        by rw [List.flatMap_cons, List.append_assoc], hfails⟩

end AccountsFor

section

variable {α β τ : Type} {world world' : σ}

theorem run_bind_eq {x : StateM σ α} {a : α} (h : x.run world = (a, world')) (f : α → StateM σ β) :
    (x >>= f).run world = (f a).run world' := by
  rw [StateT.run_bind, h]
  rfl

theorem run_run_bind_eq {x : StateT τ (StateM σ) α} {a : α} {s s' : τ}
    (h : (x.run s).run world = ((a, s'), world')) (f : α → StateT τ (StateM σ) β) :
    ((x >>= f).run s).run world = ((f a).run s').run world' := by
  rw [StateT.run_bind, run_bind_eq h]

end

/-- An activation is what it is without being written down. -/
theorem run_noted_activate {extension : Extension (StateM σ)} {world world' : σ}
    {outcome : Except String Unit} (h : extension.activate.run.run world = (outcome, world'))
    (earlier : Touches (StateM σ)) :
    (extension.noted.activate.run.run earlier).run world
      = ((outcome, earlier ++ [.activated extension.name outcome]), world') := by
  show (match extension.activate.run.run world with
    | (outcome, world') =>
        ((outcome, earlier ++ [Touch.activated extension.name outcome]), world')) = _
  rw [h]

/-- The commands are what they are without being written down. -/
theorem run_noted_commands {extension : Extension (StateM σ)} {world world' : σ}
    {outcome : Except String (List (Command (StateM σ)))}
    (h : extension.commands.run.run world = (outcome, world')) (earlier : Touches (StateM σ)) :
    (extension.noted.commands.run.run earlier).run world
      = ((outcome.map (List.map (Command.lifted _)),
          earlier ++ [.asked extension.name outcome]), world') := by
  show (match extension.commands.run.run world with
    | (outcome, world') => ((outcome.map (List.map (Command.lifted _)),
        earlier ++ [Touch.asked extension.name outcome]), world')) = _
  rw [h]

/-- **Writing touches down changes nothing**, and what is written accounts for the outcome. -/
theorem activateAll_noted (env : Environment (StateM σ)) (registry : Registry (StateM σ))
    (names : List String) (log : Log) (earlier : Touches (StateM σ)) (world : σ) :
    ∃ outcome log' touches world',
      (runIn (activateAll env registry names) log).run world = ((outcome, log'), world') ∧
      ((runIn (activateAll env.noted (registry.lifted _) names) log).run earlier).run world
        = (((outcome.map (Registry.lifted _), log'), earlier ++ touches), world') ∧
      env.AccountsFor registry names touches outcome := by
  induction names generalizing registry log earlier world with
  | nil =>
      refine ⟨.ok registry, log, [], world, rfl, ?_, [], rfl, rfl, rfl⟩
      rw [List.append_nil]
      rfl
  | cons name rest ih =>
      cases hextension : env.extension? name with
      | none =>
          have hnoted : env.noted.extension? name = none := by
            rw [extension?_noted, hextension]
            rfl
          have habsent := extension?_eq_none_iff.mp hextension
          refine ⟨_, log, [], world, ?_, ?_, .fails (.unavailable habsent)⟩
          · rw [runIn_activateAll_missing hextension]
            rfl
          · rw [runIn_activateAll_missing hnoted, List.append_nil]
            rfl
      | some extension =>
          have hthere : name ∈ env.extensions.map Extension.name := by
            by_contra habsent
            rw [extension?_eq_none_iff.mpr habsent] at hextension
            cases hextension
          obtain rfl := name_of_extension? hextension
          have hnoted : env.noted.extension? extension.name = some extension.noted := by
            rw [extension?_noted, hextension]
            rfl
          rcases hactivate : extension.activate.run.run world with ⟨activation, world₁⟩
          have hactivate' := run_noted_activate hactivate earlier
          rw [runIn_activateAll hextension, runIn_activateAll hnoted, run_bind_eq hactivate,
            run_run_bind_eq hactivate']
          cases activation with
          | error failure =>
              exact ⟨_, log, _, world₁, rfl, rfl, .fails (.notActivated failure hthere)⟩
          | ok _ =>
              rcases hcommands : extension.commands.run.run world₁ with ⟨contribution, world₂⟩
              have hcommands' := run_noted_commands hcommands
                (earlier ++ [.activated extension.name (.ok ())])
              dsimp only
              rw [run_bind_eq hcommands, run_run_bind_eq hcommands']
              cases contribution with
              | error failure =>
                  refine ⟨_, log, _, world₂, rfl, ?_, .fails (.noCommands failure hthere)⟩
                  rw [List.append_assoc]
                  rfl
              | ok commands =>
                  obtain ⟨outcome, log', touches, world', hrun, hnotedRun, haccount⟩ :=
                    ih (registry.extend commands).1
                      (contributedLog log registry extension.name commands)
                      (earlier ++ handled (extension.name, commands)) world₂
                  refine ⟨outcome, log', _, world', hrun, ?_, haccount.cons⟩
                  rw [← List.append_assoc]
                  refine Eq.trans ?_ hnotedRun
                  show ((runIn (activateAll env.noted ((registry.lifted _).extend
                      (commands.map (Command.lifted _))).1 rest) (contributedLog log
                        (registry.lifted _) extension.name (commands.map
                          (Command.lifted _)))).run _).run world₂ = _
                  rw [contributedLog_lifted, Registry.lifted_extend, List.append_assoc]
                  rfl

/-! ## Compositions -/

/-- How a composition for a configuration ends, by what was done to extensions. Either every active
extension was handled, in their order, and the registry holds the defaults and the commands that
the extensions gave; or the first ones were and the next one failed. -/
def Composes (env : Environment m) (config : Config) (touches : Touches m) :
    Except Error (Registry m) → Prop
  | .ok registry => ∃ contributions : List (String × List (Command m)),
      config.activeExtensions = contributions.map Prod.fst ∧
        touches = contributions.flatMap handled ∧
        registry.Holds (env.defaults ++ contributions.flatMap Prod.snd) ∧
        registry.debug = config.debug
  | .error e => ∃ (contributions : List (String × List (Command m))) (name : String)
      (rest : List String) (last : Touches m),
      config.activeExtensions = contributions.map Prod.fst ++ name :: rest ∧
        touches = contributions.flatMap handled ++ last ∧ env.Fails name last e

theorem AccountsFor.composes {env : Environment m} {config : Config} {touches : Touches m}
    {outcome : Except Error (Registry m)}
    (h : env.AccountsFor ((Registry.empty config.debug).extend env.defaults).1
      config.activeExtensions touches outcome) : env.Composes config touches outcome := by
  cases outcome with
  | ok registry =>
      obtain ⟨contributions, hnames, htouches, rfl⟩ := h
      rw [← Registry.extend_append]
      exact ⟨contributions, hnames, htouches, Registry.empty_extend_holds _ _,
        Registry.extend_debug _ _⟩
  | error e => exact h

/-- **Composition.** The active extensions are handled in the order of the octets of their names;
each of them is activated and then asked for its commands, and the first one that is not there or
fails ends the composition with an error that names it. If none does, then the registry holds the
defaults and what the extensions gave. -/
theorem build_composes (env : Environment (StateM σ)) (config : Config)
    (h : Dictionary.Sorted config.extensions) (world : σ) :
    config.activeExtensions.Pairwise (fun a b => Text.octets a < Text.octets b) ∧
    (∀ name, name ∈ config.activeExtensions ↔ (name, true) ∈ config.extensions) ∧
    ∃ outcome log touches world',
      (runIn (env.build config) []).run world = ((outcome, log), world') ∧
      ((runIn (env.noted.build config) []).run []).run world
        = (((outcome.map (Registry.lifted _), log), touches), world') ∧
      env.Composes config touches outcome := by
  refine ⟨Config.activeExtensions_ascending h, fun _ => Config.mem_activeExtensions, ?_⟩
  obtain ⟨outcome, log, touches, world', hrun, hnoted, haccount⟩ :=
    activateAll_noted env ((Registry.empty config.debug).extend env.defaults).1
      config.activeExtensions ((Registry.empty config.debug).extend env.defaults).2 [] world
  refine ⟨outcome, log, touches, world', ?_, ?_, haccount.composes⟩
  · rw [build, runIn_bind, runIn_extend, pure_bind]
    exact hrun
  · have hlifted := Registry.lifted_extend (Touches (StateM σ)) (Registry.empty config.debug)
      env.defaults
    rw [build, runIn_bind, runIn_extend, pure_bind]
    show ((runIn (activateAll env.noted (((Registry.empty config.debug).lifted _).extend
      (env.defaults.map (Command.lifted _))).1 config.activeExtensions) (((Registry.empty
        config.debug).lifted _).extend (env.defaults.map (Command.lifted _))).2).run []).run world = _
    rw [hlifted]
    exact hnoted

/-- A default `x`, an extension that replaces it, and two that fail if they are ever active. -/
def sampleEnvironment : Environment (StateM Nat) where
  defaults := [⟨"x", "", fun _ => pure (.number (.ofNat 0))⟩]
  extensions :=
    [⟨"a", ExceptT.mk fun n => (.ok (), n + 1), pure [⟨"x", "", fun _ => throw "a"⟩]⟩,
      ⟨"b", throw "off", throw "off"⟩]

/-- The extension `a` is active, `b` is not. -/
def sampleConfig : Config := ⟨true, [("a", true), ("b", false)]⟩

theorem sample_composes : Dictionary.Sorted sampleConfig.extensions ∧
    ∃ (registry : Registry (StateM Nat)) (log : Log)
      (contributions : List (String × List (Command (StateM Nat)))),
      (runIn (sampleEnvironment.build sampleConfig) []).run 0 = ((.ok registry, log), 1) ∧
      ["a"] = contributions.map Prod.fst ∧
      registry.Holds (sampleEnvironment.defaults ++ contributions.flatMap Prod.snd) := by
  have hsorted : Dictionary.Sorted sampleConfig.extensions := by
    unfold Dictionary.Sorted
    decide
  obtain ⟨-, -, outcome, log, touches, world', hrun, -, hcomposes⟩ :=
    build_composes sampleEnvironment sampleConfig hsorted 0
  cases outcome with
  | ok registry =>
      obtain ⟨contributions, hactive, -, hholds, -⟩ := hcomposes
      have hworld : ((runIn (sampleEnvironment.build sampleConfig) []).run 0).2 = 1 := rfl
      rw [hrun] at hworld
      cases hworld
      exact ⟨hsorted, registry, log, contributions, hrun, hactive, hholds⟩
  | error e => cases congrArg (fun result => result.1.1.toBool) hrun

end Environment

end WhenClause
