import DeclarativeMdp.Clingo.Solver
import DeclarativeMdp.Scripting.Member

set_option autoImplicit false

namespace DeclarativeMdp.Scripting

def describeRecord (record : Record) : String :=
  "EpisodeRecord(id=" ++ toString record.episode ++ ", steps=" ++ toString record.steps ++
    ", return=" ++ Decimal.writeFixed 2 record.behaviorReturn ++ ", optimal=" ++
    showReturn record.optimalReturn ++ ")"

def settle {σ α : Type} (value : α → Value) (outcome : Outcome σ α) : Except Failure Value × σ :=
  (lift (outcome.result.map value), outcome.next)

namespace EngineObject

variable {ρ : Type}

abbrev ClingoEngine (ρ : Type) := Engine (Clingo ρ)

def describe (engine : ClingoEngine ρ) : String :=
  "MarkovDecisionProcess(domain=" ++ engine.programs.domainName ++ ", state=" ++
    engine.state.render ++ ", steps=" ++ toString engine.trajectory.stepCount ++ ")"

variable [Clingo.Launcher ρ]

def transition : List Value → ClingoEngine ρ → Except Failure Value × ClingoEngine ρ
  | [action], engine =>
    match action.string with
    | .ok text => settle .float (engine.transition (.ofText text))
    | .error failure => (.error failure, engine)
  | _, engine => (.error .wrongType, engine)

def optimalReturn : List Value → ClingoEngine ρ → Except Failure Value × ClingoEngine ρ
  | [horizon], engine =>
    match horizon.optional (·.natural 32) with
    | .ok horizon => settle .float (engine.optimalReturn (horizon.map UInt32.ofNat))
    | .error failure => (.error failure, engine)
  | _, engine => (.error .wrongType, engine)

def episodeParameters : List Parameter := [
  ⟨"seed", some (.int 42)⟩, ⟨"max_episode_length", some (.int 100)⟩,
  ⟨"episode_id", some (.int 0)⟩, ⟨"plan_optimal_return", some (.bool true)⟩]

structure EpisodeOrder where
  seed : UInt64
  episode : UInt64
  config : EpisodeConfig

def episodeOrder : List Value → Except Failure EpisodeOrder
  | [seed, maxLength, episode, plan] => do
    let seed ← seed.natural 64
    let maxLength ← maxLength.natural 64
    let episode ← episode.natural 64
    let plan ← plan.flag
    return ⟨UInt64.ofNat seed, UInt64.ofNat episode, ⟨maxLength, plan, none⟩⟩
  | _ => .error .wrongType

def runRandomEpisode (values : List Value) (engine : ClingoEngine ρ) :
    Except Failure Value × ClingoEngine ρ :=
  match episodeOrder values with
  | .ok order =>
    let outcome :=
      Episode.run order.config engine (UniformRandom.ofSeed order.seed) order.episode
    (lift (outcome.result.map .record), outcome.next.1)
  | .error failure => (.error failure, engine)

def member? : String → Option (Member (ClingoEngine ρ))
  | "state" => some (.field fun engine => .ofState engine.state)
  | "goal_state" => some (.field fun engine => .ofState engine.goal)
  | "discount_rate" => some (.field fun engine => .float engine.config.discountRate)
  | "state_history" =>
    some (.field fun engine => .list (engine.trajectory.states.map .ofState))
  | "action_history" => some (.field fun engine => .ofActions engine.trajectory.actions)
  | "reward_history" => some (.field fun engine => .ofRewards engine.trajectory)
  | "repr" => some (.field fun engine => .text (describe engine))
  | "len" => some (.part fun _ => .error .wrongType)
  | "available_actions" =>
    some (.query fun engine => .ok (.ofActions engine.available.toList))
  | "return_history" =>
    some (.query fun engine => do return .ofFloats (← lift engine.returnHistory))
  | "is_goal_reached" => some (.query fun engine => .ok (.bool (decide engine.GoalReached)))
  | "is_terminal" => some (.query fun engine => .ok (.bool engine.isTerminal))
  | "trajectory" => some (.query fun engine => .ok (.trajectory engine.trajectory))
  | "transition" => some (.method [⟨"action", none⟩] transition)
  | "compute_optimal_return" =>
    some (.method [⟨"max_planning_horizon", some .none⟩] optimalReturn)
  | "run_random_episode" => some (.method episodeParameters runRandomEpisode)
  | _ => none

def parameters : List Parameter := [
  ⟨"initial_state", none⟩, ⟨"goal_state", none⟩, ⟨"discount_rate", some (.float 1.0)⟩,
  ⟨"asp_file_name", some (.text "blocksworld.lp")⟩, ⟨"program_dir", some .none⟩,
  ⟨"clingo", some (.text "clingo")⟩, ⟨"time_limit_secs", some .none⟩,
  ⟨"check_action_legality", some (.bool true)⟩]

structure Order where
  initial : State
  goal : State
  discountRate : Float
  domainFile : Path
  directory : Option Path
  clingo : Path
  timeLimit : Option Float
  checkLegality : Bool

def order : List Value → Except Failure Order
  | [initial, goal, discountRate, domainFile, directory, clingo, timeLimit, checkLegality] => do
    let initial ← initial.strings
    let goal ← goal.strings
    let discountRate ← discountRate.real
    let domainFile ← domainFile.filePath
    let directory ← directory.optional Value.filePath
    let clingo ← clingo.filePath
    let timeLimit ← timeLimit.optional Value.real
    let checkLegality ← checkLegality.flag
    return ⟨.ofTexts initial, .ofTexts goal, discountRate, domainFile, directory, clingo,
      timeLimit, checkLegality⟩
  | _ => .error .wrongType

def programs (system : FileSystem) (order : Order) : Except Error ProgramSet :=
  match order.directory with
  | some directory => ProgramSet.inDirectory system directory order.domainFile
  | none => ProgramSet.bundled system order.domainFile

def settings (order : Order) : Except Error Clingo.Settings :=
  let settings := { Clingo.Settings.standard with executable := order.clingo }
  match order.timeLimit with
  | some seconds => settings.withTimeLimit seconds
  | none => .ok settings

def build (system : FileSystem) (launcher : ρ) (order : Order) : Outcome ρ (ClingoEngine ρ) :=
  let ready := do return (← programs system order, ← settings order)
  match ready with
  | .error error => ⟨.error error, [], launcher⟩
  | .ok (programs, settings) =>
    let config := { Config.standard with
      discountRate := order.discountRate
      checkLegality := order.checkLegality }
    let created := Engine.create order.initial order.goal programs ⟨settings, launcher⟩ config
    ⟨created.result, created.events, created.next.launcher⟩

def create (system : FileSystem) (launcher : ρ) (arguments : Arguments) :
    Except Failure (ClingoEngine ρ) × ρ :=
  match arguments.bind parameters >>= order with
  | .error failure => (.error failure, launcher)
  | .ok order =>
    let built := build system launcher order
    (lift built.result, built.next)

end EngineObject

end DeclarativeMdp.Scripting
