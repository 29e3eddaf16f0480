import DeclarativeMdp.Engine.Basic
import DeclarativeMdp.Episode.Policy

set_option autoImplicit false

namespace DeclarativeMdp

structure EpisodeConfig where
  maxLength : Nat
  plan : Bool
  planningHorizon : Option UInt32
  deriving DecidableEq, Repr

def EpisodeConfig.standard : EpisodeConfig := ⟨100, true, none⟩

structure Record where
  episode : UInt64
  steps : Nat
  behaviorReturn : Float
  totalReward : Float
  optimalReturn : Option Float
  reachedGoal : Bool
  deriving DecidableEq, Repr

def Record.returnGap (record : Record) : Option Float :=
  record.optimalReturn.map (· - record.totalReward)

namespace Episode

variable {σ π : Type} [Solver σ] [Policy π]

def play : (limit : Nat) → Engine σ → π → Outcome (Engine σ × π) Nat
  | 0, engine, policy => ⟨.ok 0, [], engine, policy⟩
  | limit + 1, engine, policy =>
    if engine.isTerminal then ⟨.ok 0, [], engine, policy⟩
    else
      match Policy.select engine.state engine.available policy with
      | (none, policy) => ⟨.ok 0, [], engine, policy⟩
      | (some action, policy) =>
        let moved := engine.transition action
        match moved.result with
        | .error error => ⟨.error error, moved.events, moved.next, policy⟩
        | .ok _ =>
          let rest := play limit moved.next policy
          ⟨rest.result.map (· + 1), moved.events ++ rest.events, rest.next⟩

def planned (config : EpisodeConfig) (engine : Engine σ) :
    Outcome (Engine σ) (Option Float) :=
  if config.plan then
    let outcome := engine.optimalReturn config.planningHorizon
    ⟨outcome.result.map some, outcome.events, outcome.next⟩
  else ⟨.ok none, [], engine⟩

def summary (engine : Engine σ) (episode : UInt64) (steps : Nat) (optimalReturn : Option Float) :
    Except Error Record := do
  return {
    episode := episode
    steps := steps
    behaviorReturn := ← engine.trajectory.discountedReturn engine.config.discountRate
    totalReward := engine.trajectory.totalReward
    optimalReturn := optimalReturn
    reachedGoal := decide engine.GoalReached }

def finished (record : Record) : Event :=
  .episodeFinished record.episode record.steps record.behaviorReturn record.optimalReturn
    record.reachedGoal

def run (config : EpisodeConfig) (engine : Engine σ) (policy : π) (episode : UInt64) :
    Outcome (Engine σ × π) Record :=
  let policy := Policy.beginEpisode episode policy
  let plan := planned config engine
  match plan.result with
  | .error error => ⟨.error error, plan.events, plan.next, policy⟩
  | .ok optimalReturn =>
    let played := play config.maxLength plan.next policy
    let events := plan.events ++ played.events
    match played.result with
    | .error error => ⟨.error error, events, played.next⟩
    | .ok steps =>
      let (engine, policy) := played.next
      let policy := Policy.observe engine.trajectory engine.config.discountRate policy
      match summary engine episode steps optimalReturn with
      | .error error => ⟨.error error, events, engine, policy⟩
      | .ok record => ⟨.ok record, events ++ [finished record], engine, policy⟩

end Episode

end DeclarativeMdp
