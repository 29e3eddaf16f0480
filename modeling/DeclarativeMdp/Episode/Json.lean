import DeclarativeMdp.Episode.Log
import DeclarativeMdp.Json.Decode
import DeclarativeMdp.Json.Writer

set_option autoImplicit false

namespace DeclarativeMdp

open Json

namespace EpisodeConfig

def toJson (config : EpisodeConfig) : String :=
  writeObject [
    ("max_episode_length", toString config.maxLength),
    ("plan_optimal_return", writeBool config.plan),
    ("planning_horizon", writeOption toString config.planningHorizon)]

def ofJson? (value : Json) : Option EpisodeConfig := do
  match ← value.record? ["max_episode_length", "plan_optimal_return", "planning_horizon"] with
  | [maxLength, plan, horizon] =>
    some ⟨← maxLength.below? UInt64.size, ← plan.bool?, ← option? uint32? horizon⟩
  | _ => none

end EpisodeConfig

namespace Record

def toJson (record : Record) : String :=
  writeObject [
    ("episode_id", toString record.episode),
    ("steps", toString record.steps),
    ("behavior_policy_return", writeFloat record.behaviorReturn),
    ("behavior_policy_total_reward", writeFloat record.totalReward),
    ("optimal_return", writeOption writeFloat record.optimalReturn),
    ("reached_goal", writeBool record.reachedGoal)]

def ofJson? (value : Json) : Option Record := do
  match ← value.record? ["episode_id", "steps", "behavior_policy_return",
    "behavior_policy_total_reward", "optimal_return", "reached_goal"] with
  | [episode, steps, behaviorReturn, totalReward, optimalReturn, reachedGoal] =>
    some ⟨← episode.uint64?, ← steps.below? UInt64.size, ← behaviorReturn.float?,
      ← totalReward.float?, ← option? float? optimalReturn, ← reachedGoal.bool?⟩
  | _ => none

end Record

namespace Log

def toJson (log : Log) : String :=
  writeObject [("records", writeArray (log.records.map Record.toJson))]

def ofJson? (value : Json) : Option Log := do
  match ← value.record? ["records"] with
  | [records] => (records.list? Record.ofJson?).map Log.mk
  | _ => none

end Log

end DeclarativeMdp
