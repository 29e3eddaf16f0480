import DeclarativeMdp.Episode.Basic

set_option autoImplicit false

namespace DeclarativeMdp

structure Log where
  records : List Record
  deriving DecidableEq, Repr

namespace Log

def runningSums (sum : Float) : List Float → List Float
  | [] => []
  | value :: values => (sum + value) :: runningSums (sum + value) values

def cumulativeBehavior (log : Log) : List Float :=
  runningSums 0.0 (log.records.map (·.behaviorReturn))

def cumulativeOptimal (log : Log) : List Float :=
  runningSums 0.0 (log.records.map (·.optimalReturn.getD 0.0))

def successRate (log : Log) : Float :=
  if log.records.isEmpty then 0.0
  else
    Float.ofNat (log.records.filter (·.reachedGoal)).length / Float.ofNat log.records.length

end Log

structure Series (π : Type) where
  policy : π
  made : List UInt64

namespace Episode

variable {σ π : Type} [Solver σ] [Policy π]

def runFrom (config : EpisodeConfig) (make : UInt64 → Outcome σ (Engine σ)) (policy : π) :
    (count : Nat) → (first : UInt64) → Outcome (Series π) (List Record)
  | 0, _ => ⟨.ok [], [], policy, []⟩
  | count + 1, first =>
    let made := make first
    match made.result with
    | .error error => ⟨.error error, made.events, policy, [first]⟩
    | .ok engine =>
      let outcome := run config engine policy first
      let events := made.events ++ outcome.events
      match outcome.result with
      | .error error => ⟨.error error, events, outcome.next.2, [first]⟩
      | .ok record =>
        let rest := runFrom config make outcome.next.2 count (first + 1)
        ⟨rest.result.map (record :: ·), events ++ rest.events, rest.next.policy,
          first :: rest.next.made⟩

def runAll (config : EpisodeConfig) (make : UInt64 → Outcome σ (Engine σ)) (policy : π)
    (count : UInt64) : Outcome (Series π) Log :=
  let outcome := runFrom config make policy count.toNat 0
  ⟨outcome.result.map Log.mk, outcome.events, outcome.next⟩

end Episode

end DeclarativeMdp
