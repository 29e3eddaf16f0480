import DeclarativeMdp.Scripting.Member
import DeclarativeMdp.Trajectory.Snapshot

set_option autoImplicit false

namespace DeclarativeMdp.Scripting

namespace TrajectoryObject

def describe (run : Trajectory) : String :=
  "Trajectory(length=" ++ toString run.length ++ ", steps=" ++ toString run.stepCount ++
    ", total_reward=" ++ Decimal.Layout.message.write run.totalReward ++ ")"

def returnHistory : List Value → Trajectory → Except Failure Value × Trajectory
  | [discount], run =>
    (do return .ofFloats (← lift (run.returnHistory (← discount.real))), run)
  | _, run => (.error .wrongType, run)

def member? : String → Option (Member Trajectory)
  | "states" => some (.field fun run => .list (run.states.map .ofState))
  | "actions" => some (.field fun run => .ofActions run.actions)
  | "rewards" => some (.field .ofRewards)
  | "repr" => some (.field fun run => .text (describe run))
  | "len" => some (.field fun run => .int run.length)
  | "return_history" => some (.method [⟨"discount_rate", none⟩] returnHistory)
  | "total_reward" => some (.query fun run => .ok (.float run.totalReward))
  | "to_bytes" => some (.query fun run => .ok (.bytes run.toBytes))
  | _ => none

def create (arguments : Arguments) : Except Failure Trajectory := do
  match ← arguments.bind [⟨"bytes", none⟩] with
  | [snapshot] => lift (Trajectory.ofBytes (← snapshot.raw))
  | _ => .error .wrongType

end TrajectoryObject

end DeclarativeMdp.Scripting
