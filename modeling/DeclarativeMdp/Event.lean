import DeclarativeMdp.Error
import DeclarativeMdp.Request

set_option autoImplicit false

namespace DeclarativeMdp

inductive Event where
  | spawning (executable : Path) (horizon : UInt32) (mode : Mode)
  | interrupted (result : String) (exitCode : Int)
  | finished (result : String) (models : Nat)
  | answered (query : Query) (horizon : Option UInt32) (models : Nat)
  | transition (action : Action) (reward : Float) (facts : Nat)
  | episodeFinished (episode : UInt64) (steps : Nat) (behaviorReturn : Float)
      (optimalReturn : Option Float) (reachedGoal : Bool)
  deriving DecidableEq, Repr

def showReturn : Option Float → String
  | none => "None"
  | some value => "Some(" ++ Decimal.Layout.inspection.write value ++ ")"

namespace Event

inductive Level where
  | debug
  | info
  | warn
  deriving DecidableEq, Repr

inductive Value where
  | int (value : Int)
  | bool (value : Bool)
  | float (value : Float)
  | text (value : String)
  deriving Repr

def level : Event → Level
  | .spawning .. | .finished .. | .answered .. => .debug
  | .interrupted .. => .warn
  | .transition .. | .episodeFinished .. => .info

def message : Event → String
  | .spawning .. => "spawning clingo"
  | .interrupted .. => "clingo search interrupted"
  | .finished .. => "clingo finished"
  | .answered .. => "solver answered"
  | .transition .. => "transition"
  | .episodeFinished .. => "episode finished"

def fields : Event → List (String × Value)
  | .spawning executable horizon mode => [
    ("executable", .text executable.render), ("horizon", .int horizon.toNat),
    ("mode", .text mode.render)]
  | .interrupted result exitCode => [("result", .text result), ("exit_code", .int exitCode)]
  | .finished result models => [("result", .text result), ("models", .int models)]
  | .answered query horizon models =>
    ("query", .text query.name) ::
      (horizon.toList.map fun horizon => ("horizon", .int horizon.toNat)) ++
      [("models", .int models)]
  | .transition action reward facts => [
    ("action", .text action.text), ("reward", .float reward), ("facts", .int facts)]
  | .episodeFinished episode steps behaviorReturn optimalReturn reachedGoal => [
    ("episode", .int episode.toNat), ("steps", .int steps),
    ("behavior_return", .float behaviorReturn),
    ("optimal_return", .text (showReturn optimalReturn)), ("reached_goal", .bool reachedGoal)]

end Event

end DeclarativeMdp
