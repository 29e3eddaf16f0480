import DeclarativeMdp.Error
import DeclarativeMdp.State

set_option autoImplicit false

namespace DeclarativeMdp

/-- A reward, as the bits it was recorded with. Two rewards that are not numbers may differ in
their bits, and a snapshot keeps these. -/
structure Reward where
  bits : UInt64
  deriving DecidableEq, Repr, Inhabited

namespace Reward

def value (reward : Reward) : Float := Float.ofBits reward.bits

def ofFloat (value : Float) : Reward := ⟨value.toBits⟩

end Reward

structure Trajectory where
  states : List State
  actions : List Action
  rewards : List (Option Reward)
  deriving DecidableEq, Repr

structure Step where
  state : State
  action : Action
  reward : Float
  nextState : State
  deriving Repr

namespace Trajectory

def start (initial : State) : Trajectory := ⟨[initial], [], [none]⟩

def push (run : Trajectory) (action : Action) (nextState : State) (reward : Reward) :
    Trajectory :=
  ⟨run.states ++ [nextState], run.actions ++ [action], run.rewards ++ [some reward]⟩

def length (run : Trajectory) : Nat := run.states.length

def stepCount (run : Trajectory) : Nat := run.actions.length

def initialState (run : Trajectory) : Except Error State :=
  match run.states.head? with
  | some state => .ok state
  | none => .error .undefinedAnswer

def lastState (run : Trajectory) : Except Error State :=
  match run.states.getLast? with
  | some state => .ok state
  | none => .error .undefinedAnswer

def rewardValue : Option Reward → Float
  | some reward => reward.value
  | none => 0.0

def stepsFrom : List State → List Action → List (Option Reward) → Except Error (List Step)
  | _, [], _ => .ok []
  | state :: next :: states, action :: actions, reward :: rewards => do
    return ⟨state, action, rewardValue reward, next⟩ ::
      (← stepsFrom (next :: states) actions rewards)
  | _, _, _ => .error .undefinedAnswer

def steps (run : Trajectory) : Except Error (List Step) :=
  stepsFrom run.states run.actions (run.rewards.drop 1)

def totalReward (run : Trajectory) : Float :=
  (run.rewards.filterMap id).foldl (fun sum reward => sum + reward.value) (-0.0)

def returns (discount : Float) : List Float → List Float
  | [] => [0.0]
  | reward :: rewards =>
    let later := returns discount rewards
    (reward + discount * later.headD 0.0) :: later

def returnHistory (run : Trajectory) (discount : Float) : Except Error (List Float) :=
  let rewards := (run.rewards.drop 1).take (run.length - 1)
  if run.length = 0 ∨ rewards.length < run.length - 1 then .error .undefinedAnswer
  else .ok (returns discount (rewards.map rewardValue))

def discountedReturn (run : Trajectory) (discount : Float) : Except Error Float := do
  match ← run.returnHistory discount with
  | first :: _ => return first
  | [] => throw .undefinedAnswer

def alike (run other : Trajectory) : Bool :=
  run.states = other.states && run.actions = other.actions &&
    (run.rewards.map (·.map Reward.value)) == (other.rewards.map (·.map Reward.value))

def check (run : Trajectory) : Except Error Unit :=
  if run.states.isEmpty then .error (.corruptSnapshot .noInitialState)
  else if run.states.length ≠ run.rewards.length ∨ run.states.length ≠ run.actions.length + 1 then
    .error (.corruptSnapshot
      (.lengths run.states.length run.actions.length run.rewards.length))
  else if (run.rewards.take 1).any Option.isSome ∨ (run.rewards.drop 1).any Option.isNone then
    .error (.corruptSnapshot .misplacedReward)
  else .ok ()

end Trajectory

end DeclarativeMdp
