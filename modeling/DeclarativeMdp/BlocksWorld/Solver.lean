import DeclarativeMdp.BlocksWorld.Search
import DeclarativeMdp.Solver.Basic

set_option autoImplicit false

namespace DeclarativeMdp

structure BlocksWorld where
  queries : Nat
  deriving DecidableEq, Repr

namespace BlocksWorld

def start : BlocksWorld := ⟨0⟩

def stateAtoms (request : Request) (state : State) : Except Error (List Term) :=
  if request.shows Predicates.state then
    state.toList.mapM fun fact => return .unary "state" (← readAtom fact.text)
  else return []

def executableAtoms (request : Request) (world : World) : List Term :=
  if request.shows Predicates.executable then
    (world.moves request.subgoal).map fun move => .unary "executable" move.term
  else []

def rewardAtoms (request : Request) (world : World) : List Term :=
  if request.shows Predicates.nextReward then
    let reward := if world.Reaches request.subgoal then goalReward else stepReward
    [.unary "nextReward" (.number (.ofInt reward))]
  else []

def observe (request : Request) (world : World) : Except Error (List Model) := do
  return [.ofAtoms ((← stateAtoms request request.current) ++ executableAtoms request world)]

def step (request : Request) (world : World) (action : Action) : Except Error (List Model) := do
  let term ← readAtom action.text
  match (world.moves request.subgoal).find? (·.term = term) with
  | none => return []
  | some move =>
    let next := world.apply move
    return [.ofAtoms ((← stateAtoms request next.toState) ++ rewardAtoms request next ++
      executableAtoms request next)]

def plan (request : Request) (world : World) : List Model :=
  match world.planLength request.subgoal request.horizon.toNat with
  | none => []
  | some steps =>
    let best := planReturn steps
    if request.shows Predicates.maxReturn then
      [⟨[.unary "maxReturn" (.number (.ofInt best))], [.ofInt (-best)]⟩]
    else [.ofAtoms []]

def answer (request : Request) : Except Error (List Model) := do
  let world ← World.ofState request.current
  match request.mode, request.action with
  | .optimize, _ => return plan request world
  | .enumerate _, none =>
    if request.horizon = 0 then observe request world
    else throw (.solver (.unsupported request.horizon none))
  | .enumerate _, some action =>
    if request.horizon = 1 then step request world action
    else throw (.solver (.unsupported request.horizon (some action)))

instance : Solver BlocksWorld where
  solve request solver := ⟨answer request, [], ⟨solver.queries + 1⟩⟩

end BlocksWorld

end DeclarativeMdp
