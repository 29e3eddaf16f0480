import DeclarativeMdp.Engine.Config
import DeclarativeMdp.Solver.Basic
import DeclarativeMdp.Trajectory.Basic

set_option autoImplicit false

namespace DeclarativeMdp

structure Engine (σ : Type) where
  state : State
  goal : State
  config : Config
  programs : ProgramSet
  solver : σ
  available : AvailableActions
  trajectory : Trajectory

namespace Engine

variable {σ : Type}

def uniquenessLimit : Nat := 2

def availableRequest (engine : Engine σ) : Request where
  programs := engine.programs
  current := engine.state
  subgoal := engine.goal
  horizon := 0
  action := none
  shown := [Predicates.executable]
  mode := .enumerate uniquenessLimit

def transitionRequest (engine : Engine σ) (action : Action) : Request where
  programs := engine.programs
  current := engine.state
  subgoal := engine.goal
  horizon := 1
  action := some action
  shown := [Predicates.state, Predicates.nextReward, Predicates.executable]
  mode := .enumerate uniquenessLimit

def planRequest (engine : Engine σ) (horizon : UInt32) : Request where
  programs := engine.programs
  current := engine.state
  subgoal := engine.goal
  horizon := horizon
  action := none
  shown := [Predicates.maxReturn]
  mode := .optimize

def GoalReached (engine : Engine σ) : Prop := State.Satisfies engine.state engine.goal

instance (engine : Engine σ) : Decidable engine.GoalReached :=
  inferInstanceAs (Decidable (State.Satisfies _ _))

def isTerminal (engine : Engine σ) : Bool := engine.available.isEmpty

def returnHistory (engine : Engine σ) : Except Error (List Float) :=
  engine.trajectory.returnHistory engine.config.discountRate

def executableActions (model : Model) : AvailableActions :=
  .ofList ((model.argumentsOf Predicates.executable).map Action.ofTerm)

structure Successor where
  state : State
  reward : Int64
  available : AvailableActions
  deriving DecidableEq, Repr

def Successor.ofModel (model : Model) : Except Error Successor := do
  let reward ← model.uniqueNumber Predicates.nextReward
  return {
    state := .ofList ((model.argumentsOf Predicates.state).map Fact.ofTerm)
    reward := reward
    available := executableActions model }

variable [Solver σ]

def ask {α : Type} (engine : Engine σ) (request : Request) (answered : Nat → Event)
    (judge : List Model → Except Error α) : Outcome (Engine σ) α :=
  let outcome := Solver.solve request engine.solver
  let next := { engine with solver := outcome.next }
  match outcome.result with
  | .error error => ⟨.error error, outcome.events, next⟩
  | .ok models => ⟨judge models, outcome.events ++ [answered models.length], next⟩

def resolveAvailable (engine : Engine σ) : Outcome (Engine σ) AvailableActions :=
  engine.ask engine.availableRequest (.answered .availableActions none) fun models =>
    executableActions <$> Model.single .availableActions models

def advance (engine : Engine σ) (action : Action) (successor : Successor) : Engine σ :=
  { engine with
    state := successor.state
    available := successor.available
    trajectory :=
      engine.trajectory.push action successor.state
        (.ofFloat (Decimal.ofInteger successor.reward)) }

def transition (engine : Engine σ) (action : Action) : Outcome (Engine σ) Float :=
  if engine.config.checkLegality ∧ action ∉ engine.available then
    ⟨.error (.illegalAction action), [], engine⟩
  else
    let asked := engine.ask (engine.transitionRequest action) (.answered .transition none)
      fun models => Model.single .transition models >>= Successor.ofModel
    match asked.result with
    | .error error => ⟨.error error, asked.events, asked.next⟩
    | .ok successor =>
      let reward := Decimal.ofInteger successor.reward
      ⟨.ok reward, asked.events ++ [.transition action reward successor.state.size],
        asked.next.advance action successor⟩

def optimalReturn (engine : Engine σ) (horizon : Option UInt32) : Outcome (Engine σ) Float :=
  let horizon := horizon.getD (engine.config.horizonFor engine.state.size)
  engine.ask (engine.planRequest horizon) (.answered .optimalReturn (some horizon)) fun models =>
    do
      let model ← Model.best .optimalReturn models
      return Decimal.ofInteger (← model.uniqueNumber Predicates.maxReturn)

def create (initial goal : State) (programs : ProgramSet) (solver : σ) (config : Config) :
    Outcome σ (Engine σ) :=
  match config.validate with
  | .error error => ⟨.error error, [], solver⟩
  | .ok () =>
    let engine : Engine σ := {
      state := initial
      goal := goal
      config := config
      programs := programs
      solver := solver
      available := ∅
      trajectory := .start initial }
    let resolved := engine.resolveAvailable
    ⟨resolved.result.map fun available => { resolved.next with available := available },
      resolved.events, resolved.next.solver⟩

end Engine

end DeclarativeMdp
