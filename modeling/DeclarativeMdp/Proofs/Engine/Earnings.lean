import DeclarativeMdp.Proofs.Engine.Consistency

set_option autoImplicit false

namespace DeclarativeMdp.Engine

variable {σ : Type} [Solver σ]

def earned? (engine : Engine σ) : Operation → Option Float
  | .transition action => (engine.transition action).result.toOption
  | .resolve | .plan _ => none

def earnings (engine : Engine σ) : List Operation → List Float
  | [] => []
  | operation :: rest =>
    (engine.earned? operation).toList ++ (engine.perform operation).earnings rest

theorem perform_rewards (engine : Engine σ) (operation : Operation) :
    (engine.perform operation).trajectory.rewards =
      engine.trajectory.rewards ++
        (engine.earned? operation).toList.map fun reward => some (.ofFloat reward) := by
  cases operation with
  | transition action =>
    by_cases refused : engine.Refuses action
    · simp [perform, earned?, transition_refused refused, Except.toOption]
    · cases answer : engine.stepAnswer action with
      | error error =>
        obtain ⟨result, next⟩ := transition_failed refused answer
        simp [perform, earned?, result, next, consulted, Except.toOption]
      | ok successor =>
        obtain ⟨result, next⟩ := transition_advanced refused answer
        simp [perform, earned?, result, next, consulted, advance, Trajectory.push,
          Except.toOption]
  | resolve => simp [perform, earned?, resolveAvailable_next, consulted]
  | plan horizon => simp [perform, earned?, optimalReturn_next, consulted]

theorem performAll_rewards (engine : Engine σ) (operations : List Operation) :
    (engine.performAll operations).trajectory.rewards =
      engine.trajectory.rewards ++
        (engine.earnings operations).map fun reward => some (.ofFloat reward) := by
  induction operations generalizing engine with
  | nil => simp [performAll, earnings]
  | cons operation rest ih =>
    have later := ih (engine.perform operation)
    rw [perform_rewards, List.append_assoc, ← List.map_append] at later
    exact later

theorem create_rewards {initial goal : State} {programs : ProgramSet} {solver : σ}
    {config : Config} {engine : Engine σ}
    (made : (create initial goal programs solver config).result = .ok engine)
    (operations : List Operation) :
    (engine.performAll operations).trajectory.rewards =
      none :: (engine.earnings operations).map fun reward => some (.ofFloat reward) := by
  obtain ⟨-, available, -, rfl⟩ := create_eq_ok_iff.1 made
  exact performAll_rewards ..

end DeclarativeMdp.Engine
