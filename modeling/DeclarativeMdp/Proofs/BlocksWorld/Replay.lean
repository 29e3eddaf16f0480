import DeclarativeMdp.Proofs.BlocksWorld.Planning
import DeclarativeMdp.Proofs.Engine.Replay

set_option autoImplicit false

namespace DeclarativeMdp.BlocksWorld

variable {engine fresh : Engine BlocksWorld}

theorem historyFree : Engine.HistoryFree BlocksWorld := fun _ _ _ => rfl

theorem exists_samePlace {initial goal : State} {programs : ProgramSet} {solver : BlocksWorld}
    {config other : Config}
    (made : (Engine.create initial goal programs solver config).result = .ok engine)
    (valid : other.validate = .ok ()) (another : BlocksWorld) :
    ∃ twin, (Engine.create initial goal programs another other).result = .ok twin ∧
      twin.config = other ∧ twin.SamePlace engine := by
  obtain ⟨w, inWorld⟩ := create_inWorld made
  obtain ⟨-, available, -, rfl⟩ := Engine.create_eq_ok_iff.1 made
  exact ⟨_, create_result valid inWorld.read, rfl, rfl, rfl, rfl, inWorld.available.symm, rfl⟩

theorem Plays.concat {last : Engine BlocksWorld} {actions : List Action} {rewards : List Float}
    {action : Action} {reward : Float} (plays : Plays engine actions rewards last)
    (accepted : (last.transition action).result = .ok reward) :
    Plays engine (actions ++ [action]) (rewards ++ [reward]) (last.transition action).next := by
  induction plays with
  | stop engine => exact .step accepted (.stop _)
  | step first rest ih => exact .step first (ih accepted)

def Retraced (fresh engine : Engine BlocksWorld) : Prop :=
  ∃ rewards last, Plays fresh engine.trajectory.actions rewards last ∧
    engine.trajectory.rewards = none :: rewards.map (fun reward => some (.ofFloat reward)) ∧
    last.AgreesWith engine

theorem Retraced.of_agrees {later : Engine BlocksWorld} (retraced : Retraced fresh engine)
    (same : later.AgreesWith engine) : Retraced fresh later := by
  obtain ⟨rewards, last, plays, recorded, agrees⟩ := retraced
  have run := same.samePlace.trajectory
  have config := agrees.config.trans same.config.symm
  have samePlace := agrees.samePlace.trans same.samePlace.symm
  exact ⟨rewards, last, run ▸ plays, run ▸ recorded, samePlace.agreesWith config⟩

theorem Retraced.transition {action : Action} {reward : Float} (retraced : Retraced fresh engine)
    (accepted : (engine.transition action).result = .ok reward) :
    Retraced fresh (engine.transition action).next := by
  obtain ⟨rewards, last, plays, recorded, agrees⟩ := retraced
  obtain ⟨actions, earned⟩ := Engine.transition_recorded accepted
  obtain ⟨same, next⟩ := agrees.transition historyFree action
  refine ⟨rewards ++ [reward], (last.transition action).next, ?_, ?_, next⟩
  · rw [actions]
    exact plays.concat (same.trans accepted)
  · rw [earned, recorded, List.map_append, List.cons_append, List.map_singleton]

theorem Retraced.perform (retraced : Retraced fresh engine) (operation : Operation) :
    Retraced fresh (engine.perform operation) := by
  by_cases accepted : ∃ action reward, operation = .transition action ∧
      (engine.transition action).result = .ok reward
  · obtain ⟨action, reward, rfl, accepted⟩ := accepted
    exact retraced.transition accepted
  · have same : (engine.perform operation).AgreesWith engine :=
      engine.atomic.unchanged operation fun action reward isTransition done =>
        accepted ⟨action, reward, isTransition, done⟩
    exact retraced.of_agrees same

theorem Retraced.performAll (retraced : Retraced fresh engine) (operations : List Operation) :
    Retraced fresh (engine.performAll operations) := by
  induction operations generalizing engine with
  | nil => exact retraced
  | cons operation rest ih => exact ih (retraced.perform operation)

-- By induction on the operations: only an accepted action is recorded, and it is accepted again
-- where the new engine has come to by then.
theorem retraced_performAll {initial goal : State} {programs : ProgramSet} {solver : BlocksWorld}
    {config : Config}
    (made : (Engine.create initial goal programs solver config).result = .ok engine)
    (operations : List Operation) (another : BlocksWorld) :
    ∃ fresh, (Engine.create initial goal programs another config).result = .ok fresh ∧
      Retraced fresh (engine.performAll operations) := by
  have valid := (Engine.create_eq_ok_iff.1 made).1
  obtain ⟨fresh, created, kept, samePlace⟩ := exists_samePlace made valid another
  have begun : Retraced fresh engine := by
    obtain ⟨-, available, -, rfl⟩ := Engine.create_eq_ok_iff.1 made
    exact ⟨[], fresh, .stop fresh, rfl, samePlace.agreesWith kept⟩
  exact ⟨fresh, created, begun.performAll operations⟩

theorem retraced_performAll_tower :
    ∃ engine fresh : Engine BlocksWorld,
      (Engine.create (tower "a" "b") (reversed "a" "b") default start .standard).result =
          .ok engine ∧
        (Engine.create (tower "a" "b") (reversed "a" "b") default ⟨7⟩ .standard).result =
          .ok fresh ∧
        Retraced fresh (engine.performAll attempts) := by
  have a : IsConstant "a" := by decide
  have b : IsConstant "b" := by decide
  obtain ⟨engine, made, -⟩ := exists_tower a.isBlock b.isBlock (by decide) default
  obtain ⟨fresh, created, retraced⟩ := retraced_performAll made attempts ⟨7⟩
  exact ⟨engine, fresh, made, created, retraced⟩

end DeclarativeMdp.BlocksWorld
