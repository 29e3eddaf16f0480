import DeclarativeMdp.Proofs.Engine.Consistency

set_option autoImplicit false

namespace DeclarativeMdp.Engine

variable {σ : Type} {engine other third : Engine σ}

structure SamePlace (engine other : Engine σ) : Prop where
  state : engine.state = other.state
  goal : engine.goal = other.goal
  programs : engine.programs = other.programs
  available : engine.available = other.available
  trajectory : engine.trajectory = other.trajectory

theorem SamePlace.symm (samePlace : engine.SamePlace other) : other.SamePlace engine :=
  ⟨samePlace.state.symm, samePlace.goal.symm, samePlace.programs.symm, samePlace.available.symm,
    samePlace.trajectory.symm⟩

theorem SamePlace.trans (first : engine.SamePlace other) (second : other.SamePlace third) :
    engine.SamePlace third :=
  ⟨first.state.trans second.state, first.goal.trans second.goal,
    first.programs.trans second.programs, first.available.trans second.available,
    first.trajectory.trans second.trajectory⟩

theorem SamePlace.transitionRequest_eq (samePlace : engine.SamePlace other) (action : Action) :
    engine.transitionRequest action = other.transitionRequest action := by
  simp only [transitionRequest, samePlace.state, samePlace.goal, samePlace.programs]

theorem SamePlace.advance (samePlace : engine.SamePlace other) (action : Action)
    (successor : Successor) :
    (engine.advance action successor).SamePlace (other.advance action successor) where
  state := rfl
  goal := samePlace.goal
  programs := samePlace.programs
  available := rfl
  trajectory := by simp only [Engine.advance, samePlace.trajectory]

theorem AgreesWith.samePlace (agrees : engine.AgreesWith other) : engine.SamePlace other := by
  obtain ⟨state, goal, -, programs, available, trajectory⟩ := agrees
  exact ⟨state, goal, programs, available, trajectory⟩

theorem SamePlace.agreesWith (samePlace : engine.SamePlace other)
    (config : engine.config = other.config) : engine.AgreesWith other :=
  ⟨samePlace.state, samePlace.goal, config, samePlace.programs, samePlace.available,
    samePlace.trajectory⟩

theorem AgreesWith.config (agrees : engine.AgreesWith other) : engine.config = other.config :=
  agrees.2.2.1

theorem AgreesWith.refuses_iff (agrees : engine.AgreesWith other) (action : Action) :
    engine.Refuses action ↔ other.Refuses action := by
  simp only [Refuses, agrees.config, agrees.samePlace.available]

variable [Solver σ]

def HistoryFree (σ : Type) [Solver σ] : Prop :=
  ∀ (request : Request) (solver other : σ),
    (Solver.solve request solver).result = (Solver.solve request other).result

theorem SamePlace.stepAnswer_eq (historyFree : HistoryFree σ) (samePlace : engine.SamePlace other)
    (action : Action) : engine.stepAnswer action = other.stepAnswer action := by
  unfold stepAnswer
  rw [samePlace.transitionRequest_eq, historyFree _ engine.solver other.solver]

theorem SamePlace.consulted (samePlace : engine.SamePlace other) (request request' : Request) :
    (engine.consulted request).SamePlace (other.consulted request') :=
  ⟨samePlace.state, samePlace.goal, samePlace.programs, samePlace.available, samePlace.trajectory⟩

theorem SamePlace.transition_advanced {action : Action} {successor : Successor}
    (historyFree : HistoryFree σ) (samePlace : engine.SamePlace other)
    (asked : ¬ engine.Refuses action) (asked' : ¬ other.Refuses action)
    (stepped : engine.stepAnswer action = .ok successor) :
    (engine.transition action).result = .ok (Decimal.ofInteger successor.reward) ∧
      (other.transition action).result = .ok (Decimal.ofInteger successor.reward) ∧
      (engine.transition action).next.SamePlace (other.transition action).next := by
  have stepped' : other.stepAnswer action = .ok successor := by
    rw [← samePlace.stepAnswer_eq historyFree, stepped]
  obtain ⟨result, next⟩ := Engine.transition_advanced asked stepped
  obtain ⟨result', next'⟩ := Engine.transition_advanced asked' stepped'
  rw [next, next']
  exact ⟨result, result', (samePlace.consulted ..).advance action successor⟩

theorem exists_error_of_stepAnswer {action : Action} {error : Error}
    (stepped : engine.stepAnswer action = .error error) :
    ∃ reason, (engine.transition action).result = .error reason := by
  by_cases refused : engine.Refuses action
  · exact ⟨_, congrArg Outcome.result (transition_refused refused)⟩
  · exact ⟨_, (transition_failed refused stepped).1⟩

theorem transition_samePlace_of_error {action : Action} {error : Error}
    (failed : (engine.transition action).result = .error error) :
    (engine.transition action).next.SamePlace engine :=
  AgreesWith.samePlace (transition_agrees fun reward done => by simp [failed] at done)

theorem AgreesWith.transition (historyFree : HistoryFree σ) (agrees : engine.AgreesWith other)
    (action : Action) :
    (engine.transition action).result = (other.transition action).result ∧
      (engine.transition action).next.AgreesWith (other.transition action).next := by
  by_cases refused : engine.Refuses action
  · have refused' := (agrees.refuses_iff action).1 refused
    rw [transition_refused refused, transition_refused refused']
    exact ⟨Eq.refl _, agrees⟩
  have asked : ¬ other.Refuses action := fun refused' =>
    refused ((agrees.refuses_iff action).2 refused')
  have same := agrees.samePlace.stepAnswer_eq historyFree action
  cases stepped : engine.stepAnswer action with
  | error error =>
    obtain ⟨result, next⟩ := transition_failed refused stepped
    obtain ⟨result', next'⟩ := transition_failed asked (same ▸ stepped)
    rw [result, result', next, next']
    exact ⟨Eq.refl _, agrees⟩
  | ok successor =>
    obtain ⟨result, result', samePlace⟩ :=
      agrees.samePlace.transition_advanced historyFree refused asked stepped
    refine ⟨result.trans result'.symm, samePlace.agreesWith ?_⟩
    rw [(Engine.transition_advanced refused stepped).2,
      (Engine.transition_advanced asked (same ▸ stepped)).2]
    exact agrees.config

theorem transition_recorded {action : Action} {reward : Float}
    (accepted : (engine.transition action).result = .ok reward) :
    (engine.transition action).next.trajectory.actions = engine.trajectory.actions ++ [action] ∧
      (engine.transition action).next.trajectory.rewards =
        engine.trajectory.rewards ++ [some (.ofFloat reward)] := by
  obtain ⟨asked, successor, stepped, rfl⟩ := transition_eq_ok_iff.1 accepted
  rw [(Engine.transition_advanced asked stepped).2]
  exact ⟨rfl, rfl⟩

end DeclarativeMdp.Engine
