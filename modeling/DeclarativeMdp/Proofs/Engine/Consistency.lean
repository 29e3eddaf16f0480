import DeclarativeMdp.Proofs.Engine.Run
import DeclarativeMdp.Proofs.Trajectory.History

set_option autoImplicit false

namespace DeclarativeMdp.Engine

variable {σ : Type}

def withLog (engine : Engine σ) (log : List Request) : Engine (Recorded σ) where
  state := engine.state
  goal := engine.goal
  config := engine.config
  programs := engine.programs
  solver := ⟨engine.solver, log⟩
  available := engine.available
  trajectory := engine.trajectory

structure Consistent (initial goal : State) (config : Config) (engine : Engine σ) : Prop where
  valid : engine.trajectory.Valid
  first : engine.trajectory.initialState = .ok initial
  last : engine.trajectory.lastState = .ok engine.state
  goal_kept : engine.goal = goal
  config_kept : engine.config = config

variable [Solver σ]

theorem perform_cases (engine : Engine σ) (operation : Operation) :
    (engine.sent operation = none ∧ engine.perform operation = engine) ∨
      ∃ request, engine.sent operation = some request ∧
        (engine.perform operation = engine.consulted request ∨
          ∃ action successor, operation = .transition action ∧
            engine.stepAnswer action = .ok successor ∧
            engine.perform operation = (engine.consulted request).advance action successor) := by
  cases operation with
  | transition action =>
    by_cases refused : engine.Refuses action
    · left
      simp [sent, refused, perform, transition_refused refused]
    · right
      refine ⟨engine.transitionRequest action, by simp [sent, refused], ?_⟩
      cases answer : engine.stepAnswer action with
      | error error => exact .inl (transition_failed refused answer).2
      | ok successor =>
        exact .inr ⟨action, successor, rfl, answer, (transition_advanced refused answer).2⟩
  | resolve => exact .inr ⟨_, rfl, .inl engine.resolveAvailable_next⟩
  | plan horizon => exact .inr ⟨_, rfl, .inl (engine.optimalReturn_next horizon)⟩

theorem Consistent.consulted {initial goal : State} {config : Config} {engine : Engine σ}
    (consistent : Consistent initial goal config engine) (request : Request) :
    Consistent initial goal config (engine.consulted request) :=
  ⟨consistent.valid, consistent.first, consistent.last, consistent.goal_kept,
    consistent.config_kept⟩

omit [Solver σ] in
theorem Consistent.advance {initial goal : State} {config : Config} {engine : Engine σ}
    (consistent : Consistent initial goal config engine) (action : Action) (successor : Successor) :
    Consistent initial goal config (engine.advance action successor) where
  valid := consistent.valid.push ..
  first := (Trajectory.initialState_push consistent.valid ..).trans consistent.first
  last := Trajectory.lastState_push ..
  goal_kept := consistent.goal_kept
  config_kept := consistent.config_kept

theorem Consistent.perform {initial goal : State} {config : Config} {engine : Engine σ}
    (consistent : Consistent initial goal config engine) (operation : Operation) :
    Consistent initial goal config (engine.perform operation) := by
  rcases engine.perform_cases operation with
    ⟨-, same⟩ | ⟨request, -, same | ⟨action, successor, -, -, moved⟩⟩
  · rwa [same]
  · rw [same]
    exact consistent.consulted request
  · rw [moved]
    exact (consistent.consulted request).advance action successor

theorem Consistent.performAll {initial goal : State} {config : Config} {engine : Engine σ}
    (consistent : Consistent initial goal config engine) (operations : List Operation) :
    Consistent initial goal config (engine.performAll operations) := by
  induction operations generalizing engine with
  | nil => exact consistent
  | cons operation rest ih => exact ih (consistent.perform operation)

theorem create_consistent {initial goal : State} {programs : ProgramSet} {solver : σ}
    {config : Config} {engine : Engine σ}
    (made : (create initial goal programs solver config).result = .ok engine) :
    Consistent initial goal config engine := by
  obtain ⟨-, available, -, rfl⟩ := create_eq_ok_iff.1 made
  exact ⟨Trajectory.start_valid initial, rfl, rfl, rfl, rfl⟩

theorem Reachable.exists_consistent {engine : Engine σ} (reachable : engine.Reachable) :
    ∃ initial goal config, Consistent initial goal config engine := by
  induction reachable with
  | created made => exact ⟨_, _, _, create_consistent made⟩
  | performed before operation ih =>
    have ⟨initial, goal, config, consistent⟩ := ih
    exact ⟨initial, goal, config, consistent.perform operation⟩

theorem perform_extends (engine : Engine σ) (operation : Operation) :
    (engine.perform operation).trajectory.Extends engine.trajectory := by
  rcases engine.perform_cases operation with
    ⟨-, same⟩ | ⟨request, -, same | ⟨action, successor, -, -, moved⟩⟩
  · rw [same]
    exact .refl _
  · rw [same]
    exact .refl _
  · rw [moved]
    exact Trajectory.push_extends ..

theorem performAll_extends (engine : Engine σ) (operations : List Operation) :
    (engine.performAll operations).trajectory.Extends engine.trajectory := by
  induction operations generalizing engine with
  | nil => exact .refl _
  | cons operation rest ih => exact (ih _).trans (engine.perform_extends operation)

theorem performAll_append (engine : Engine σ) (earlier later : List Operation) :
    engine.performAll (earlier ++ later) = (engine.performAll earlier).performAll later :=
  List.foldl_append

theorem ask_withLog {α : Type} (engine : Engine σ) (log : List Request) (request : Request)
    (answered : Nat → Event) (judge : List Model → Except Error α) :
    (engine.withLog log).ask request answered judge =
      ⟨(engine.ask request answered judge).result, (engine.ask request answered judge).events,
        (engine.ask request answered judge).next.withLog (log ++ [request])⟩ := by
  simp only [ask, withLog, Solver.solve]
  split <;> rfl

theorem perform_withLog (engine : Engine σ) (log : List Request) (operation : Operation) :
    (engine.withLog log).perform operation =
      (engine.perform operation).withLog (log ++ (engine.sent operation).toList) := by
  cases operation with
  | transition action =>
    by_cases refused : engine.Refuses action
    · have refused' : (engine.withLog log).Refuses action := refused
      simp [perform, transition_refused refused, transition_refused refused', sent, refused]
    · have asked : ¬ (engine.withLog log).Refuses action := refused
      simp only [perform, sent, refused, if_false, Option.toList_some]
      unfold transition
      rw [if_neg (show ¬ (_ ∧ _) from refused), if_neg (show ¬ (_ ∧ _) from asked)]
      rw [show (engine.withLog log).transitionRequest action = engine.transitionRequest action
        from rfl, ask_withLog]
      dsimp only
      split <;> rfl
  | resolve => exact congrArg Outcome.next (engine.ask_withLog ..)
  | plan horizon => exact congrArg Outcome.next (engine.ask_withLog ..)

theorem transition_withLog_result (engine : Engine σ) (log : List Request) (action : Action) :
    ((engine.withLog log).transition action).result = (engine.transition action).result := by
  by_cases refused : engine.Refuses action
  · have refused' : (engine.withLog log).Refuses action := refused
    rw [transition_refused refused, transition_refused refused']
  · have asked : ¬ (engine.withLog log).Refuses action := refused
    have same : (engine.withLog log).stepAnswer action = engine.stepAnswer action := rfl
    cases stepped : engine.stepAnswer action with
    | error error =>
      rw [(transition_failed refused stepped).1, (transition_failed asked (same.trans stepped)).1]
    | ok successor =>
      rw [(transition_advanced refused stepped).1,
        (transition_advanced asked (same.trans stepped)).1]

structure Atomic (engine : Engine σ) : Prop where
  logged : ∀ (log : List Request) (operation : Operation),
    (engine.withLog log).perform operation =
      (engine.perform operation).withLog (log ++ (engine.sent operation).toList)
  asked : ∀ operation, ∀ request ∈ engine.sent operation,
    request.current = engine.state ∧ request.subgoal = engine.goal
  silent : ∀ operation, engine.sent operation = none ↔
    ∃ action, operation = .transition action ∧ engine.Refuses action
  refused : ∀ action, engine.Refuses action →
    (engine.transition action).result = .error (.illegalAction action)
  succeeds : ∀ action, ¬ engine.Refuses action →
    ((∃ reward, (engine.transition action).result = .ok reward) ↔
      ∃ model value,
        (Solver.solve (engine.transitionRequest action) engine.solver).result = .ok [model] ∧
          model.atomsOf Predicates.nextReward = [.unary "nextReward" (.number value)])
  advances : ∀ action model value, ¬ engine.Refuses action →
    (Solver.solve (engine.transitionRequest action) engine.solver).result = .ok [model] →
    model.atomsOf Predicates.nextReward = [.unary "nextReward" (.number value)] →
    let next := (engine.transition action).next
    (engine.transition action).result = .ok (Decimal.ofInteger value) ∧
      (∀ fact, fact ∈ next.state ↔
        ∃ term, .unary "state" term ∈ model.atoms ∧ fact = Fact.ofTerm term) ∧
      (∀ other, other ∈ next.available ↔
        ∃ term, .unary "executable" term ∈ model.atoms ∧ other = Action.ofTerm term) ∧
      next.trajectory =
        engine.trajectory.push action next.state (.ofFloat (Decimal.ofInteger value))
  unchanged : ∀ operation,
    (∀ action reward, operation = .transition action →
      (engine.transition action).result ≠ .ok reward) →
    (engine.perform operation).AgreesWith engine

omit [Solver σ] in
theorem sent_asks {engine : Engine σ} {operation : Operation} {request : Request}
    (sends : engine.sent operation = some request) :
    request.current = engine.state ∧ request.subgoal = engine.goal := by
  cases operation with
  | transition action =>
    simp only [sent] at sends
    split at sends
    · simp at sends
    · obtain rfl := Option.some.inj sends
      exact ⟨rfl, rfl⟩
  | resolve =>
    obtain rfl := Option.some.inj sends
    exact ⟨rfl, rfl⟩
  | plan horizon =>
    obtain rfl := Option.some.inj sends
    exact ⟨rfl, rfl⟩

omit [Solver σ] in
theorem sent_eq_none_iff {engine : Engine σ} {operation : Operation} :
    engine.sent operation = none ↔
      ∃ action, operation = .transition action ∧ engine.Refuses action := by
  cases operation with
  | transition action => simp [sent]
  | resolve => simp [sent]
  | plan horizon => simp [sent]

theorem transition_eq_ok_iff {engine : Engine σ} {action : Action} {reward : Float} :
    (engine.transition action).result = .ok reward ↔
      ¬ engine.Refuses action ∧
        ∃ successor, engine.stepAnswer action = .ok successor ∧
          reward = Decimal.ofInteger successor.reward := by
  by_cases refused : engine.Refuses action
  · simp [transition_refused refused, refused]
  · cases answer : engine.stepAnswer action with
    | error error => simp [(transition_failed refused answer).1]
    | ok successor => simp [(transition_advanced refused answer).1, refused, eq_comm]

theorem transition_agrees {engine : Engine σ} {action : Action}
    (failed : ∀ reward, (engine.transition action).result ≠ .ok reward) :
    (engine.transition action).next.AgreesWith engine := by
  by_cases refused : engine.Refuses action
  · rw [transition_refused refused]
    exact .rfl
  · cases answer : engine.stepAnswer action with
    | error error =>
      rw [(transition_failed refused answer).2]
      exact .rfl
    | ok successor => exact absurd (transition_advanced refused answer).1 (failed _)

theorem atomic (engine : Engine σ) : engine.Atomic where
  logged := engine.perform_withLog
  asked _ _ sends := sent_asks sends
  silent _ := sent_eq_none_iff
  refused action refused := by rw [transition_refused refused]
  succeeds action asked := by
    simp only [transition_eq_ok_iff, stepAnswer_eq_ok_iff]
    constructor
    · rintro ⟨_, -, successor, ⟨model, answer, number, -, -⟩, -⟩
      exact ⟨model, _, answer, number⟩
    · rintro ⟨model, value, answer, number⟩
      exact ⟨_, asked, ⟨_, value, executableActions model⟩, ⟨model, answer, number, rfl, rfl⟩, rfl⟩
  advances action model value asked answer number := by
    let successor : Successor :=
      ⟨.ofList ((model.argumentsOf Predicates.state).map Fact.ofTerm), value,
        executableActions model⟩
    have stepped : engine.stepAnswer action = .ok successor :=
      stepAnswer_eq_ok_iff.2 ⟨model, answer, number, rfl, rfl⟩
    obtain ⟨result, next⟩ := transition_advanced asked stepped
    rw [next]
    refine ⟨result, fun fact => ?_, fun other => ?_, rfl⟩
    · change fact ∈ SortedSet.ofList _ ↔ _
      have named : "state" ≠ "" := by decide
      simp only [Predicates.state, SortedSet.mem_ofList, List.mem_map,
        Model.mem_argumentsOf named, eq_comm (a := fact)]
    · change other ∈ SortedSet.ofList _ ↔ _
      have named : "executable" ≠ "" := by decide
      simp only [Predicates.executable, SortedSet.mem_ofList, List.mem_map,
        Model.mem_argumentsOf named, eq_comm (a := other)]
  unchanged operation failed := by
    cases operation with
    | transition action => exact transition_agrees fun reward => failed action reward rfl
    | resolve =>
      rw [perform, resolveAvailable_next]
      exact .rfl
    | plan horizon =>
      rw [perform, optimalReturn_next]
      exact .rfl

-- By induction on the operations, from what one operation preserves.
theorem run_consistent {initial goal : State} {programs : ProgramSet} {solver : σ}
    {config : Config} {engine : Engine σ}
    (made : (create initial goal programs solver config).result = .ok engine)
    (operations : List Operation) :
    Consistent initial goal config (engine.performAll operations) ∧
      (∀ earlier, earlier <+: operations →
        (engine.performAll operations).trajectory.Extends
          (engine.performAll earlier).trajectory) ∧
      (engine.performAll operations).Atomic := by
  refine ⟨(create_consistent made).performAll operations, ?_, atomic _⟩
  rintro earlier ⟨later, rfl⟩
  rw [performAll_append]
  exact performAll_extends ..

def wavering : Scripted :=
  ⟨[.models [[]], .models [["state(p)", "nextReward(-1)"]], .models [[], []], .models [],
    .failure "down"]⟩

theorem run_consistent_wavering :
    ∃ engine : Engine Scripted,
      (create ∅ ∅ default wavering ⟨0.5, none, false⟩).result = .ok engine ∧
        let last :=
          engine.performAll [.transition ⟨"a"⟩, .transition ⟨"b"⟩, .resolve, .plan none]
        Consistent ∅ ∅ ⟨0.5, none, false⟩ last ∧
          last.trajectory.Extends engine.trajectory ∧ last.Atomic := by
  obtain ⟨engine, made⟩ : ∃ engine : Engine Scripted,
      (create ∅ ∅ default wavering ⟨0.5, none, false⟩).result = .ok engine := ⟨_, rfl⟩
  obtain ⟨consistent, longer, atomic⟩ :=
    run_consistent made
      [.transition ⟨"a"⟩, .transition ⟨"b"⟩, .resolve, .plan none]
  exact ⟨engine, made, consistent, longer [] List.nil_prefix, atomic⟩

end DeclarativeMdp.Engine
