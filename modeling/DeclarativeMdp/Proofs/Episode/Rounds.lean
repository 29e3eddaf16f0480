import DeclarativeMdp.Episode.Basic
import DeclarativeMdp.Proofs.Engine.Replay

set_option autoImplicit false

namespace DeclarativeMdp

def Engine.Accepts {σ : Type} [Solver σ] (engine : Engine σ) : List Action → Prop
  | [] => True
  | action :: rest =>
    (∃ reward, (engine.transition action).result = .ok reward) ∧
      (engine.transition action).next.Accepts rest

namespace Episode

variable {σ π : Type} [Solver σ] [Policy π]

inductive Rounds : Engine σ → π → List Action → Engine σ → π → Prop
  | none (engine : Engine σ) (policy : π) : Rounds engine policy [] engine policy
  | next {engine last : Engine σ} {policy policy' final : π} {action : Action}
      {actions : List Action} {reward : Float}
      (live : engine.isTerminal = false)
      (chosen : Policy.select engine.state engine.available policy = (some action, policy'))
      (accepted : (engine.transition action).result = .ok reward)
      (later : Rounds (engine.transition action).next policy' actions last final) :
      Rounds engine policy (action :: actions) last final

inductive Ends (engine : Engine σ) (policy : π) :
    (left : Nat) → Except Error Unit → Engine σ × π → Prop
  | full : Ends engine policy 0 (.ok ()) (engine, policy)
  | terminal {left : Nat} (nothing : engine.isTerminal = true) :
      Ends engine policy (left + 1) (.ok ()) (engine, policy)
  | declined {left : Nat} {policy' : π} (live : engine.isTerminal = false)
      (silent : Policy.select engine.state engine.available policy = (none, policy')) :
      Ends engine policy (left + 1) (.ok ()) (engine, policy')
  | failed {left : Nat} {policy' : π} {action : Action} {error : Error}
      (live : engine.isTerminal = false)
      (chosen : Policy.select engine.state engine.available policy = (some action, policy'))
      (rejected : (engine.transition action).result = .error error) :
      Ends engine policy (left + 1) (.error error) ((engine.transition action).next, policy')

theorem exists_rounds (limit : Nat) (engine : Engine σ) (policy : π) :
    ∃ actions last final left result next, Rounds engine policy actions last final ∧
      Ends last final left result next ∧ actions.length + left = limit := by
  induction limit generalizing engine policy with
  | zero => exact ⟨[], engine, policy, 0, _, _, .none .., .full, rfl⟩
  | succ limit ih =>
    cases live : engine.isTerminal with
    | true => exact ⟨[], engine, policy, limit + 1, _, _, .none .., .terminal live, Nat.zero_add _⟩
    | false =>
      cases chosen : Policy.select engine.state engine.available policy with
      | mk answer policy' =>
        cases answer with
        | none =>
          exact ⟨[], engine, policy, limit + 1, _, _, .none .., .declined live chosen,
            Nat.zero_add _⟩
        | some action =>
          cases result : (engine.transition action).result with
          | error error =>
            exact ⟨[], engine, policy, limit + 1, _, _, .none .., .failed live chosen result,
              Nat.zero_add _⟩
          | ok reward =>
            have ⟨actions, last, final, left, end', next, rounds, ends, sum⟩ :=
              ih (engine.transition action).next policy'
            have longer : (action :: actions).length + left = limit + 1 := by
              rw [List.length_cons, ← sum, Nat.add_right_comm]
            exact ⟨action :: actions, last, final, left, end', next,
              .next live chosen result rounds, ends, longer⟩

theorem Ends.next_of_ok {engine : Engine σ} {policy : π} {left : Nat} {next : Engine σ × π}
    {result : Except Error Unit} {done : Unit} (ends : Ends engine policy left result next)
    (fine : result = .ok done) : next.1 = engine := by
  cases ends with
  | failed => cases fine
  | _ => rfl

section

variable {engine last : Engine σ} {policy final : π} {actions : List Action}

theorem Ends.play {left : Nat} {result : Except Error Unit} {next : Engine σ × π}
    (ends : Ends engine policy left result next) :
    (play left engine policy).result = result.map (fun _ => 0) ∧
      (play left engine policy).next = next := by
  cases ends with
  | full => exact ⟨rfl, rfl⟩
  | terminal nothing => simp [Episode.play, nothing, Except.map]
  | declined live silent => simp [Episode.play, live, silent, Except.map]
  | failed live chosen rejected => simp [Episode.play, live, chosen, rejected, Except.map]

-- By induction on the rounds: each of them is one turn of the loop.
theorem Rounds.play {left : Nat} {result : Except Error Unit} {next : Engine σ × π}
    (rounds : Rounds engine policy actions last final) (ends : Ends last final left result next) :
    (play (actions.length + left) engine policy).result =
        result.map (fun _ => actions.length) ∧
      (play (actions.length + left) engine policy).next = next := by
  induction rounds with
  | none engine policy => simpa using ends.play
  | @next engine last policy policy' final action actions reward live chosen accepted later ih =>
    have ⟨played, reached⟩ := ih ends
    have turn : (action :: actions).length + left = (actions.length + left) + 1 := by
      rw [List.length_cons, Nat.add_right_comm]
    rw [turn]
    simp only [Episode.play, live, chosen, accepted, played, reached]
    cases result <;> simp [Except.map]

theorem Rounds.last_eq (rounds : Rounds engine policy actions last final) :
    last = engine.performAll (actions.map .transition) := by
  induction rounds with
  | none => rfl
  | next live chosen accepted later ih => exact ih

theorem Rounds.recorded (rounds : Rounds engine policy actions last final) :
    last.trajectory.actions = engine.trajectory.actions ++ actions := by
  induction rounds with
  | none => simp
  | next live chosen accepted later ih =>
    have step := (Engine.transition_recorded accepted).1
    rw [ih, step, List.append_assoc, List.singleton_append]

theorem Rounds.accepts (rounds : Rounds engine policy actions last final) :
    engine.Accepts actions := by
  induction rounds with
  | none => trivial
  | next live chosen accepted later ih => exact ⟨⟨_, accepted⟩, ih⟩

theorem exists_accepts_of_play {limit steps : Nat}
    (played : (Episode.play limit engine policy).result = .ok steps) :
    ∃ actions : List Action,
      (Episode.play limit engine policy).next.1 = engine.performAll (actions.map .transition) ∧
        engine.Accepts actions ∧ actions.length = steps := by
  have ⟨actions, last, final, left, result, next, rounds, ends, total⟩ :=
    exists_rounds limit engine policy
  have ⟨outcome, reached⟩ := rounds.play ends
  rw [total] at outcome reached
  have ⟨done, counted⟩ := map_eq_ok_iff.1 (outcome.symm.trans played)
  refine ⟨actions, ?_, rounds.accepts, counted.2⟩
  rw [reached, ends.next_of_ok counted.1, rounds.last_eq]

end

def planning (config : EpisodeConfig) : List Operation :=
  if config.plan then [.plan config.planningHorizon] else []

theorem planned_next (config : EpisodeConfig) (engine : Engine σ) :
    (planned config engine).next = engine.performAll (planning config) := by
  unfold planned planning
  split <;> rfl

theorem planned_consults (config : EpisodeConfig) (engine : Engine σ) :
    (planned config engine).next = engine ∨
      ∃ request, (planned config engine).next = engine.consulted request := by
  unfold planned
  split
  · exact .inr ⟨_, engine.optimalReturn_next config.planningHorizon⟩
  · exact .inl rfl

theorem planning_agrees (config : EpisodeConfig) (engine : Engine σ) :
    (engine.performAll (planning config)).AgreesWith engine := by
  rw [← planned_next]
  cases planned_consults config engine with
  | inl same =>
    rw [same]
    exact .rfl
  | inr asked =>
    have ⟨request, same⟩ := asked
    rw [same]
    exact .rfl

section

variable {config : EpisodeConfig} {engine : Engine σ}

theorem run_unplanned (policy : π) (episode : UInt64) {error : Error}
    (failed : (planned config engine).result = .error error) :
    (run config engine policy episode).result = .error error ∧
      (run config engine policy episode).next =
        (engine.performAll (planning config), Policy.beginEpisode episode policy) := by
  simp only [run, failed, planned_next]
  exact ⟨trivial, trivial⟩

theorem run_rejected (policy : π) (episode : UInt64) {optimal : Option Float} {error : Error}
    (planResult : (planned config engine).result = .ok optimal)
    (failed : (play config.maxLength (engine.performAll (planning config))
      (Policy.beginEpisode episode policy)).result = .error error) :
    (run config engine policy episode).result = .error error ∧
      (run config engine policy episode).next = (play config.maxLength
        (engine.performAll (planning config)) (Policy.beginEpisode episode policy)).next := by
  simp only [run, planResult, planned_next, failed]
  exact ⟨trivial, trivial⟩

theorem run_finished (policy : π) (episode : UInt64) {optimal : Option Float} {steps : Nat}
    {last : Engine σ} {final : π} {discounted : Float}
    (planResult : (planned config engine).result = .ok optimal)
    (played : (play config.maxLength (engine.performAll (planning config))
      (Policy.beginEpisode episode policy)).result = .ok steps)
    (reached : (play config.maxLength (engine.performAll (planning config))
      (Policy.beginEpisode episode policy)).next = (last, final))
    (computed : last.trajectory.discountedReturn last.config.discountRate = .ok discounted) :
    (run config engine policy episode).result =
        .ok ⟨episode, steps, discounted, last.trajectory.totalReward, optimal,
          decide last.GoalReached⟩ ∧
      (run config engine policy episode).next =
        (last, Policy.observe last.trajectory last.config.discountRate final) := by
  simp only [run, planResult, planned_next, played, reached, summary, computed]
  exact ⟨rfl, rfl⟩

end

end Episode

end DeclarativeMdp
