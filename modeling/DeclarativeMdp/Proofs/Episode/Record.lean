import DeclarativeMdp.Proofs.BlocksWorld.Legality
import DeclarativeMdp.Proofs.BlocksWorld.Rewards
import DeclarativeMdp.Proofs.Episode.Rounds
import Mathlib

set_option autoImplicit false

namespace DeclarativeMdp

-- Only the whole library knows that a floating-point number comes back from its bits.
theorem Reward.value_ofFloat (value : Float) : (Reward.ofFloat value).value = value :=
  value.ofBits_toBits

theorem Record.returnGap_eq {record : Record} {opt : Float}
    (planned : record.optimalReturn = some opt) :
    record.returnGap = some (opt - record.totalReward) := by
  rw [Record.returnGap, planned]
  rfl

theorem Engine.Accepts.earnings_length {σ : Type} [Solver σ] {engine : Engine σ}
    {actions : List Action} (accepted : engine.Accepts actions) :
    (engine.earnings (actions.map .transition)).length = actions.length := by
  induction actions generalizing engine with
  | nil => rfl
  | cons action rest ih =>
    have ⟨⟨reward, done⟩, others⟩ := accepted
    rw [List.map_cons, Engine.earnings, Engine.earned?, done, List.length_append]
    change 1 + ((engine.transition action).next.earnings _).length = _
    rw [ih others, List.length_cons, Nat.add_comm]

namespace Episode

-- From left to right, as it is rounded after each step.
def sum (values : List Float) : Float := values.foldl (fun total value => total + value) (-0.0)

theorem totalReward_eq_sum (run : Trajectory) :
    run.totalReward = sum ((run.rewards.filterMap id).map Reward.value) := by
  rw [Trajectory.totalReward, sum, List.foldl_map]

variable {σ π : Type} [Solver σ] [Policy π]

section

variable {config : EpisodeConfig} {engine : Engine σ} {policy : π} {episode : UInt64}
  {record : Record}

structure DescribesRun (config : EpisodeConfig) (engine last : Engine σ) (actions : List Action)
    (record : Record) : Prop where
  last_eq : last = engine.performAll (planning config ++ actions.map .transition)
  steps : record.steps = actions.length
  earnings : (engine.earnings (planning config ++ actions.map .transition)).length = record.steps
  planned : (planned config engine).result = .ok record.optimalReturn
  total : record.totalReward = last.trajectory.totalReward
  reached : record.reachedGoal = decide last.GoalReached

theorem earnings_append (engine : Engine σ) (earlier later : List Operation) :
    engine.earnings (earlier ++ later) =
      engine.earnings earlier ++ (engine.performAll earlier).earnings later := by
  induction earlier generalizing engine with
  | nil => rfl
  | cons operation rest ih =>
    rw [List.cons_append, Engine.earnings, Engine.earnings, ih, List.append_assoc]
    rfl

theorem earnings_planning (config : EpisodeConfig) (engine : Engine σ) :
    engine.earnings (planning config) = [] := by
  unfold planning
  split <;> rfl

theorem exists_of_run (ran : (run config engine policy episode).result = .ok record) :
    ∃ actions,
      DescribesRun config engine (run config engine policy episode).next.1 actions record := by
  revert ran
  unfold run
  dsimp only
  split
  next => exact fun failed => nomatch failed
  next optimal planned =>
    split
    next => exact fun failed => nomatch failed
    next steps played =>
      split
      next => exact fun failed => nomatch failed
      next summarized computed =>
        intro ran
        obtain rfl := Except.ok.inj ran
        obtain ⟨actions, last, accepted, counted⟩ := exists_accepts_of_play played
        have earned := accepted.earnings_length.trans counted
        obtain ⟨discounted, -, same⟩ := bind_eq_ok_iff.1 computed
        obtain rfl := Except.ok.inj same
        refine ⟨actions, ?_, counted.symm, ?_, planned, rfl, rfl⟩
        · rw [Engine.performAll_append, ← planned_next]
          exact last
        · rw [earnings_append, earnings_planning, ← planned_next]
          exact earned

theorem optimalReturn_of_planned {opt : Float}
    (planResult : (planned config engine).result = .ok (some opt)) :
    (engine.optimalReturn config.planningHorizon).result = .ok opt := by
  unfold planned at planResult
  split at planResult
  next =>
    obtain ⟨value, answered, same⟩ := map_eq_ok_iff.1 planResult
    rwa [Option.some.inj same] at answered
  next => exact nomatch planResult

theorem exists_run_of_no_steps (policy : π) (episode : UInt64) {optimal : Option Float}
    (valid : engine.trajectory.Valid) (short : config.maxLength = 0)
    (planResult : (planned config engine).result = .ok optimal) :
    ∃ discounted, (run config engine policy episode).result =
      .ok ⟨episode, 0, discounted, engine.trajectory.totalReward, optimal,
        decide engine.GoalReached⟩ := by
  obtain ⟨discounted, computed⟩ :=
    valid.exists_discountedReturn engine.config.discountRate
  refine ⟨discounted, ?_⟩
  have agrees := planning_agrees config engine
  have computed' : (engine.performAll (planning config)).trajectory.discountedReturn
      (engine.performAll (planning config)).config.discountRate = .ok discounted := by
    rw [agrees.samePlace.trajectory, agrees.config, computed]
  have unplayed : play config.maxLength (engine.performAll (planning config))
      (Policy.beginEpisode episode policy) =
        ⟨.ok 0, [], engine.performAll (planning config), Policy.beginEpisode episode policy⟩ := by
    rw [short]
    rfl
  have reached : (engine.performAll (planning config)).GoalReached ↔ engine.GoalReached := by
    unfold Engine.GoalReached
    rw [agrees.samePlace.state, agrees.samePlace.goal]
  have ran :=
    (run_finished policy episode planResult (by rw [unplayed]) (by rw [unplayed]) computed').1
  rw [ran, agrees.samePlace.trajectory, decide_eq_decide.2 reached]

theorem run_totalReward (ran : (run config engine policy episode).result = .ok record) :
    ∃ actions : List Action,
      let operations := planning config ++ actions.map .transition
      let earned := engine.earnings operations
      (run config engine policy episode).next.1 = engine.performAll operations ∧
        (engine.performAll (planning config)).state = engine.state ∧
        actions.length = record.steps ∧ earned.length = record.steps ∧
        record.totalReward =
          sum ((engine.trajectory.rewards.filterMap id).map Reward.value ++ earned) ∧
        (engine.trajectory.rewards.filterMap id = [] → record.totalReward = sum earned) ∧
        (∀ gap, record.returnGap = some gap →
          ∃ opt, (engine.optimalReturn config.planningHorizon).result = .ok opt ∧
            gap = opt - record.totalReward) := by
  obtain ⟨actions, last, steps, counted, planned, total, -⟩ := exists_of_run ran
  have recorded := engine.performAll_rewards (planning config ++ actions.map .transition)
  have sums : record.totalReward = sum ((engine.trajectory.rewards.filterMap id).map Reward.value ++
      engine.earnings (planning config ++ actions.map .transition)) := by
    rw [total, last, totalReward_eq_sum, recorded]
    simp [Function.comp_def, Reward.value_ofFloat]
  have stays : (engine.performAll (planning config)).state = engine.state := by
    rw [← planned_next]
    rcases planned_consults config engine with same | ⟨request, same⟩ <;> rw [same]
    rfl
  refine ⟨actions, last, stays, steps.symm, counted, sums, fun nothing => ?_,
    fun gap compared => ?_⟩
  · rw [sums, nothing]
    rfl
  · obtain ⟨opt, planResult, rfl⟩ := Option.map_eq_some_iff.1 compared
    rw [planResult] at planned
    exact ⟨opt, optimalReturn_of_planned planned, rfl⟩

end

section

open BlocksWorld

theorem exists_moved :
    ∃ engine : Engine BlocksWorld, engine.Reachable ∧ engine.trajectory.Valid ∧
      ∃ state w, Scored (tower "a" "b") [state] engine w := by
  have a : IsConstant "a" := by decide
  have b : IsConstant "b" := by decide
  let down : Action := .ofTerm (Move.term ⟨"a", table⟩)
  obtain ⟨engine, made, -, -, offered⟩ := exists_tower a.isBlock b.isBlock (by decide) default
  obtain ⟨w, scored⟩ := create_scored made
  have named : (Term.function "move" [.symbol "a", .symbol table]).WellNamed := by
    simp only [Term.WellNamed, Term.AllWellNamed]
    decide
  obtain ⟨move, possible, meant⟩ :=
    accepted_of_offered scored.inWorld offered ⟨"a", table, Action.term_ofTerm named⟩
  have stepResult := stepAnswer_of_mem_moves scored.inWorld.read possible meant
  have moved := (Engine.transition_advanced (fun refused => refused.2 offered) stepResult).2
  obtain ⟨world, next, -⟩ :=
    (scored.consulted (engine.transitionRequest down)).advance down possible
  have consistent := (Engine.create_consistent made).perform (.transition down)
  have stepped : Scored (tower "a" "b") [(w.apply move).toState]
      (engine.perform (.transition down)) world := by
    rw [Engine.perform, moved]
    exact next
  exact ⟨_, (Engine.Reachable.created made).performed _, consistent.valid, _, world, stepped⟩

theorem run_totalReward_moved :
    ∃ (engine : Engine BlocksWorld) (record : Record),
      (run ⟨0, false, none⟩ engine (Script.mk []) 0).result = .ok record ∧
        ∃ actions : List Action, actions.length = record.steps ∧ record.totalReward =
          sum ((engine.trajectory.rewards.filterMap id).map Reward.value ++
            engine.earnings (actions.map .transition)) := by
  obtain ⟨engine, -, valid, -⟩ := exists_moved
  have unplanned : (planned ⟨0, false, none⟩ engine).result = .ok none := rfl
  obtain ⟨discounted, ran⟩ := exists_run_of_no_steps (Script.mk []) 0 valid rfl unplanned
  obtain ⟨actions, -, -, counted, -, total, -⟩ := run_totalReward ran
  exact ⟨engine, _, ran, actions, counted, total⟩

theorem totalReward_ne_sum_of_moved :
    ∃ (engine : Engine BlocksWorld) (record : Record), engine.Reachable ∧
      (run ⟨0, false, none⟩ engine (Script.mk []) 0).result = .ok record ∧ record.steps = 0 ∧
      record.totalReward ≠ sum [] := by
  obtain ⟨engine, reachable, valid, state, w, scored⟩ := exists_moved
  have unplanned : (planned ⟨0, false, none⟩ engine).result = .ok none := rfl
  obtain ⟨discounted, ran⟩ := exists_run_of_no_steps (Script.mk []) 0 valid rfl unplanned
  refine ⟨engine, _, reachable, ran, rfl, ?_⟩
  change engine.trajectory.totalReward ≠ _
  rw [totalReward_eq_sum, scored.rewards]
  simp only [List.filterMap_cons, List.map_cons, List.map_nil, List.filterMap_nil, id]
  unfold score
  split
  · rw [Reward.value_ofFloat]
    decide
  · rw [Reward.value_ofFloat]
    decide

end

end Episode

end DeclarativeMdp
