import DeclarativeMdp.Proofs.BlocksWorld.Piles
import DeclarativeMdp.Proofs.Decimal.Whole
import DeclarativeMdp.Proofs.Episode.Record

set_option autoImplicit false

namespace DeclarativeMdp.BlocksWorld

open World

structure ScoredPath (start : World) (initial : State) (later : List State)
    (engine : Engine BlocksWorld) (world : World) : Prop
    extends Scored initial later engine world where
  stands : engine.state = later.getLastD initial
  written : later ≠ [] → world.toState = engine.state
  ahead : ∀ count, Within engine.goal count world → Within engine.goal (later.length + count) start

section

variable {engine : Engine BlocksWorld} {w start : World} {initial : State} {later : List State}

theorem ScoredPath.consulted (scoredPath : ScoredPath start initial later engine w)
    (request : Request) : ScoredPath start initial later (engine.consulted request) w :=
  ⟨scoredPath.toScored.consulted request, scoredPath.stands, scoredPath.written, scoredPath.ahead⟩

theorem ScoredPath.advance {move : Move} (scoredPath : ScoredPath start initial later engine w)
    (action : Action) (possible : move ∈ w.moves engine.goal) :
    ∃ world, ScoredPath start initial (later ++ [(w.apply move).toState])
      (engine.advance action (w.successor engine.goal move)) world := by
  obtain ⟨world, scored, alike⟩ := scoredPath.toScored.advance action possible
  refine ⟨world, scored, ?_, fun _ => alike.toState_eq, fun count within => ?_⟩
  · rw [List.getLastD_concat]
    rfl
  · have before : Within engine.goal (count + 1) w :=
      ⟨move, possible, within.of_alike alike scored.inWorld.proper
        (scoredPath.inWorld.proper.apply possible)⟩
    rw [List.length_append, List.length_singleton, Nat.add_assoc, Nat.add_comm 1]
    exact scoredPath.ahead (count + 1) before

theorem scoredPath_invariant (start : World) (initial : State) :
    Invariant fun engine world => ∃ later, ScoredPath start initial later engine world where
  inWorld _ _ holds := by
    obtain ⟨later, scoredPath⟩ := holds
    exact scoredPath.inWorld
  consulted _ _ request holds := by
    obtain ⟨later, scoredPath⟩ := holds
    exact ⟨later, scoredPath.consulted request⟩
  advance _ _ action _ holds possible := by
    obtain ⟨later, scoredPath⟩ := holds
    obtain ⟨world, next⟩ := scoredPath.advance action possible
    exact ⟨world, _, next⟩

theorem create_scoredPath {goal : State} {programs : ProgramSet} {solver : BlocksWorld}
    {config : Config}
    (made : (Engine.create initial goal programs solver config).result = .ok engine) :
    ∃ start, World.ofState initial = .ok start ∧ ScoredPath start initial [] engine start := by
  obtain ⟨start, scored⟩ := create_scored made
  obtain ⟨-, available, -, rfl⟩ := Engine.create_eq_ok_iff.1 made
  refine ⟨start, scored.inWorld.read, scored, rfl, fun none => absurd rfl none, fun count => ?_⟩
  rw [List.length_nil, Nat.zero_add]
  exact id

-- A state is compared with the goal text by text. The texts of a goal that can be reached are the
-- texts that a world writes.
theorem reaches_of_satisfies {goal : State} {count : Nat} (buildable : Buildable (Says initial))
    (read : ofState initial = .ok start) (within : Within goal count start)
    (reached : State.Satisfies initial goal) : start.Reaches goal := by
  have same := buildable.holds_eq read
  have startBuildable := buildable.of_read read
  obtain ⟨v, walk, vReaches⟩ := within.exists_walk startBuildable.proper
  have vProper := (walk.buildable startBuildable).proper
  intro fact wanted
  obtain ⟨f, holds, rfl⟩ := mem_toState.1 (vReaches fact wanted)
  have stated : Says initial f := ⟨f.fact, reached _ wanted, (vProper.named f holds).read_fact⟩
  exact mem_toState.2 ⟨f, by rwa [same], rfl⟩

theorem isInteger_planReturn {count : Nat} (short : count < UInt32.size) :
    Decimal.IsInteger (Decimal.ofInteger (.ofInt (planReturn count))) (planReturn count) := by
  have bounds := planReturn_bounds short
  simp only [UInt32.size] at bounds
  have value := planReturn_toInt short
  have whole := @Decimal.isInteger_ofInteger (.ofInt (planReturn count)) (by omega)
  rwa [value] at whole

theorem map_score_of_away {goal : State} {states : List State} (away : NeverAtGoal goal states) :
    (states.map fun state => (score goal state).value) = List.replicate states.length (-1) := by
  rw [List.eq_replicate_iff, List.length_map]
  refine ⟨rfl, fun value present => ?_⟩
  obtain ⟨state, there, rfl⟩ := List.mem_map.1 present
  rw [score, if_neg (away state there), Reward.value_ofFloat]

-- Minus one for each step, down to where one less makes no difference any more.
theorem isInteger_sum_of_away {goal : State} {states : List State}
    (away : NeverAtGoal goal states) :
    Decimal.IsInteger (Episode.sum (states.map fun state => (score goal state).value))
      (-(min states.length (2 ^ 53) : Nat)) := by
  rw [map_score_of_away away]
  exact Decimal.isInteger_foldl_replicate Decimal.isInteger_minus_one _

theorem isInteger_sum_of_endsAtGoal {goal : State} {states : List State}
    (ends : EndsAtGoal goal states) :
    Decimal.IsInteger (Episode.sum (states.map fun state => (score goal state).value))
      (100 - (min (states.length - 1) (2 ^ 53) : Nat)) := by
  obtain ⟨before, last, rfl, reached, away⟩ := ends
  have best : (score goal last).value = 100 := by
    rw [score, if_pos reached, Reward.value_ofFloat]
  have sum := (isInteger_sum_of_away away).add Decimal.isInteger_hundred (by omega)
  rw [List.map_append, List.map_singleton, Episode.sum, List.foldl_append, List.foldl_cons,
    List.foldl_nil, best, List.length_append, List.length_singleton, Nat.add_sub_cancel]
  rwa [Int.add_comm, ← Int.sub_eq_add_neg] at sum

theorem ScoredPath.totalReward_eq (scoredPath : ScoredPath start initial later engine w) :
    engine.trajectory.totalReward =
      Episode.sum (later.map fun state => (score engine.goal state).value) := by
  rw [Episode.totalReward_eq_sum, scoredPath.values]

theorem ScoredPath.state_eq {last : State}
    (scoredPath : ScoredPath start initial (later ++ [last]) engine w) : engine.state = last :=
  scoredPath.stands.trans List.getLastD_concat

theorem ScoredPath.within (scoredPath : ScoredPath start initial later engine w)
    (stepped : later ≠ []) (reached : engine.GoalReached) :
    Within engine.goal later.length start := by
  have here : w.Reaches engine.goal := by
    rw [Reaches, scoredPath.written stepped]
    exact reached
  exact scoredPath.ahead 0 here

-- No plan is longer than a run that came to the goal. A run that did not come to it falls behind
-- the plan when it has cost as much.
theorem ScoredPath.exists_total (scoredPath : ScoredPath start initial later engine w)
    (buildable : Buildable (Says initial)) (read : ofState initial = .ok start) {count : Nat}
    (short : count < UInt32.size)
    (least : IsLeast { count | Within engine.goal count start } count) :
    ∃ total : Int, Decimal.IsInteger engine.trajectory.totalReward total ∧ total ≤ 100 ∧
      (total ≤ planReturn count ↔
        engine.GoalReached ∨ -(later.length : Int) ≤ planReturn count) := by
  have bounds := planReturn_bounds short
  simp only [UInt32.size] at bounds
  rw [scoredPath.totalReward_eq]
  rcases scoredPath.course with away | ⟨ends, -⟩
  · refine ⟨_, isInteger_sum_of_away away, by omega, ?_⟩
    rcases List.eq_nil_or_concat' later with rfl | ⟨before, last, rfl⟩
    · have nothing (reached : engine.GoalReached) : count = 0 := by
        rw [Engine.GoalReached, scoredPath.stands] at reached
        exact least.1.count_eq_zero (reaches_of_satisfies buildable read least.1 reached)
      rw [List.length_nil]
      constructor
      · exact fun above => .inr (by omega)
      · rintro (reached | costs)
        · rw [nothing reached]
          decide
        · omega
    · have stopped : ¬ engine.GoalReached := by
        rw [Engine.GoalReached, scoredPath.state_eq]
        exact away last (by simp)
      simp only [stopped, false_or]
      omega
  · refine ⟨_, isInteger_sum_of_endsAtGoal ends, by omega, ?_⟩
    obtain ⟨before, last, rfl, reached, -⟩ := ends
    have done : engine.GoalReached := by
      rw [Engine.GoalReached, scoredPath.state_eq]
      exact reached
    have within := scoredPath.within (by simp) done
    have fewer : count ≤ (before ++ [last]).length := least.2 within
    have positive : count ≠ 0 := by
      rintro rfl
      have none := within.count_eq_zero least.1
      simp at none
    obtain ⟨moves, rfl⟩ := Nat.exists_eq_succ_of_ne_zero positive
    rw [Nat.succ_eq_add_one, planReturn_succ] at bounds ⊢
    simp only [done, true_or, iff_true]
    omega

end

theorem exists_run_of_naming {name : Nat → String} {last : Nat} {horizon : UInt32}
    (naming : Naming name last) (far : 2 * (last + 1) ≤ horizon.toNat) :
    ∃ (engine : Engine BlocksWorld) (record : Record) (count : Nat),
      (Engine.create (piled name last) (upended name last) default start .standard).result =
          .ok engine ∧
        (Episode.run ⟨0, true, some horizon⟩ engine (Script.mk []) 0).result = .ok record ∧
        record.optimalReturn = some (Decimal.ofInteger (.ofInt (planReturn count))) ∧
        last ≤ count ∧ count < UInt32.size ∧ Decimal.IsInteger record.totalReward 0 := by
  obtain ⟨engine, count, made, high, short, planResult⟩ := naming.exists_engine far
  have planned : (Episode.planned ⟨0, true, some horizon⟩ engine).result =
      .ok (some (Decimal.ofInteger (.ofInt (planReturn count)))) :=
    congrArg (Except.map some) planResult
  have valid := (Engine.create_consistent made).valid
  obtain ⟨discounted, ran⟩ := Episode.exists_run_of_no_steps (Script.mk []) 0 valid rfl planned
  refine ⟨engine, _, count, made, ran, rfl, high, short, ?_⟩
  obtain ⟨w, -, scoredPath⟩ := create_scoredPath made
  rw [scoredPath.totalReward_eq]
  exact Decimal.isInteger_negative_zero

section

variable {engine : Engine BlocksWorld} {initial goal : State} {programs : ProgramSet}
  {solver : BlocksWorld} {config : Config} {π : Type} [Policy π] {policy : π}
  {limits : EpisodeConfig} {episode : UInt64} {record : Record}

theorem exists_scoredPath_of_run
    (made : (Engine.create initial goal programs solver config).result = .ok engine)
    (ran : (Episode.run limits engine policy episode).result = .ok record) :
    ∃ start later world, World.ofState initial = .ok start ∧
      ScoredPath start initial [] engine start ∧
      ScoredPath start initial later (Episode.run limits engine policy episode).next.1 world ∧
      later.length = record.steps ∧
      (Episode.run limits engine policy episode).next.1.goal = engine.goal := by
  obtain ⟨actions, last, -, counted, -⟩ := Episode.exists_of_run ran
  obtain ⟨start, read, scoredPath⟩ := create_scoredPath made
  rw [last]
  generalize Episode.planning limits ++ actions.map .transition = operations at counted
  obtain ⟨world, later, run⟩ :=
    (scoredPath_invariant start initial).performAll ⟨[], scoredPath⟩ operations
  have lengths := congrArg List.length
    (run.rewards.symm.trans (Engine.create_rewards made operations))
  simp only [List.length_cons, List.length_map, Nat.succ.injEq, counted] at lengths
  have consistent := Engine.create_consistent made
  exact ⟨start, later, world, read, scoredPath, run, lengths,
    (consistent.performAll operations).goal_kept.trans consistent.goal_kept.symm⟩

theorem totalReward_le_optimalReturn_iff {opt : Float}
    (made : (Engine.create initial goal programs solver config).result = .ok engine)
    (buildable : Buildable (Says initial))
    (ran : (Episode.run limits engine policy episode).result = .ok record)
    (planned : record.optimalReturn = some opt) :
    ∃ best : Int64, opt = Decimal.ofInteger best ∧
      (record.totalReward ≤ opt ↔
        record.reachedGoal = true ∨ -(record.steps : Int) ≤ best.toInt) ∧
      (0.0 ≤ opt → record.totalReward ≤ opt) ∧
      ∃ gap, record.returnGap = some gap ∧ (0.0 ≤ gap ↔ record.totalReward ≤ opt) := by
  obtain ⟨start, later, world, read, fresh, scoredPath, counted, kept⟩ :=
    exists_scoredPath_of_run made ran
  obtain ⟨-, -, -, -, planResult, total, reached⟩ := Episode.exists_of_run ran
  rw [planned] at planResult
  obtain ⟨count, short, least, rfl⟩ :=
    exists_least_of_optimalReturn fresh.inWorld (Episode.optimalReturn_of_planned planResult)
  obtain ⟨sum, whole, small, compared⟩ :=
    scoredPath.exists_total buildable read short (by rwa [kept])
  rw [← total] at whole
  have best := isInteger_planReturn short
  have bounds := planReturn_bounds short
  simp only [UInt32.size] at bounds
  have value := planReturn_toInt short
  have above : record.totalReward ≤ Decimal.ofInteger (.ofInt (planReturn count)) ↔
      record.reachedGoal = true ∨ -(record.steps : Int) ≤ planReturn count := by
    rw [whole.le_iff best, compared, reached, decide_eq_true_iff, counted]
  refine ⟨_, rfl, by rwa [value], fun nonnegative => above.2 (.inr ?_), _,
    Record.returnGap_eq planned, best.zero_le_sub_iff whole (by omega)⟩
  have := (Decimal.isInteger_zero.le_iff best).1 nonnegative
  omega

end

theorem totalReward_le_optimalReturn_iff_pile :
    ∃ (engine : Engine BlocksWorld) (record : Record) (opt : Float),
      (Engine.create (piled tally 1) (upended tally 1) default start .standard).result =
          .ok engine ∧
      (Episode.run ⟨0, true, some 4⟩ engine (Script.mk []) 0).result = .ok record ∧
      record.optimalReturn = some opt ∧ (0.0 ≤ opt → record.totalReward ≤ opt) := by
  have naming := naming_tally 1
  obtain ⟨engine, record, count, made, ran, planned, -⟩ :=
    @exists_run_of_naming _ _ 4 naming (by decide)
  have buildable := naming.wellFormed.buildable
  obtain ⟨-, -, -, above, -⟩ := totalReward_le_optimalReturn_iff made buildable ran planned
  exact ⟨engine, record, _, made, ran, planned, above⟩

theorem optimalReturn_lt_totalReward_of_pile :
    ∃ (engine : Engine BlocksWorld) (record : Record) (opt gap : Float),
      WellFormed (piled tally 102) ∧
      (Engine.create (piled tally 102) (upended tally 102) default start .standard).result =
          .ok engine ∧
      (Episode.run ⟨0, true, some 206⟩ engine (Script.mk []) 0).result = .ok record ∧
      record.optimalReturn = some opt ∧ ¬ record.totalReward ≤ opt ∧
      record.returnGap = some gap ∧ ¬ 0.0 ≤ gap := by
  have naming := naming_tally 102
  obtain ⟨engine, record, count, made, ran, planned, high, short, nothing⟩ :=
    @exists_run_of_naming _ _ 206 naming (by decide)
  have bounds := planReturn_bounds short
  simp only [UInt32.size] at bounds
  have low : planReturn count ≤ -1 := by
    obtain ⟨moves, rfl⟩ := Nat.exists_eq_succ_of_ne_zero (show count ≠ 0 by omega)
    rw [Nat.succ_eq_add_one, planReturn_succ]
    omega
  have best := isInteger_planReturn short
  have below : ¬ record.totalReward ≤ Decimal.ofInteger (.ofInt (planReturn count)) := by
    rw [nothing.le_iff best]
    omega
  refine ⟨engine, record, _, _, naming.wellFormed, made, ran, planned, below,
    Record.returnGap_eq planned, ?_⟩
  rw [best.zero_le_sub_iff nothing (by omega)]
  exact below

end DeclarativeMdp.BlocksWorld
