import DeclarativeMdp.Proofs.BlocksWorld.Planning
import DeclarativeMdp.Proofs.Engine.Earnings

set_option autoImplicit false

namespace DeclarativeMdp.BlocksWorld

def score (goal state : State) : Reward :=
  if State.Satisfies state goal then .ofFloat 100 else .ofFloat (-1)

theorem score_eq_goal_iff {goal state : State} :
    score goal state = .ofFloat 100 ↔ State.Satisfies state goal := by
  unfold score
  split
  next reached => simp [reached]
  next away => exact ⟨fun same => absurd same (by decide), fun reached => absurd reached away⟩

theorem ofFloat_earned (world : World) (goal : State) :
    Reward.ofFloat (Decimal.ofInteger (.ofInt (world.earned goal))) =
      score goal world.toState := by
  unfold World.earned score
  change Reward.ofFloat (Decimal.ofInteger (.ofInt
    (if State.Satisfies world.toState goal then goalReward else stepReward))) = _
  split <;> decide

def EndsAtGoal (goal : State) (states : List State) : Prop :=
  ∃ before last, states = before ++ [last] ∧ State.Satisfies last goal ∧
    ∀ state ∈ before, ¬ State.Satisfies state goal

def NeverAtGoal (goal : State) (states : List State) : Prop :=
  ∀ state ∈ states, ¬ State.Satisfies state goal

structure Scored (initial : State) (later : List State) (engine : Engine BlocksWorld)
    (world : World) : Prop where
  inWorld : InWorld engine world
  states : engine.trajectory.states = initial :: later
  rewards : engine.trajectory.rewards =
    none :: later.map fun state => some (score engine.goal state)
  course : NeverAtGoal engine.goal later ∨
    EndsAtGoal engine.goal later ∧ world.moves engine.goal = []

section

variable {engine : Engine BlocksWorld} {w : World} {initial : State} {later : List State}

theorem Scored.consulted (scored : Scored initial later engine w) (request : Request) :
    Scored initial later (engine.consulted request) w :=
  ⟨scored.inWorld.consulted request, scored.states, scored.rewards, scored.course⟩

theorem Scored.advance {move : Move} (scored : Scored initial later engine w) (action : Action)
    (possible : move ∈ w.moves engine.goal) :
    ∃ world, Scored initial (later ++ [(w.apply move).toState])
      (engine.advance action (w.successor engine.goal move)) world ∧
      world.Alike (w.apply move) := by
  obtain ⟨world, inWorld, alike⟩ := scored.inWorld.advance action possible
  have away : NeverAtGoal engine.goal later := by
    rcases scored.course with away | ⟨-, stuck⟩
    · exact away
    · simp [stuck] at possible
  refine ⟨world, ⟨inWorld, ?_, ?_, ?_⟩, alike⟩
  · simp [Engine.advance, Trajectory.push, scored.states, World.successor]
  · simp [Engine.advance, Trajectory.push, scored.rewards, World.successor, ofFloat_earned]
  · by_cases reached : State.Satisfies (w.apply move).toState engine.goal
    · refine .inr ⟨⟨later, _, rfl, reached, away⟩, World.moves_of_reaches ?_⟩
      exact alike.reaches_iff.2 reached
    · exact .inl (List.forall_mem_append.2 ⟨away, List.forall_mem_singleton.2 reached⟩)

theorem scored_invariant (initial : State) :
    Invariant fun engine world => ∃ later, Scored initial later engine world where
  inWorld _ _ holds := by
    obtain ⟨later, scored⟩ := holds
    exact scored.inWorld
  consulted _ _ request holds := by
    obtain ⟨later, scored⟩ := holds
    exact ⟨later, scored.consulted request⟩
  advance _ _ action _ holds possible := by
    obtain ⟨later, scored⟩ := holds
    obtain ⟨world, next, -⟩ := scored.advance action possible
    exact ⟨world, _, next⟩

theorem Scored.performAll (scored : Scored initial later engine w)
    (operations : List Operation) :
    ∃ states world, Scored initial states (engine.performAll operations) world := by
  obtain ⟨world, states, last⟩ :=
    (scored_invariant initial).performAll ⟨later, scored⟩ operations
  exact ⟨states, world, last⟩

theorem create_scored {goal : State} {programs : ProgramSet} {solver : BlocksWorld}
    {config : Config}
    (made : (Engine.create initial goal programs solver config).result = .ok engine) :
    ∃ world, Scored initial [] engine world := by
  obtain ⟨world, inWorld⟩ := create_inWorld made
  obtain ⟨-, available, -, rfl⟩ := Engine.create_eq_ok_iff.1 made
  exact ⟨world, inWorld, rfl, rfl, .inl (List.forall_mem_nil _)⟩

theorem total?_scores {goal : State} {states : List State} {rest : List Float} {sum : Int}
    (away : NeverAtGoal goal states) (added : total? rest = some sum) :
    total? ((states.map fun state => (score goal state).value) ++ rest) =
      some (sum - states.length) := by
  induction states with
  | nil => simpa using added
  | cons state states ih =>
    obtain ⟨first, others⟩ := List.forall_mem_cons.1 away
    have step : Decimal.whole? (score goal state).value = some (-1) := by
      rw [score, if_neg first]
      decide
    rw [List.map_cons, List.cons_append, total?, step, ih others]
    simp only [Option.bind_eq_bind, Option.bind_some, Option.pure_def, List.length_cons]
    congr 1
    omega

theorem Scored.exists_of_mem {reward : Reward} (scored : Scored initial later engine w)
    (recorded : some reward ∈ engine.trajectory.rewards) :
    ∃ state ∈ later, score engine.goal state = reward := by
  rw [scored.rewards] at recorded
  simpa using recorded

theorem Scored.endsAtGoal (scored : Scored initial later engine w)
    (recorded : some (.ofFloat 100) ∈ engine.trajectory.rewards) :
    EndsAtGoal engine.goal later ∧ w.moves engine.goal = [] := by
  obtain ⟨state, present, best⟩ := scored.exists_of_mem recorded
  exact scored.course.resolve_left fun away => away state present (score_eq_goal_iff.1 best)

theorem Scored.stops (scored : Scored initial later engine w)
    (recorded : some (.ofFloat 100) ∈ engine.trajectory.rewards) :
    engine.isTerminal = true ∧
      ∀ action reward, (engine.transition action).result ≠ .ok reward := by
  have stuck := (scored.endsAtGoal recorded).2
  constructor
  · exact scored.inWorld.isTerminal_iff.2 stuck
  · intro action reward accepted
    obtain ⟨-, successor, stepped, -⟩ := Engine.transition_eq_ok_iff.1 accepted
    obtain ⟨move, possible, -⟩ := scored.inWorld.stepAnswer stepped
    simp [stuck] at possible

end

structure Accounted (goal : State) (count : Nat) (run : Trajectory) : Prop where
  values : ∀ reward, some reward ∈ run.rewards → reward = .ofFloat (-1) ∨ reward = .ofFloat 100
  tells : ∀ (i : Nat) (reward : Reward), run.rewards[i]? = some (some reward) →
    ∃ state, run.states[i]? = some state ∧ (reward = .ofFloat 100 ↔ State.Satisfies state goal)
  last : ∀ i : Nat, run.rewards[i]? = some (some (.ofFloat 100)) → i + 1 = run.rewards.length
  total : total? ((run.rewards.filterMap id).map Reward.value) =
    some (if run.rewards.getLast? = some (some (.ofFloat 100)) then 101 - (count : Int) else -count)

section

variable {engine : Engine BlocksWorld} {w : World} {initial : State} {later : List State}

theorem Scored.exists_of_getElem? (scored : Scored initial later engine w) {i : Nat}
    {reward : Reward} (recorded : engine.trajectory.rewards[i]? = some (some reward)) :
    ∃ j state, i = j + 1 ∧ later[j]? = some state ∧ score engine.goal state = reward := by
  rw [scored.rewards] at recorded
  cases i with
  | zero => simp at recorded
  | succ j =>
    rw [List.getElem?_cons_succ, List.getElem?_map, Option.map_eq_some_iff] at recorded
    obtain ⟨state, there, same⟩ := recorded
    exact ⟨j, state, rfl, there, Option.some.inj same⟩

theorem Scored.last (scored : Scored initial later engine w) {i : Nat}
    (recorded : engine.trajectory.rewards[i]? = some (some (.ofFloat 100))) :
    i + 1 = engine.trajectory.rewards.length := by
  obtain ⟨⟨before, last, rfl, -, away⟩, -⟩ :=
    scored.endsAtGoal (List.mem_of_getElem? recorded)
  obtain ⟨j, state, rfl, there, best⟩ := scored.exists_of_getElem? recorded
  have inside : j < (before ++ [last]).length := (List.getElem?_eq_some_iff.1 there).1
  have final : before.length ≤ j := by
    by_contra early
    rw [List.getElem?_append_left (by omega)] at there
    exact away state (List.mem_of_getElem? there) (score_eq_goal_iff.1 best)
  rw [scored.rewards, List.length_cons, List.length_map]
  rw [List.length_append, List.length_singleton] at inside ⊢
  omega

theorem Scored.values (scored : Scored initial later engine w) :
    (engine.trajectory.rewards.filterMap id).map Reward.value =
      later.map fun state => (score engine.goal state).value := by
  rw [scored.rewards]
  simp [Function.comp_def]

theorem Scored.total (scored : Scored initial later engine w) :
    total? ((engine.trajectory.rewards.filterMap id).map Reward.value) =
      some (if engine.trajectory.rewards.getLast? = some (some (.ofFloat 100)) then
        101 - (later.length : Int) else -later.length) := by
  rw [scored.values]
  rcases scored.course with away | ⟨⟨before, last, rfl, reached, away⟩, -⟩
  · have worse : engine.trajectory.rewards.getLast? ≠ some (some (.ofFloat 100)) := by
      intro best
      obtain ⟨state, present, same⟩ := scored.exists_of_mem (List.mem_of_getLast? best)
      exact away state present (score_eq_goal_iff.1 same)
    rw [if_neg worse]
    have nothing : total? [] = some 0 := rfl
    simpa using total?_scores away nothing
  · have best : engine.trajectory.rewards.getLast? = some (some (.ofFloat 100)) := by
      rw [scored.rewards, List.map_append, List.map_singleton, ← List.cons_append,
        List.getLast?_concat, score_eq_goal_iff.2 reached]
    have final : total? [(score engine.goal last).value] = some 100 := by
      rw [score, if_pos reached]
      decide
    rw [if_pos best, List.map_append, List.map_singleton, total?_scores away final,
      List.length_append, List.length_singleton]
    congr 1
    omega

theorem Scored.accounted (scored : Scored initial later engine w) :
    Accounted engine.goal later.length engine.trajectory where
  values reward recorded := by
    obtain ⟨state, -, rfl⟩ := scored.exists_of_mem recorded
    unfold score
    split
    · exact .inr rfl
    · exact .inl rfl
  tells i reward recorded := by
    obtain ⟨j, state, rfl, there, rfl⟩ := scored.exists_of_getElem? recorded
    refine ⟨state, ?_, score_eq_goal_iff⟩
    rw [scored.states, List.getElem?_cons_succ, there]
  last i := scored.last
  total := scored.total

end

-- By induction on the operations: as long as the goal was not reached each step costs one, and
-- the step that reaches it is the last.
theorem rewards_tell_goal {engine : Engine BlocksWorld} {initial goal : State}
    {programs : ProgramSet} {solver : BlocksWorld} {config : Config}
    (made : (Engine.create initial goal programs solver config).result = .ok engine)
    (operations : List Operation) :
    let last := engine.performAll operations
    let earned := engine.earnings operations
    last.trajectory.rewards = none :: earned.map (fun reward => some (.ofFloat reward)) ∧
      Accounted goal earned.length last.trajectory ∧
      (some (.ofFloat 100) ∈ last.trajectory.rewards → ∀ later,
        (last.performAll later).isTerminal = true ∧
          ∀ action reward, ((last.performAll later).transition action).result ≠ .ok reward) := by
  intro last earned
  have recorded := Engine.create_rewards made operations
  obtain ⟨world, start⟩ := create_scored made
  obtain ⟨states, final, scored⟩ := start.performAll operations
  have consistent := (Engine.create_consistent made).performAll operations
  have counted : states.length = earned.length := by
    have lengths := congrArg List.length (scored.rewards.symm.trans recorded)
    simpa using lengths
  refine ⟨recorded, ?_, fun best later => ?_⟩
  · rw [← counted, ← consistent.goal_kept]
    exact scored.accounted
  · obtain ⟨states', final', scored'⟩ := scored.performAll later
    exact scored'.stops ((Engine.performAll_extends _ later).2.2.subset best)

theorem rewards_tell_goal_tower :
    ∃ engine : Engine BlocksWorld, engine.state = tower "a" "b" ∧
      let last := engine.performAll attempts
      Accounted (reversed "a" "b") (engine.earnings attempts).length last.trajectory ∧
        (some (.ofFloat 100) ∈ last.trajectory.rewards → last.isTerminal = true) := by
  have a : IsConstant "a" := by decide
  have b : IsConstant "b" := by decide
  obtain ⟨engine, made, stands, -⟩ := exists_tower a.isBlock b.isBlock (by decide) default
  obtain ⟨-, accounted, stops⟩ := rewards_tell_goal made attempts
  exact ⟨engine, stands, accounted, fun best => (stops best []).1⟩

end DeclarativeMdp.BlocksWorld
