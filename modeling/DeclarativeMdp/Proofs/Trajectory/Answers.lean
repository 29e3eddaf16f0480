import DeclarativeMdp.Proofs.Except
import DeclarativeMdp.Proofs.Trajectory.History

set_option autoImplicit false

namespace DeclarativeMdp.Trajectory

structure Recorded (run : Trajectory) (moment : Nat) (item : Step) : Prop where
  state : run.states[moment]? = some item.state
  action : run.actions[moment]? = some item.action
  reward : ∃ reward, run.rewards[moment + 1]? = some (some reward) ∧ item.reward = reward.value
  nextState : run.states[moment + 1]? = some item.nextState

structure Answers (run : Trajectory) : Prop where
  initialState : ∃ state, run.initialState = .ok state ∧ run.states.head? = some state
  lastState : ∃ state, run.lastState = .ok state ∧ run.states.getLast? = some state
  steps : ∃ items, run.steps = .ok items ∧ items.length + 1 = run.states.length ∧
    ∀ (moment : Nat) (item : Step), items[moment]? = some item → run.Recorded moment item
  returnHistory : ∀ discount, ∃ history, run.returnHistory discount = .ok history
  discountedReturn : ∀ discount, ∃ value, run.discountedReturn discount = .ok value

theorem exists_stepsFrom {states : List State} {actions : List Action}
    {rewards : List (Option Reward)} (long : states.length = actions.length + 1)
    (paid : rewards.length = actions.length) :
    ∃ items, stepsFrom states actions rewards = .ok items ∧ items.length = actions.length ∧
      ∀ (moment : Nat) (item : Step), items[moment]? = some item →
        states[moment]? = some item.state ∧ actions[moment]? = some item.action ∧
          rewards[moment]?.map rewardValue = some item.reward ∧
          states[moment + 1]? = some item.nextState := by
  induction actions generalizing states rewards with
  | nil => exact ⟨[], by unfold stepsFrom; rfl, rfl, fun moment item there => by simp at there⟩
  | cons action actions ih =>
    match states, rewards, long, paid with
    | state :: next :: states, reward :: rewards, long, paid =>
      have long' : (next :: states).length = actions.length + 1 := by simpa using long
      have paid' : rewards.length = actions.length := by simpa using paid
      obtain ⟨items, made, same, each⟩ := ih long' paid'
      refine ⟨⟨state, action, rewardValue reward, next⟩ :: items, ?_, by simp [same], ?_⟩
      · rw [stepsFrom, made]
        rfl
      · intro moment item there
        cases moment with
        | zero =>
          obtain rfl := Option.some.inj there
          exact ⟨rfl, rfl, rfl, rfl⟩
        | succ moment => exact each moment item there

theorem Valid.exists_steps {run : Trajectory} (valid : run.Valid) :
    ∃ items, run.steps = .ok items ∧ items.length + 1 = run.states.length ∧
      ∀ (moment : Nat) (item : Step), items[moment]? = some item → run.Recorded moment item := by
  obtain ⟨rewardsLength, statesLength, first, later⟩ := valid
  have paid : (run.rewards.drop 1).length = run.actions.length := by
    rw [List.length_drop]
    omega
  obtain ⟨items, made, same, each⟩ := exists_stepsFrom statesLength paid
  refine ⟨items, made, by omega, fun moment item there => ?_⟩
  obtain ⟨state, action, earned, next⟩ := each moment item there
  obtain ⟨reward, recorded, value⟩ := Option.map_eq_some_iff.1 earned
  cases reward with
  | none =>
    rw [List.drop_one] at recorded
    exact absurd rfl (later none (List.mem_of_getElem? recorded))
  | some reward =>
    rw [List.getElem?_drop, Nat.add_comm] at recorded
    exact ⟨state, action, ⟨reward, recorded, value.symm⟩, next⟩

theorem Valid.answers {run : Trajectory} (valid : run.Valid) : run.Answers where
  initialState := by
    cases states : run.states with
    | nil => simpa [states] using valid.states_length
    | cons state rest => exact ⟨state, by rw [Trajectory.initialState, states]; rfl, rfl⟩
  lastState := by
    cases last : run.states.getLast? with
    | none => simpa [List.getLast?_eq_none_iff.1 last] using valid.states_length
    | some state => exact ⟨state, by rw [Trajectory.lastState, last], rfl⟩
  steps := valid.exists_steps
  returnHistory := valid.exists_returnHistory
  discountedReturn := valid.exists_discountedReturn

inductive Flawed (run : Trajectory) : SnapshotFlaw → Prop
  | noInitialState (empty : run.states = []) : Flawed run .noInitialState
  | lengths (filled : run.states ≠ [])
      (uneven : run.states.length ≠ run.rewards.length ∨
        run.states.length ≠ run.actions.length + 1) :
      Flawed run (.lengths run.states.length run.actions.length run.rewards.length)
  | misplacedReward (filled : run.states ≠ [])
      (rewardsEven : run.states.length = run.rewards.length)
      (actionsEven : run.states.length = run.actions.length + 1)
      (misplaced : run.rewards.head? ≠ some none ∨ none ∈ run.rewards.tail) :
      Flawed run .misplacedReward

theorem marks_misplaced_iff {rewards : List (Option Reward)} (filled : rewards ≠ []) :
    ((rewards.take 1).any Option.isSome = true ∨ (rewards.drop 1).any Option.isNone = true) ↔
      (rewards.head? ≠ some none ∨ none ∈ rewards.tail) := by
  cases rewards with
  | nil => exact absurd rfl filled
  | cons first later => cases first <;> simp

theorem Flawed.check_eq {run : Trajectory} {flaw : SnapshotFlaw} (flawed : run.Flawed flaw) :
    run.check = .error (.corruptSnapshot flaw) := by
  unfold check
  cases flawed with
  | noInitialState empty => rw [if_pos (List.isEmpty_iff.2 empty)]
  | lengths filled uneven => rw [if_neg (mt List.isEmpty_iff.1 filled), if_pos uneven]
  | misplacedReward filled rewardsEven actionsEven misplaced =>
    have present : run.rewards ≠ [] := fun none => filled <| by simpa [none] using rewardsEven
    rw [if_neg (mt List.isEmpty_iff.1 filled), if_neg (by simp [← rewardsEven, ← actionsEven]),
      if_pos ((marks_misplaced_iff present).2 misplaced)]

theorem exists_flawed_of_check_ne {run : Trajectory} (refused : run.check ≠ .ok ()) :
    ∃ flaw, run.Flawed flaw := by
  unfold check at refused
  split_ifs at refused with empty uneven misplaced
  · exact ⟨_, .noInitialState (List.isEmpty_iff.1 empty)⟩
  · exact ⟨_, .lengths (mt List.isEmpty_iff.2 empty) uneven⟩
  · have filled : run.states ≠ [] := mt List.isEmpty_iff.2 empty
    have rewardsEven : run.states.length = run.rewards.length := by omega
    have present : run.rewards ≠ [] := fun none => filled <| by simpa [none] using rewardsEven
    exact ⟨_, .misplacedReward filled rewardsEven (by omega)
      ((marks_misplaced_iff present).1 misplaced)⟩
  · exact absurd rfl refused

theorem check_eq_error_iff {run : Trajectory} {error : Error} :
    run.check = .error error ↔ ∃ flaw, error = .corruptSnapshot flaw ∧ run.Flawed flaw := by
  constructor
  · intro failed
    have refused : run.check ≠ .ok () := by simp [failed]
    obtain ⟨flaw, flawed⟩ := exists_flawed_of_check_ne refused
    exact ⟨flaw, Except.error.inj (failed.symm.trans flawed.check_eq), flawed⟩
  · rintro ⟨flaw, rfl, flawed⟩
    exact flawed.check_eq

structure AnsweredWhen {α : Type} (answer : Except Error α) (condition : Prop) : Prop where
  answered : condition → ∃ a, answer = .ok a
  undefined : ¬ condition → answer = .error .undefinedAnswer

theorem initialState_answeredWhen (run : Trajectory) :
    AnsweredWhen run.initialState (run.states ≠ []) := by
  unfold initialState
  cases run.states with
  | nil => exact ⟨fun filled => absurd rfl filled, fun _ => rfl⟩
  | cons state states => exact ⟨fun _ => ⟨state, rfl⟩, fun empty => absurd nofun empty⟩

theorem lastState_answeredWhen (run : Trajectory) :
    AnsweredWhen run.lastState (run.states ≠ []) := by
  unfold lastState
  rw [ne_eq, ← List.getLast?_eq_none_iff]
  cases run.states.getLast? with
  | none => exact ⟨fun found => absurd rfl found, fun _ => rfl⟩
  | some state => exact ⟨fun _ => ⟨state, rfl⟩, fun missing => absurd nofun missing⟩

theorem stepsFrom_answeredWhen (states : List State) (actions : List Action)
    (rewards : List (Option Reward)) : AnsweredWhen (stepsFrom states actions rewards)
      (actions = [] ∨ actions.length < states.length ∧ actions.length ≤ rewards.length) := by
  fun_induction stepsFrom states actions rewards with
  | case1 => exact ⟨fun _ => ⟨[], rfl⟩, fun missing => absurd (.inl rfl) missing⟩
  | case2 state next states action actions reward rewards ih =>
    have same : (action :: actions = [] ∨
        (action :: actions).length < (state :: next :: states).length ∧
          (action :: actions).length ≤ (reward :: rewards).length) ↔
        (actions = [] ∨ actions.length < (next :: states).length ∧
          actions.length ≤ rewards.length) := by
      cases actions <;> simp
    rw [same]
    refine ⟨fun enough => ?_, fun missing => ?_⟩
    · obtain ⟨items, made⟩ := ih.answered enough
      exact ⟨_, by rw [made]; rfl⟩
    · rw [ih.undefined missing]
      rfl
  | case3 states actions rewards present short =>
    refine ⟨fun enough => ?_, fun _ => rfl⟩
    obtain missing | ⟨long, paid⟩ := enough
    · exact absurd missing present
    obtain ⟨action, actions, rfl⟩ := List.exists_cons_of_ne_nil present
    obtain ⟨reward, rewards, rfl⟩ := List.exists_cons_of_length_pos (Nat.zero_lt_of_lt paid)
    match states, long with
    | state :: next :: states, _ =>
      exact (short state next states action actions reward rewards rfl rfl rfl).elim

theorem steps_answeredWhen (run : Trajectory) : AnsweredWhen run.steps (run.actions = [] ∨
    run.actions.length < run.states.length ∧ run.actions.length < run.rewards.length) := by
  have answered := stepsFrom_answeredWhen run.states run.actions (run.rewards.drop 1)
  have same : (run.actions = [] ∨ run.actions.length < run.states.length ∧
        run.actions.length ≤ (run.rewards.drop 1).length) ↔
      (run.actions = [] ∨ run.actions.length < run.states.length ∧
        run.actions.length < run.rewards.length) := by
    rw [List.length_drop, ← List.length_eq_zero_iff]
    omega
  rwa [same] at answered

theorem returnHistory_answeredWhen (run : Trajectory) (discount : Float) :
    AnsweredWhen (run.returnHistory discount) (run.states ≠ [] ∧
      (run.states.length = 1 ∨ run.states.length ≤ run.rewards.length)) := by
  have same : (run.length = 0 ∨
        ((run.rewards.drop 1).take (run.length - 1)).length < run.length - 1) ↔
      ¬ (run.states ≠ [] ∧
        (run.states.length = 1 ∨ run.states.length ≤ run.rewards.length)) := by
    rw [length, List.length_take, List.length_drop, ne_eq, ← List.length_eq_zero_iff]
    omega
  exact ⟨fun enough => ⟨_, if_neg fun short => same.1 short enough⟩,
    fun missing => if_pos (same.2 missing)⟩

end DeclarativeMdp.Trajectory
