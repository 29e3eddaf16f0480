import DeclarativeMdp.Trajectory.Basic
import Mathlib.Tactic.SplitIfs

set_option autoImplicit false

namespace DeclarativeMdp.Trajectory

structure Valid (run : Trajectory) : Prop where
  rewards_length : run.rewards.length = run.states.length
  states_length : run.states.length = run.actions.length + 1
  first_absent : run.rewards.head? = some none
  later_present : ∀ reward ∈ run.rewards.tail, reward ≠ none

theorem check_eq_ok_iff {run : Trajectory} : run.check = .ok () ↔ run.Valid := by
  have passes : run.check = .ok () ↔ ¬ run.states.isEmpty = true ∧
      ¬ (run.states.length ≠ run.rewards.length ∨ run.states.length ≠ run.actions.length + 1) ∧
      ¬ ((run.rewards.take 1).any Option.isSome = true ∨
        (run.rewards.drop 1).any Option.isNone = true) := by
    unfold check
    split_ifs with empty lengths marks
    · exact ⟨nofun, fun passed => absurd empty passed.1⟩
    · exact ⟨nofun, fun passed => absurd lengths passed.2.1⟩
    · exact ⟨nofun, fun passed => absurd marks passed.2.2⟩
    · exact ⟨fun _ => ⟨empty, lengths, marks⟩, fun _ => rfl⟩
  rw [passes]
  constructor
  · rintro ⟨filled, lengths, marks⟩
    have same : run.rewards.length = run.states.length := by omega
    cases rewards : run.rewards with
    | nil =>
      rw [rewards, List.length_nil] at same
      simp [List.length_eq_zero_iff.1 same.symm] at filled
    | cons first later =>
      simp only [rewards, List.take_succ_cons, List.take_zero, List.drop_succ_cons, List.drop_zero,
        List.any_cons, List.any_nil, Bool.or_false, List.any_eq_true, not_or, Bool.not_eq_true,
        Option.isSome_eq_false_iff, Option.isNone_iff_eq_none] at marks
      refine ⟨same, by omega, by rw [rewards, marks.1]; rfl, fun reward present missing => ?_⟩
      rw [rewards] at present
      exact marks.2 ⟨reward, present, missing⟩
  · rintro ⟨rewardsLength, statesLength, first, later⟩
    obtain ⟨tail, rewards⟩ := List.head?_eq_some_iff.1 first
    rw [rewards] at later
    refine ⟨fun empty => ?_, by omega, ?_⟩
    · rw [List.isEmpty_iff.1 empty, List.length_nil] at statesLength
      omega
    · rw [rewards]
      rintro (marked | missing)
      · simp at marked
      · obtain ⟨reward, present, missing⟩ := List.any_eq_true.1 missing
        exact later reward present (Option.isNone_iff_eq_none.1 missing)

theorem start_valid (initial : State) : (start initial).Valid where
  rewards_length := rfl
  states_length := rfl
  first_absent := rfl
  later_present := by simp [start]

theorem Valid.push {run : Trajectory} (valid : run.Valid) (action : Action) (nextState : State)
    (reward : Reward) : (run.push action nextState reward).Valid := by
  obtain ⟨rewardsLength, statesLength, first, later⟩ := valid
  cases rewards : run.rewards with
  | nil => simp [rewards] at first
  | cons head tail =>
    rw [rewards] at rewardsLength first later
    constructor
    · simpa [Trajectory.push, rewards] using rewardsLength
    · simpa [Trajectory.push] using statesLength
    · simpa [Trajectory.push, rewards] using first
    · intro given present
      simp only [Trajectory.push, rewards, List.cons_append, List.tail_cons, List.mem_append,
        List.mem_singleton] at present
      rcases present with present | rfl
      · exact later given present
      · simp

theorem lastState_push (run : Trajectory) (action : Action) (nextState : State)
    (reward : Reward) : (run.push action nextState reward).lastState = .ok nextState := by
  simp [lastState, push]

theorem mem_states_of_lastState {run : Trajectory} {state : State}
    (last : run.lastState = .ok state) : state ∈ run.states := by
  unfold lastState at last
  cases found : run.states.getLast? with
  | none => simp [found] at last
  | some final =>
    rw [found] at last
    rw [← Except.ok.inj last]
    exact List.mem_of_getLast? found

theorem initialState_push {run : Trajectory} (valid : run.Valid) (action : Action)
    (nextState : State) (reward : Reward) :
    (run.push action nextState reward).initialState = run.initialState := by
  cases states : run.states with
  | nil => simpa [states] using valid.states_length
  | cons first rest => simp [initialState, push, states]

theorem returns_ne_nil (discount : Float) (rewards : List Float) :
    returns discount rewards ≠ [] := by
  cases rewards with
  | nil => exact List.cons_ne_nil _ _
  | cons => exact List.cons_ne_nil _ _

theorem Valid.length_tail {run : Trajectory} (valid : run.Valid) :
    run.rewards.tail.length + 1 = run.length := by
  have rewards := valid.rewards_length
  have states := valid.states_length
  rw [List.length_tail, length]
  omega

theorem Valid.returnHistory_eq {run : Trajectory} (valid : run.Valid) (discount : Float) :
    run.returnHistory discount = .ok (returns discount (run.rewards.tail.map rewardValue)) := by
  have later := valid.length_tail
  have all : (run.rewards.drop 1).take (run.length - 1) = run.rewards.tail := by
    rw [List.drop_one, List.take_of_length_le (by omega)]
  have complete : ¬ (run.length = 0 ∨ run.rewards.tail.length < run.length - 1) := by omega
  rw [returnHistory, all, if_neg complete]

theorem Valid.exists_returnHistory {run : Trajectory} (valid : run.Valid) (discount : Float) :
    ∃ history, run.returnHistory discount = .ok history :=
  ⟨_, valid.returnHistory_eq discount⟩

theorem Valid.exists_discountedReturn {run : Trajectory} (valid : run.Valid) (discount : Float) :
    ∃ value, run.discountedReturn discount = .ok value := by
  obtain ⟨first, rest, made⟩ :=
    List.exists_cons_of_ne_nil (returns_ne_nil discount (run.rewards.tail.map rewardValue))
  refine ⟨first, ?_⟩
  rw [discountedReturn, valid.returnHistory_eq, made]
  rfl

def Extends (run earlier : Trajectory) : Prop :=
  earlier.states <+: run.states ∧ earlier.actions <+: run.actions ∧
    earlier.rewards <+: run.rewards

theorem Extends.refl (run : Trajectory) : run.Extends run :=
  ⟨List.prefix_refl _, List.prefix_refl _, List.prefix_refl _⟩

theorem Extends.trans {run middle earlier : Trajectory} (late : run.Extends middle)
    (early : middle.Extends earlier) : run.Extends earlier :=
  ⟨early.1.trans late.1, early.2.1.trans late.2.1, early.2.2.trans late.2.2⟩

theorem push_extends (run : Trajectory) (action : Action) (nextState : State) (reward : Reward) :
    (run.push action nextState reward).Extends run :=
  ⟨List.prefix_append _ _, List.prefix_append _ _, List.prefix_append _ _⟩

end DeclarativeMdp.Trajectory
