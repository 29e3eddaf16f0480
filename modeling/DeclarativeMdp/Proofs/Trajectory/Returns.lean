import DeclarativeMdp.Proofs.Trajectory.History
import Mathlib.Data.List.DropRight

set_option autoImplicit false

namespace DeclarativeMdp.Trajectory

variable {run : Trajectory} (discount : Float)

theorem length_returns (rewards : List Float) :
    (returns discount rewards).length = rewards.length + 1 := by
  induction rewards with
  | nil => rfl
  | cons reward rewards ih => simp [returns, ih]

theorem getLast?_returns (rewards : List Float) :
    (returns discount rewards).getLast? = some 0.0 := by
  induction rewards with
  | nil => rfl
  | cons reward rewards ih => rw [returns, List.getLast?_cons, ih, Option.getD_some]

theorem drop_returns {rewards : List Float} {moment : Nat} (inside : moment ≤ rewards.length) :
    (returns discount rewards).drop moment = returns discount (rewards.drop moment) := by
  induction rewards generalizing moment with
  | nil =>
    obtain rfl : moment = 0 := Nat.le_zero.1 inside
    rfl
  | cons reward rewards ih =>
    cases moment with
    | zero => rfl
    | succ moment => exact ih (Nat.le_of_succ_le_succ inside)

theorem getElem?_returns {rewards : List Float} {moment : Nat} (inside : moment ≤ rewards.length) :
    (returns discount rewards)[moment]? = (returns discount (rewards.drop moment)).head? := by
  rw [← drop_returns discount inside, List.head?_drop]

theorem returns_drop {rewards : List Float} {moment : Nat} {reward : Float}
    (next : rewards[moment]? = some reward) :
    returns discount (rewards.drop moment) =
      (reward + discount * (returns discount (rewards.drop (moment + 1))).headD 0.0) ::
        returns discount (rewards.drop (moment + 1)) := by
  obtain ⟨inside, rfl⟩ := List.getElem?_eq_some_iff.1 next
  rw [List.drop_eq_getElem_cons inside, returns]

def settle (rewards : List (Option Reward)) (entries : List Float) (moment : Nat) : List Float :=
  entries.set moment (rewardValue (rewards[moment + 1]?.getD none) +
    discount * entries[moment + 1]?.getD 0.0)

def filled (run : Trajectory) (discount : Float) : List Float :=
  (List.range (run.length - 1)).reverse.foldl (settle discount run.rewards)
    (List.replicate run.length 0.0)

-- The entries from the moment on are done, those before it are still zeros.
theorem settle_returns {rewards : List (Option Reward)} {moment : Nat}
    (inside : moment < rewards.tail.length) :
    settle discount rewards (List.replicate (moment + 1) 0.0 ++
        returns discount ((rewards.tail.map rewardValue).drop (moment + 1))) moment =
      List.replicate moment 0.0 ++
        returns discount ((rewards.tail.map rewardValue).drop moment) := by
  have next : rewards[moment + 1]?.getD none = rewards.tail[moment] := by
    rw [← List.getElem?_tail, List.getElem?_eq_getElem inside, Option.getD_some]
  have earned :
      (rewards.tail.map rewardValue)[moment]? = some (rewardValue rewards.tail[moment]) := by
    rw [List.getElem?_map, List.getElem?_eq_getElem inside, Option.map_some]
  rw [returns_drop discount earned, settle, next]
  generalize returns discount ((rewards.tail.map rewardValue).drop (moment + 1)) = later
  have behind : (List.replicate (moment + 1) 0.0 ++ later)[moment + 1]?.getD 0.0 =
      later.headD 0.0 := by
    rw [List.getElem?_append_right (by simp), List.headD_eq_head?_getD]
    simp [List.head?_eq_getElem?]
  rw [behind, List.replicate_succ', List.append_assoc]
  simp

theorem foldl_settle_returns {rewards : List (Option Reward)} {moments : Nat}
    (inside : moments ≤ rewards.tail.length) :
    (List.range moments).reverse.foldl (settle discount rewards) (List.replicate moments 0.0 ++
        returns discount ((rewards.tail.map rewardValue).drop moments)) =
      returns discount (rewards.tail.map rewardValue) := by
  induction moments with
  | zero => rfl
  | succ moment ih =>
    rw [List.range_succ, List.reverse_concat, List.foldl_cons, settle_returns discount inside]
    exact ih (Nat.le_of_succ_le inside)

theorem Valid.filled_eq (valid : run.Valid) :
    run.filled discount = returns discount (run.rewards.tail.map rewardValue) := by
  have later := valid.length_tail
  have zeros : List.replicate run.length 0.0 = List.replicate (run.length - 1) 0.0 ++
      returns discount ((run.rewards.tail.map rewardValue).drop (run.length - 1)) := by
    have all : (run.rewards.tail.map rewardValue).drop (run.length - 1) = [] :=
      List.drop_eq_nil_of_le (by rw [List.length_map]; omega)
    rw [all, ← later, Nat.add_sub_cancel, List.replicate_succ']
    rfl
  rw [filled, zeros]
  exact foldl_settle_returns discount (by omega)

structure Unfolds (run : Trajectory) (discount : Float) (history : List Float) : Prop where
  length : history.length = run.length
  last : history.getLast?.map Float.toBits = some 0
  step : ∀ moment, moment + 1 < run.length → ∃ reward later,
    run.rewards[moment + 1]? = some (some reward) ∧ history[moment + 1]? = some later ∧
      history[moment]? = some (reward.value + discount * later)

theorem Valid.unfolds (valid : run.Valid) :
    run.Unfolds discount (returns discount (run.rewards.tail.map rewardValue)) := by
  have later := valid.length_tail
  refine ⟨by rw [length_returns, List.length_map, later], ?_, fun moment inside => ?_⟩
  · rw [getLast?_returns]
    decide +kernel
  · have before : moment < run.rewards.tail.length := by omega
    obtain ⟨reward, present⟩ := Option.ne_none_iff_exists'.1
      (valid.later_present run.rewards.tail[moment] (List.getElem_mem before))
    have recorded : run.rewards.tail[moment]? = some (some reward) := by
      rw [List.getElem?_eq_getElem before, present]
    have earned : (run.rewards.tail.map rewardValue)[moment]? = some reward.value := by
      rw [List.getElem?_map, recorded]
      rfl
    obtain ⟨first, rest, made⟩ := List.exists_cons_of_ne_nil
      (returns_ne_nil discount ((run.rewards.tail.map rewardValue).drop (moment + 1)))
    refine ⟨reward, first, ?_, ?_, ?_⟩
    · rw [← List.getElem?_tail, recorded]
    · rw [getElem?_returns discount (by rw [List.length_map]; omega), made]
      rfl
    · rw [getElem?_returns discount (by rw [List.length_map]; omega),
        returns_drop discount earned, made]
      rfl

theorem rtake_returns (run : Trajectory) (count : Nat) :
    (returns discount (run.rewards.tail.map rewardValue)).rtake (count + 1) =
      returns discount ((run.rewards.tail.rtake count).map rewardValue) := by
  rw [List.rtake, length_returns, List.length_map, Nat.add_sub_add_right,
    drop_returns discount (by rw [List.length_map]; omega), List.rtake, List.map_drop]

theorem returnHistory_unfolds (valid : run.Valid) (discount : Float) :
    ∃ history, run.returnHistory discount = .ok history ∧ history = run.filled discount ∧
      run.Unfolds discount history ∧
      (∃ first, history.head? = some first ∧ run.discountedReturn discount = .ok first) ∧
      ∀ other : Trajectory, other.Valid → ∀ count,
        run.rewards.tail.rtake (count - 1) = other.rewards.tail.rtake (count - 1) →
          ∃ otherHistory, other.returnHistory discount = .ok otherHistory ∧
            history.rtake count = otherHistory.rtake count := by
  have made := valid.returnHistory_eq discount
  refine ⟨_, made, (valid.filled_eq discount).symm, valid.unfolds discount, ?_,
    fun other otherValid count same => ⟨_, otherValid.returnHistory_eq discount, ?_⟩⟩
  · obtain ⟨first, rest, filled⟩ :=
      List.exists_cons_of_ne_nil (returns_ne_nil discount (run.rewards.tail.map rewardValue))
    rw [discountedReturn, made, filled]
    exact ⟨first, rfl, rfl⟩
  · cases count with
    | zero => rw [List.rtake_zero, List.rtake_zero]
    | succ count =>
      rw [Nat.add_sub_cancel] at same
      rw [rtake_returns, rtake_returns, same]

def paid (texts : List String) (rewards : List UInt64) : Trajectory :=
  (texts.zip rewards).foldl (fun run (text, bits) => run.push ⟨text⟩ ∅ ⟨bits⟩) (start ∅)

theorem returnHistory_unfolds_paid :
    (paid ["a", "b"] [0x3FF0000000000000, 0x7FF8000000000001]).Valid ∧
      (paid ["c", "a", "b"] [0xC000000000000000, 0x3FF0000000000000, 0x7FF8000000000001]).Valid ∧
      ∃ history other,
        (paid ["a", "b"] [0x3FF0000000000000, 0x7FF8000000000001]).returnHistory 0.5 =
          .ok history ∧
        (paid ["c", "a", "b"]
          [0xC000000000000000, 0x3FF0000000000000, 0x7FF8000000000001]).returnHistory 0.5 =
          .ok other ∧
        history.rtake 3 = other.rtake 3 := by
  have short : (paid ["a", "b"] [0x3FF0000000000000, 0x7FF8000000000001]).Valid :=
    ((start_valid ∅).push ..).push ..
  have long : (paid ["c", "a", "b"]
      [0xC000000000000000, 0x3FF0000000000000, 0x7FF8000000000001]).Valid :=
    (((start_valid ∅).push ..).push ..).push ..
  obtain ⟨history, made, -, -, -, later⟩ := returnHistory_unfolds short 0.5
  obtain ⟨other, otherMade, same⟩ := later _ long 3 rfl
  exact ⟨short, long, history, other, made, otherMade, same⟩

end DeclarativeMdp.Trajectory
