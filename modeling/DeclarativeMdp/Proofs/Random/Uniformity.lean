import DeclarativeMdp.Episode.Policy
import DeclarativeMdp.Proofs.Random.Sampling
import Mathlib.Algebra.BigOperators.Group.Finset.Basic
import Mathlib.Algebra.Order.Floor.Div
import Mathlib.Order.Interval.Finset.Nat

set_option autoImplicit false

namespace DeclarativeMdp

namespace Generator

variable {bits n draw i : Nat}

-- How many draws are scaled to each number: the highest power of two with which all of them fit.
def share (bits n : Nat) : Nat := 2 ^ (bits - 1 - n.log2)

theorem mul_share_bounds (positive : 0 < n) (fits : n < 2 ^ bits) :
    2 ^ (bits - 1) ≤ n * share bits n ∧ n * share bits n < 2 ^ bits := by
  have lower : 2 ^ n.log2 ≤ n := Nat.log2_self_le positive.ne'
  have upper : n < 2 ^ (n.log2 + 1) := Nat.lt_log2_self
  have short : n.log2 < bits := (Nat.pow_lt_pow_iff_right (by decide)).1 (lower.trans_lt fits)
  have spare : 0 < share bits n := Nat.pow_pos (by decide)
  constructor
  · calc
      2 ^ (bits - 1) = 2 ^ n.log2 * share bits n := by
        rw [share, ← Nat.pow_add]
        congr 1
        omega
      _ ≤ n * share bits n := Nat.mul_le_mul_right _ lower
  · calc
      n * share bits n < 2 ^ (n.log2 + 1) * share bits n := Nat.mul_lt_mul_of_pos_right upper spare
      _ = 2 ^ bits := by
        rw [share, ← Nat.pow_add]
        congr 1
        omega

theorem scale_eq_some_iff (positive : 0 < n) (fits : n < 2 ^ bits) :
    scale bits n draw = some i ↔
      i * 2 ^ bits ≤ draw * n ∧ draw * n < i * 2 ^ bits + n * share bits n := by
  have below := (mul_share_bounds positive fits).2
  have zone : 0 < n * share bits n := Nat.mul_pos positive (Nat.pow_pos (by decide))
  have parts := Nat.div_add_mod' (draw * n) (2 ^ bits)
  have rest : draw * n % 2 ^ bits < 2 ^ bits := Nat.mod_lt _ (Nat.pow_pos (by decide))
  unfold scale
  simp only [Nat.pow_eq]
  rw [show n * 2 ^ (bits - 1 - n.log2) = n * share bits n from rfl]
  generalize n * share bits n = width at *
  constructor
  · intro scaled
    split at scaled
    next accepted =>
      obtain rfl := Option.some.inj scaled
      omega
    next => exact nomatch scaled
  · rintro ⟨low, high⟩
    have quotient : draw * n / 2 ^ bits = i := by
      refine Nat.div_eq_of_lt_le low ?_
      rw [Nat.add_mul, Nat.one_mul]
      omega
    rw [quotient] at parts
    rw [if_pos (by omega), quotient]

theorem scale_eq_some_iff_mem (positive : 0 < n) (fits : n < 2 ^ bits) :
    scale bits n draw = some i ↔
      draw ∈ Finset.Ico ((i * 2 ^ bits) ⌈/⌉ n) ((i * 2 ^ bits) ⌈/⌉ n + share bits n) := by
  have reaches (a m : Nat) : a ⌈/⌉ n ≤ m ↔ a ≤ m * n := by
    rw [Nat.mul_comm, ceilDiv_le_iff_le_mul positive]
  rw [scale_eq_some_iff positive fits, Finset.mem_Ico, reaches]
  refine and_congr_right fun _ => ?_
  by_cases late : share bits n ≤ draw
  · obtain ⟨more, rfl⟩ := Nat.exists_eq_add_of_le late
    have same := reaches (i * 2 ^ bits) more
    rw [Nat.add_mul, Nat.mul_comm n]
    omega
  · have few : draw * n < n * share bits n := by
      rw [Nat.mul_comm]
      exact Nat.mul_lt_mul_of_pos_left (by omega) positive
    omega

theorem scale_lt_pow (positive : 0 < n) (fits : n < 2 ^ bits) (inside : i < n)
    (scaled : scale bits n draw = some i) : draw < 2 ^ bits := by
  have high := ((scale_eq_some_iff positive fits).1 scaled).2
  have below := (mul_share_bounds positive fits).2
  have last : i * 2 ^ bits + 2 ^ bits ≤ n * 2 ^ bits := by
    rw [← Nat.succ_mul]
    exact Nat.mul_le_mul_right _ inside
  refine Nat.lt_of_mul_lt_mul_right (?_ : draw * n < 2 ^ bits * n)
  rw [Nat.mul_comm (2 ^ bits) n]
  omega

theorem card_scale_eq (positive : 0 < n) (fits : n < 2 ^ bits) (inside : i < n) :
    ((Finset.range (2 ^ bits)).filter fun draw => scale bits n draw = some i).card =
      share bits n := by
  have window : ((Finset.range (2 ^ bits)).filter fun draw => scale bits n draw = some i) =
      Finset.Ico ((i * 2 ^ bits) ⌈/⌉ n) ((i * 2 ^ bits) ⌈/⌉ n + share bits n) := by
    ext draw
    rw [Finset.mem_filter, Finset.mem_range, ← scale_eq_some_iff_mem positive fits]
    exact and_iff_right_of_imp (scale_lt_pow positive fits inside)
  rw [window, Nat.card_Ico, Nat.add_sub_cancel_left]

theorem card_scale_isSome (positive : 0 < n) (fits : n < 2 ^ bits) :
    ((Finset.range (2 ^ bits)).filter fun draw => (scale bits n draw).isSome).card =
      n * share bits n := by
  have sorted : ∀ draw ∈ (Finset.range (2 ^ bits)).filter fun draw => (scale bits n draw).isSome,
      (scale bits n draw).getD 0 ∈ Finset.range n := by
    intro draw present
    obtain ⟨short, accepted⟩ := Finset.mem_filter.1 present
    obtain ⟨i, scaled⟩ := Option.isSome_iff_exists.1 accepted
    rw [scaled, Finset.mem_range]
    exact scale_lt positive (Finset.mem_range.1 short) scaled
  have each (i : Nat) (inside : i ∈ Finset.range n) :
      ((((Finset.range (2 ^ bits)).filter fun draw => (scale bits n draw).isSome).filter
        fun draw => (scale bits n draw).getD 0 = i).card) = share bits n := by
    rw [← card_scale_eq positive fits (Finset.mem_range.1 inside), Finset.filter_filter]
    refine congrArg Finset.card (Finset.filter_congr fun draw _ => ?_)
    cases scale bits n draw <;> simp
  rw [Finset.card_eq_sum_card_fiberwise sorted, Finset.sum_congr rfl each, Finset.sum_const,
    Finset.card_range, smul_eq_mul]

theorem share_eq_clz (positive : 0 < n) (fits : n < 2 ^ bits) :
    share bits n = 2 ^ (BitVec.ofNat bits n).clz.toNat := by
  have same : (BitVec.ofNat bits n).toNat = n := by
    rw [BitVec.toNat_ofNat, Nat.mod_eq_of_lt fits]
  have filled : BitVec.ofNat bits n ≠ 0 := by
    intro zero
    rw [zero] at same
    exact positive.ne same
  have short : (BitVec.ofNat bits n).clz.toNat < bits := by
    have zeros := BitVec.clz_lt_iff_ne_zero.2 filled
    rwa [BitVec.lt_def, BitVec.natCast_eq_ofNat, BitVec.toNat_ofNat,
      Nat.mod_eq_of_lt Nat.lt_two_pow_self] at zeros
  have lower := BitVec.two_pow_sub_clz_le_toNat_of_ne_zero (by omega) filled
  have upper := BitVec.toNat_lt_two_pow_sub_clz (x := BitVec.ofNat bits n)
  rw [same] at lower upper
  have log : n.log2 = bits - 1 - (BitVec.ofNat bits n).clz.toNat := by
    refine (Nat.log2_eq_iff positive.ne').2 ⟨lower, ?_⟩
    rwa [show bits - 1 - (BitVec.ofNat bits n).clz.toNat + 1 =
      bits - (BitVec.ofNat bits n).clz.toNat by omega]
  rw [share, log]
  congr 1
  omega

def upcoming (g : Generator) (later : Nat) : Nat := ((fun g => g.word.2)^[later] g).word.1

theorem drawScaled_eq_some_iff {g : Generator} {attempts : Nat} :
    (∃ next, drawScaled bits word n attempts g = some (i, next)) ↔
      ∃ later < attempts, scale bits n (g.upcoming later) = some i ∧
        ∀ earlier < later, scale bits n (g.upcoming earlier) = none := by
  induction attempts generalizing g with
  | zero => simp [drawScaled]
  | succ attempts ih =>
    have ahead (later : Nat) : g.word.2.upcoming later = g.upcoming (later + 1) := rfl
    have now : g.upcoming 0 = g.word.1 := rfl
    unfold drawScaled
    dsimp only
    cases scaled : scale bits n g.word.1 with
    | some index =>
      constructor
      · rintro ⟨next, same⟩
        obtain ⟨rfl, -⟩ := Prod.mk.inj (Option.some.inj same)
        exact ⟨0, Nat.succ_pos _, scaled, fun _ early => absurd early (Nat.not_lt_zero _)⟩
      · rintro ⟨later, -, found, refused⟩
        cases later with
        | zero =>
          obtain rfl := Option.some.inj (scaled.symm.trans found)
          exact ⟨_, rfl⟩
        | succ later =>
          have first := refused 0 (Nat.succ_pos _)
          rw [now, scaled] at first
          exact nomatch first
    | none =>
      refine ih.trans ?_
      simp only [ahead]
      constructor
      · rintro ⟨later, inTime, found, refused⟩
        refine ⟨later + 1, Nat.succ_lt_succ inTime, found, fun earlier before => ?_⟩
        cases earlier with
        | zero => exact scaled
        | succ earlier => exact refused earlier (Nat.lt_of_succ_lt_succ before)
      · rintro ⟨later, inTime, found, refused⟩
        cases later with
        | zero =>
          rw [now, scaled] at found
          exact nomatch found
        | succ later =>
          exact ⟨later, Nat.lt_of_succ_lt_succ inTime, found, fun earlier before =>
            refused (earlier + 1) (Nat.succ_lt_succ before)⟩

theorem choose_eq_some_iff {α : Type} {items : List α} {item : α} {g : Generator}
    (filled : items ≠ []) :
    (g.choose items).1 = some item ↔
      ∃ i, (∃ next, g.index items.length = some (i, next)) ∧ items[i]? = some item := by
  rw [choose, if_neg (mt List.isEmpty_iff.1 filled)]
  split
  next place next drawn =>
    rw [drawn]
    constructor
    · exact fun there => ⟨place, ⟨next, rfl⟩, there⟩
    · rintro ⟨i, ⟨_, same⟩, there⟩
      obtain ⟨rfl, -⟩ := Prod.mk.inj (Option.some.inj same)
      exact there
  next drawn => simp [drawn]

end Generator

namespace UniformRandom

open Generator

def picked? (available : AvailableActions) (draw : Nat) : Option Action :=
  (scale 32 available.size draw).bind (available.toList[·]?)

variable {available : AvailableActions} {action : Action} {draw : Nat}

theorem picked?_eq_some_iff :
    picked? available draw = some action ↔
      ∃ i, scale 32 available.size draw = some i ∧ available.toList[i]? = some action := by
  rw [picked?, Option.bind_eq_some_iff]

theorem mem_of_picked? (picked : picked? available draw = some action) : action ∈ available := by
  obtain ⟨i, -, listed⟩ := picked?_eq_some_iff.1 picked
  exact SortedSet.mem_toList.1 (List.mem_of_getElem? listed)

section

variable (filled : 0 < available.size)
include filled

theorem picked?_isSome (inside : draw < 2 ^ 32) :
    (picked? available draw).isSome = (scale 32 available.size draw).isSome := by
  unfold picked?
  cases scaled : scale 32 available.size draw with
  | none => rfl
  | some i =>
    have short : i < available.toList.length := scale_lt filled inside scaled
    rw [Option.bind_some, List.getElem?_eq_getElem short]
    rfl

theorem picked?_eq_none_iff (inside : draw < 2 ^ 32) :
    picked? available draw = none ↔ scale 32 available.size draw = none := by
  rw [← Option.not_isSome_iff_eq_none, picked?_isSome filled inside,
    Option.not_isSome_iff_eq_none]

theorem select_eq_some_iff (short : available.size < 2 ^ 32) (state : State)
    (policy : UniformRandom) :
    (Policy.select state available policy).1 = some action ↔
      ∃ later < streamPeriod, picked? available (policy.current.upcoming later) = some action ∧
        ∀ earlier < later, picked? available (policy.current.upcoming earlier) = none := by
  have word (later : Nat) : policy.current.upcoming later < 2 ^ 32 := word_lt _
  have offers : available.toList ≠ [] := List.ne_nil_of_length_pos filled
  have chosen : (Policy.select state available policy).1 = some action ↔
      ∃ i, (∃ next, policy.current.index available.size = some (i, next)) ∧
        available.toList[i]? = some action := choose_eq_some_iff offers
  have narrow : policy.current.index available.size =
      drawScaled 32 Generator.word available.size streamPeriod policy.current := if_pos short
  rw [chosen, narrow]
  simp only [drawScaled_eq_some_iff, picked?_eq_some_iff, picked?_eq_none_iff filled (word _)]
  constructor
  · rintro ⟨i, ⟨later, inTime, scaled, refused⟩, listed⟩
    exact ⟨later, inTime, ⟨i, scaled, listed⟩, refused⟩
  · rintro ⟨later, inTime, ⟨i, scaled, listed⟩, refused⟩
    exact ⟨i, ⟨later, inTime, scaled, refused⟩, listed⟩

-- No two places of the list hold the same action, so that the draws for an action are those for
-- its place.
theorem card_picked? (short : available.size < 2 ^ 32) (offered : action ∈ available) :
    ((Finset.range (2 ^ 32)).filter fun draw => picked? available draw = some action).card =
      share 32 available.size := by
  obtain ⟨i, inside, there⟩ := List.getElem_of_mem (SortedSet.mem_toList.2 offered)
  have here : available.toList[i]? = some action := by rw [List.getElem?_eq_getElem inside, there]
  rw [← card_scale_eq filled short inside]
  refine congrArg Finset.card (Finset.filter_congr fun draw _ => ?_)
  rw [picked?_eq_some_iff]
  constructor
  · rintro ⟨j, scaled, listed⟩
    rwa [(List.getElem?_inj inside available.nodup).1 (here.trans listed.symm)]
  · exact fun scaled => ⟨i, scaled, here⟩

theorem card_picked?_isSome (short : available.size < 2 ^ 32) :
    2 ^ 31 ≤ ((Finset.range (2 ^ 32)).filter fun draw => (picked? available draw).isSome).card := by
  have same : ((Finset.range (2 ^ 32)).filter fun draw => (picked? available draw).isSome) =
      (Finset.range (2 ^ 32)).filter fun draw => (scale 32 available.size draw).isSome :=
    Finset.filter_congr fun draw inside => by rw [picked?_isSome filled (Finset.mem_range.1 inside)]
  rw [same, card_scale_isSome filled short]
  exact (mul_share_bounds filled short).1

theorem select_uniform (short : available.size < 2 ^ 32) :
    (∀ (state : State) (policy : UniformRandom),
      (∀ action, (Policy.select state available policy).1 = some action →
        action ∈ available) ∧
      ((∃ later < streamPeriod,
          (picked? available (policy.current.upcoming later)).isSome = true) →
        ∃ action, (Policy.select state available policy).1 = some action) ∧
      ∀ action, (Policy.select state available policy).1 = some action ↔
        ∃ later < streamPeriod, picked? available (policy.current.upcoming later) = some action ∧
          ∀ earlier < later, picked? available (policy.current.upcoming earlier) = none) ∧
      2 ^ 31 ≤
        ((Finset.range (2 ^ 32)).filter fun draw => (picked? available draw).isSome).card ∧
      ∀ action ∈ available,
        ((Finset.range (2 ^ 32)).filter fun draw => picked? available draw = some action).card =
          2 ^ (BitVec.ofNat 32 available.size).clz.toNat := by
  refine ⟨fun state policy => ?_, card_picked?_isSome filled short, fun action offered => ?_⟩
  · have selects (action : Action) := @select_eq_some_iff available action filled short state policy
    refine ⟨fun action chosen => ?_, fun accepted => ?_, selects⟩
    · obtain ⟨later, -, picked, -⟩ := (selects action).1 chosen
      exact mem_of_picked? picked
    · classical
      obtain ⟨inTime, picked⟩ := Nat.find_spec accepted
      obtain ⟨action, picked⟩ := Option.isSome_iff_exists.1 picked
      refine ⟨action, (selects action).2
        ⟨Nat.find accepted, inTime, picked, fun earlier before => ?_⟩⟩
      have refused := not_and.1 (Nat.find_min accepted before) (before.trans inTime)
      exact Option.not_isSome_iff_eq_none.1 refused
  · rw [card_picked? filled short offered, share_eq_clz filled short]

end

theorem select_uniform_three :
    let available : AvailableActions :=
      (((∅ : AvailableActions).insert ⟨"a"⟩).insert ⟨"b"⟩).insert ⟨"c"⟩
    available.size = 3 ∧ ∀ action ∈ available,
      ((Finset.range (2 ^ 32)).filter fun draw => picked? available draw = some action).card =
        2 ^ 30 := by
  intro available
  have three : available.size = 3 := by decide
  refine ⟨three, fun action offered => ?_⟩
  obtain ⟨-, -, fair⟩ := @select_uniform available (by omega) (by omega)
  rw [fair action offered, three]
  decide

end UniformRandom

end DeclarativeMdp
