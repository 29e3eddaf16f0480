import DeclarativeMdp.Proofs.BlocksWorld.Walks
import Mathlib.Data.Finset.Max

set_option autoImplicit false

namespace DeclarativeMdp.BlocksWorld

open World

variable {w v : World} {goal : State}

inductive Height (holds : Fluent → Prop) : String → Nat → Prop
  | onTable {block : String} (rests : holds (.onTable block)) : Height holds block 0
  | on {block below : String} {height : Nat} (stands : holds (.on block below))
      (rest : Height holds below height) : Height holds block (height + 1)

theorem exists_height {holds : Fluent → Prop} {block : String} (grounded : Grounded holds block) :
    ∃ height, Height holds block height := by
  induction grounded with
  | onTable rests => exact ⟨0, .onTable rests⟩
  | on stands rest ih =>
    obtain ⟨height, below⟩ := ih
    exact ⟨height + 1, .on stands below⟩

theorem Height.unique {block : String} {height other : Nat} (buildable : Buildable w.Holds)
    (first : Height w.Holds block height) (second : Height w.Holds block other) :
    height = other := by
  induction first generalizing other with
  | onTable rests =>
    cases second with
    | onTable => rfl
    | on stands => exact absurd rests (buildable.not_onTable stands)
  | on stands rest ih =>
    cases second with
    | onTable rests => exact absurd rests (buildable.not_onTable stands)
    | on standsToo restToo =>
      obtain rfl := buildable.oneSupport stands standsToo
      rw [ih restToo]

theorem Buildable.exists_top (buildable : Buildable w.Holds) {x y : String}
    (stands : w.Holds (.on x y)) :
    ∃ block below, w.Holds (.clear block) ∧ w.Holds (.on block below) := by
  classical
  have heights : ∀ block ∈ w.blocks, ∃ height, Height w.Holds block height := fun block present =>
    exists_height (buildable.grounded block (mentioned_of_mem_blocks present))
  choose! height isHeight using heights
  have present {a b : String} (stands : w.Holds (.on a b)) : a ∈ w.blocks :=
    mem_blocks.2 (.inl ⟨b, stands⟩)
  obtain ⟨top, there, highest⟩ :=
    w.blocks.toFinset.exists_max_image height ⟨x, List.mem_toFinset.2 (present stands)⟩
  rw [List.mem_toFinset] at there
  have bound {a b : String} (stands : w.Holds (.on a b)) : height a ≤ height top :=
    highest a (List.mem_toFinset.2 (present stands))
  have above {a b : String} (stands : w.Holds (.on a b)) (inside : b ∈ w.blocks) :
      height a = height b + 1 :=
    (isHeight a (present stands)).unique buildable (.on stands (isHeight b inside))
  have free : w.Holds (.clear top) := by
    refine (buildable.clear top (mentioned_of_mem_blocks there)).2 fun z standsOnTop => ?_
    have higher := above standsOnTop there
    have lower := bound standsOnTop
    omega
  rcases buildable.mem_blocks_iff.1 there with rests | ⟨below, standsToo⟩
  · have lowest := (isHeight top there).unique buildable (.onTable rests)
    have higher := above stands (mem_blocks.2 (.inr (.inl ⟨x, stands⟩)))
    have lower := bound stands
    omega
  · exact ⟨top, below, free, standsToo⟩

def World.stacked (world : World) : List String :=
  world.blocks.filter fun block => (world.below? block).isSome

theorem mem_stacked (proper : w.Proper) {block : String} :
    block ∈ w.stacked ↔ ∃ below, w.Holds (.on block below) := by
  rw [stacked, List.mem_filter, Option.isSome_iff_exists]
  simp only [proper.below?_eq_some_iff]
  exact ⟨fun both => both.2, fun stands => ⟨mem_blocks.2 (.inl stands), stands⟩⟩

theorem nodup_stacked : w.stacked.Nodup := (SortedSet.nodup _).filter _

theorem Buildable.stacked_apply_onTable (buildable : Buildable w.Holds) {block below : String}
    (stands : w.Holds (.on block below)) (feasible : w.Feasible ⟨block, table⟩) :
    (w.apply ⟨block, table⟩).stacked.length < w.stacked.length := by
  have proper := buildable.proper
  have fewer {other : String} (stillStands : other ∈ (w.apply ⟨block, table⟩).stacked) :
      other ≠ block ∧ other ∈ w.stacked := by
    obtain ⟨under, holds⟩ := (mem_stacked (proper.applyFeasible feasible)).1 stillStands
    rcases (proper.holds_apply (.on _ _)).1 holds with ⟨onBlock, -⟩ | ⟨moved, before⟩
    · exact absurd rfl onBlock
    · exact ⟨moved, (mem_stacked proper).2 ⟨under, before⟩⟩
  have distinct : (block :: (w.apply ⟨block, table⟩).stacked).Nodup :=
    List.nodup_cons.2 ⟨fun there => (fewer there).1 rfl, nodup_stacked⟩
  refine (List.subperm_of_subset distinct fun other there => ?_).length_le
  rcases List.mem_cons.1 there with rfl | there
  · exact (mem_stacked proper).2 ⟨below, stands⟩
  · exact (fewer there).2

-- All blocks are put on the table, one after the other from above.
theorem Buildable.exists_flat {count : Nat} (buildable : Buildable w.Holds)
    (few : w.stacked.length ≤ count) :
    ∃ v steps, steps ≤ count ∧ Walk steps w v ∧ ∀ x y, ¬ v.Holds (.on x y) := by
  induction count generalizing w with
  | zero =>
    refine ⟨w, 0, Nat.zero_le _, Alike.rfl, fun x y stands => ?_⟩
    have there := (mem_stacked buildable.proper).2 ⟨y, stands⟩
    rw [List.eq_nil_of_length_eq_zero (Nat.le_zero.1 few)] at there
    simp at there
  | succ count ih =>
    by_cases flat : ∃ x y, w.Holds (.on x y)
    · obtain ⟨x, y, stands⟩ := flat
      obtain ⟨block, below, free, standsToo⟩ := buildable.exists_top stands
      have feasible : w.Feasible ⟨block, table⟩ := feasible_onTable free standsToo
      have fewer := buildable.stacked_apply_onTable standsToo feasible
      obtain ⟨v, steps, short, walk, done⟩ := ih (buildable.apply feasible) (by omega)
      exact ⟨v, steps + 1, by omega, ⟨_, feasible, walk⟩, done⟩
    · exact ⟨w, 0, Nat.zero_le _, Alike.rfl, fun x y stands => flat ⟨x, y, stands⟩⟩

theorem Buildable.onTable_iff (buildable : Buildable w.Holds) (flat : ∀ x y, ¬ w.Holds (.on x y))
    {x : String} : w.Holds (.onTable x) ↔ x ∈ w.blocks := by
  rw [buildable.mem_blocks_iff]
  simp [flat]

theorem Buildable.clear_iff (buildable : Buildable w.Holds) (flat : ∀ x y, ¬ w.Holds (.on x y))
    {x : String} : w.Holds (.clear x) ↔ x ∈ w.blocks := by
  constructor
  · exact fun free => buildable.mentioned_iff.1 (mentioned_clear free)
  · exact fun present => (buildable.clear x (mentioned_of_mem_blocks present)).2 fun y => flat y x

theorem Buildable.alike_of_flat (wBuildable : Buildable w.Holds) (vBuildable : Buildable v.Holds)
    (wFlat : ∀ x y, ¬ w.Holds (.on x y)) (vFlat : ∀ x y, ¬ v.Holds (.on x y))
    (same : w.blocks = v.blocks) : w.Alike v := by
  intro fluent
  cases fluent with
  | on x y => simp [wFlat, vFlat]
  | onTable x => rw [wBuildable.onTable_iff wFlat, vBuildable.onTable_iff vFlat, same]
  | clear x => rw [wBuildable.clear_iff wFlat, vBuildable.clear_iff vFlat, same]

-- Over the world in which all blocks are on the table.
theorem Buildable.exists_walk (wBuildable : Buildable w.Holds) (vBuildable : Buildable v.Holds)
    (same : w.blocks = v.blocks) :
    ∃ count, count ≤ 2 * w.blocks.length ∧ Walk count w v := by
  obtain ⟨a, down, downShort, toA, aFlat⟩ :=
    wBuildable.exists_flat (List.length_filter_le _ w.blocks)
  obtain ⟨b, up, upShort, toB, bFlat⟩ := vBuildable.exists_flat (List.length_filter_le _ v.blocks)
  have aBuildable := toA.buildable wBuildable
  have bBuildable := toB.buildable vBuildable
  have blocks : a.blocks = b.blocks := by
    rw [toA.blocks_eq wBuildable, toB.blocks_eq vBuildable, same]
  have alike := aBuildable.alike_of_flat bBuildable aFlat bFlat blocks
  have build := (toB.reverse vBuildable).of_alike bBuildable alike.symm
  refine ⟨down + up, ?_, toA.append wBuildable build⟩
  rw [← same] at upShort
  omega

theorem Buildable.exists_within (buildable : Buildable w.Holds) {count : Nat}
    (within : Within goal count w) :
    ∃ fewer, fewer ≤ 2 * w.blocks.length ∧ Within goal fewer w := by
  obtain ⟨v, walk, reached⟩ := within.exists_walk buildable.proper
  obtain ⟨steps, short, direct⟩ :=
    buildable.exists_walk (walk.buildable buildable) (walk.blocks_eq buildable).symm
  obtain ⟨fewer, less, reaches⟩ := direct.within buildable reached
  exact ⟨fewer, less.trans short, reaches⟩

end DeclarativeMdp.BlocksWorld
