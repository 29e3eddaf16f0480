import DeclarativeMdp.Proofs.BlocksWorld.Worlds
import Mathlib.Tactic.Tauto

set_option autoImplicit false

namespace DeclarativeMdp.BlocksWorld.World

variable {w v : World} {goal : State}

theorem Proper.below?_eq_some_iff {x y : String} (proper : w.Proper) :
    w.below? x = some y ↔ w.Holds (.on x y) := by
  unfold below?
  constructor
  · intro found
    obtain ⟨⟨block, target⟩, first, rfl⟩ := Option.map_eq_some_iff.1 found
    obtain rfl : block = x := by simpa using List.find?_some first
    exact List.mem_of_find?_eq_some first
  · intro holds
    cases first : w.on.find? (·.1 = x) with
    | none => simpa using List.find?_eq_none.1 first (x, y) holds
    | some pair =>
      obtain ⟨block, target⟩ := pair
      obtain rfl : block = x := by simpa using List.find?_some first
      have holdsFirst : w.Holds (.on block target) := List.mem_of_find?_eq_some first
      rw [Option.map_some, proper.oneSupport block target y holdsFirst holds]

theorem Alike.below?_eq {x : String} (alike : w.Alike v) (wProper : w.Proper)
    (vProper : v.Proper) : w.below? x = v.below? x :=
  Option.ext fun y => by
    rw [wProper.below?_eq_some_iff, vProper.below?_eq_some_iff]
    exact alike (.on x y)

theorem mem_blocks {name : String} :
    name ∈ w.blocks ↔ (∃ y, w.Holds (.on name y)) ∨ (∃ x, w.Holds (.on x name)) ∨
      w.Holds (.onTable name) := by
  unfold blocks Holds
  rw [SortedSet.mem_toList, SortedSet.mem_ofList]
  simp only [List.mem_append, List.mem_flatMap, List.mem_cons, List.not_mem_nil, or_false,
    Prod.exists]
  constructor
  · rintro (⟨x, y, holds, rfl | rfl⟩ | holds)
    · exact .inl ⟨y, holds⟩
    · exact .inr (.inl ⟨x, holds⟩)
    · exact .inr (.inr holds)
  · rintro (⟨y, holds⟩ | ⟨x, holds⟩ | holds)
    · exact .inl ⟨name, y, holds, .inl rfl⟩
    · exact .inl ⟨x, name, holds, .inr rfl⟩
    · exact .inr holds

theorem blocks_eq_of_mem_iff (same : ∀ name, name ∈ w.blocks ↔ name ∈ v.blocks) :
    w.blocks = v.blocks :=
  congrArg SortedSet.toList (SortedSet.eq_of_mem_iff same)

theorem Alike.blocks_eq (alike : w.Alike v) : w.blocks = v.blocks := by
  refine blocks_eq_of_mem_iff fun name => ?_
  rw [mem_blocks, mem_blocks]
  exact or_congr (exists_congr fun y => alike (.on name y))
    (or_congr (exists_congr fun x => alike (.on x name)) (alike (.onTable name)))

theorem Alike.reaches_iff (alike : w.Alike v) : w.Reaches goal ↔ v.Reaches goal := by
  unfold Reaches
  rw [alike.toState_eq]

theorem Alike.moves_eq (alike : w.Alike v) (wProper : w.Proper) (vProper : v.Proper) :
    w.moves goal = v.moves goal := by
  have clear (x : String) : x ∈ w.clear ↔ x ∈ v.clear := alike (.clear x)
  have each (names : List String) : w.movesOf names = v.movesOf names := by
    funext block
    simp only [movesOf, clear, alike.below?_eq wProper vProper]
  unfold moves
  rw [alike.blocks_eq, each]
  simp only [alike.reaches_iff]

theorem mem_movesOf {names : List String} {block : String} {move : Move} :
    move ∈ w.movesOf names block ↔
      move.block = block ∧ w.Holds (.clear block) ∧
        (move.target = table ∧ (w.below? block).isSome ∨
          move.target ∈ names ∧ block ≠ move.target ∧ w.Holds (.clear move.target) ∧
            w.below? block ≠ some move.target) := by
  obtain ⟨x, y⟩ := move
  unfold movesOf Holds
  split_ifs with isClear stands
  · simp only [List.cons_append, List.nil_append, List.mem_cons, List.mem_map, List.mem_filter,
      decide_eq_true_eq, Move.mk.injEq]
    constructor
    · rintro (⟨rfl, rfl⟩ | ⟨target, ⟨present, apart, free, other⟩, rfl, rfl⟩)
      · exact ⟨rfl, isClear, .inl ⟨rfl, stands⟩⟩
      · exact ⟨rfl, isClear, .inr ⟨present, apart, free, other⟩⟩
    · rintro ⟨rfl, -, ⟨rfl, -⟩ | ⟨present, apart, free, other⟩⟩
      · exact .inl ⟨rfl, rfl⟩
      · exact .inr ⟨y, ⟨present, apart, free, other⟩, rfl, rfl⟩
  · simp only [List.nil_append, List.mem_map, List.mem_filter, decide_eq_true_eq, Move.mk.injEq]
    constructor
    · rintro ⟨target, ⟨present, apart, free, other⟩, rfl, rfl⟩
      exact ⟨rfl, isClear, .inr ⟨present, apart, free, other⟩⟩
    · rintro ⟨rfl, -, ⟨-, stands'⟩ | ⟨present, apart, free, other⟩⟩
      · exact absurd stands' stands
      · exact ⟨y, ⟨present, apart, free, other⟩, rfl, rfl⟩
  · simp [isClear]

def Feasible (world : World) (move : Move) : Prop :=
  move.block ∈ world.blocks ∧ world.Holds (.clear move.block) ∧
    (move.target = table ∧ (∃ y, world.Holds (.on move.block y)) ∨
      move.target ∈ world.blocks ∧ move.block ≠ move.target ∧ world.Holds (.clear move.target) ∧
        ¬ world.Holds (.on move.block move.target))

theorem Feasible.clear_target {move : Move} (feasible : w.Feasible move)
    (onBlock : move.target ≠ table) :
    move.target ∈ w.blocks ∧ move.block ≠ move.target ∧ w.Holds (.clear move.target) ∧
      ¬ w.Holds (.on move.block move.target) :=
  feasible.2.2.resolve_left fun onto => onBlock onto.1

theorem feasible_onTable {block below : String} (free : w.Holds (.clear block))
    (stands : w.Holds (.on block below)) : w.Feasible ⟨block, table⟩ :=
  ⟨mem_blocks.2 (.inl ⟨below, stands⟩), free, .inl ⟨rfl, below, stands⟩⟩

theorem Proper.mem_moves {move : Move} (proper : w.Proper) :
    move ∈ w.moves goal ↔ ¬ w.Reaches goal ∧ w.Feasible move := by
  unfold moves Feasible
  split_ifs with reached
  · simp [reached]
  · simp only [List.mem_flatMap, mem_movesOf, Option.isSome_iff_exists, ne_eq,
      proper.below?_eq_some_iff, reached, not_false_eq_true, true_and]
    constructor
    · rintro ⟨block, present, rfl, isClear, how⟩
      exact ⟨present, isClear, how⟩
    · rintro ⟨present, isClear, how⟩
      exact ⟨_, present, rfl, isClear, how⟩

theorem Proper.holds_apply {move : Move} (proper : w.Proper) (fluent : Fluent) :
    (w.apply move).Holds fluent ↔
      match fluent with
      | .on x y =>
        move.target ≠ table ∧ x = move.block ∧ y = move.target ∨ x ≠ move.block ∧ w.Holds (.on x y)
      | .onTable x =>
        move.target = table ∧ x = move.block ∨ x ≠ move.block ∧ w.Holds (.onTable x)
      | .clear x =>
        (w.Holds (.on move.block x) ∨ w.Holds (.clear x)) ∧
          (move.target ≠ table → x ≠ move.target) := by
  have freed (x : String) : x ∈ (w.below? move.block).toList ↔ w.Holds (.on move.block x) := by
    rw [Option.mem_toList, proper.below?_eq_some_iff]
  unfold apply
  dsimp only
  split_ifs with onto
  · cases fluent with
    | on x y =>
      simp only [Holds, mem_lift, onto]
      tauto
    | onTable x =>
      simp only [Holds, List.mem_cons, List.mem_filter, decide_eq_true_eq, onto]
      tauto
    | clear x =>
      simp only [Holds, List.mem_append, freed, onto]
      tauto
  · cases fluent with
    | on x y =>
      simp only [Holds, mem_stack]
      tauto
    | onTable x =>
      simp only [Holds, List.mem_filter, decide_eq_true_eq]
      tauto
    | clear x =>
      simp only [Holds, List.mem_filter, List.mem_append, freed, decide_eq_true_eq]
      tauto

theorem Alike.apply {move : Move} (alike : w.Alike v) (wProper : w.Proper) (vProper : v.Proper) :
    (w.apply move).Alike (v.apply move) := by
  intro fluent
  rw [wProper.holds_apply, vProper.holds_apply]
  cases fluent <;> simp only [alike _]

theorem Names.of_mem_blocks {p : String → Prop} {name : String} (names : w.Names p)
    (present : name ∈ w.blocks) : p name := by
  rcases mem_blocks.1 present with ⟨y, holds⟩ | ⟨x, holds⟩ | holds
  · exact names _ holds name (by simp [Fluent.blocks])
  · exact names _ holds name (by simp [Fluent.blocks])
  · exact names _ holds name (by simp [Fluent.blocks])

theorem Names.of_feasible {p : String → Prop} {move : Move} (names : w.Names p)
    (onTable : p table) (feasible : w.Feasible move) : p move.block ∧ p move.target := by
  obtain ⟨present, -, how⟩ := feasible
  refine ⟨names.of_mem_blocks present, ?_⟩
  rcases how with ⟨onto, -⟩ | ⟨target, -⟩
  · rwa [onto]
  · exact names.of_mem_blocks target

theorem Names.wellNamed_of_feasible {move : Move} (constants : w.Names IsConstant)
    (feasible : w.Feasible move) : move.term.WellNamed := by
  obtain ⟨block, target⟩ := constants.of_feasible isConstant_table feasible
  exact ⟨.inr (by decide), block.wellNamed, target.wellNamed, trivial⟩

theorem Names.apply {p : String → Prop} {move : Move} (names : w.Names p) (proper : w.Proper)
    (feasible : w.Feasible move) : (w.apply move).Names p := by
  obtain ⟨present, -, how⟩ := feasible
  have block := names.of_mem_blocks present
  intro fluent holds
  rw [proper.holds_apply] at holds
  cases fluent with
  | on x y =>
    rcases holds with ⟨onBlock, rfl, rfl⟩ | ⟨-, before⟩
    · have target : move.target ∈ w.blocks := (how.resolve_left fun onto => onBlock onto.1).1
      simp [Fluent.blocks, block, names.of_mem_blocks target]
    · exact names _ before
  | onTable x =>
    rcases holds with ⟨-, rfl⟩ | ⟨-, before⟩
    · simp [Fluent.blocks, block]
    · exact names _ before
  | clear x =>
    rcases holds.1 with before | before
    · exact fun name there => names _ before name (.tail _ there)
    · exact names _ before

theorem Proper.applyFeasible {move : Move} (proper : w.Proper) (feasible : w.Feasible move) :
    (w.apply move).Proper where
  named := Names.apply (p := IsBlock) proper.named proper feasible
  oneSupport x y z left right := by
    rw [proper.holds_apply] at left right
    rcases left with ⟨_, rfl, rfl⟩ | ⟨moved, left⟩
    · rcases right with ⟨-, -, same⟩ | ⟨moved, -⟩
      · exact same.symm
      · exact absurd rfl moved
    · rcases right with ⟨_, same, -⟩ | ⟨-, right⟩
      · exact absurd same moved
      · exact proper.oneSupport x y z left right

theorem Proper.apply {move : Move} (proper : w.Proper) (possible : move ∈ w.moves goal) :
    (w.apply move).Proper :=
  proper.applyFeasible (proper.mem_moves.1 possible).2

end DeclarativeMdp.BlocksWorld.World
