import DeclarativeMdp.Proofs.BlocksWorld.Diameter
import DeclarativeMdp.Proofs.BlocksWorld.WellFormed
import Mathlib.Data.Set.Card

set_option autoImplicit false

namespace DeclarativeMdp.BlocksWorld

open World

variable {state goal : State} {w : World}

-- The top of a tower can be put on the table. Where there is no tower, all blocks are clear.
theorem Buildable.exists_feasible (buildable : Buildable w.Holds) {x y : String}
    (xIn : x ∈ w.blocks) (yIn : y ∈ w.blocks) (apart : x ≠ y) : ∃ move, w.Feasible move := by
  by_cases stacked : ∃ a b, w.Holds (.on a b)
  · obtain ⟨a, b, stands⟩ := stacked
    obtain ⟨block, below, free, standsToo⟩ := buildable.exists_top stands
    exact ⟨⟨block, table⟩, feasible_onTable free standsToo⟩
  · have flat : ∀ a b, ¬ w.Holds (.on a b) := fun a b stands => stacked ⟨a, b, stands⟩
    have free {block : String} (present : block ∈ w.blocks) : w.Holds (.clear block) :=
      (buildable.clear_iff flat).2 present
    exact ⟨⟨x, y⟩, xIn, free xIn, .inr ⟨yIn, apart, free yIn, flat x y⟩⟩

theorem Buildable.exists_apart {move : Move} (buildable : Buildable w.Holds)
    (feasible : w.Feasible move) : ∃ x ∈ w.blocks, ∃ y ∈ w.blocks, x ≠ y := by
  rcases feasible.2.2 with ⟨-, below, stands⟩ | ⟨target, apart, -⟩
  · refine ⟨move.block, feasible.1, below, mem_blocks.2 (.inr (.inl ⟨_, stands⟩)), ?_⟩
    intro same
    rw [← same] at stands
    exact buildable.not_on_of_clear feasible.2.1 stands
  · exact ⟨move.block, feasible.1, move.target, target, apart⟩

theorem Buildable.moves_eq_nil_iff (buildable : Buildable w.Holds) :
    w.moves goal = [] ↔ w.Reaches goal ∨ {block | Mentioned w.Holds block}.encard < 2 := by
  rw [List.eq_nil_iff_forall_not_mem, ENat.lt_two_iff, Set.encard_le_one_iff]
  simp only [buildable.proper.mem_moves]
  constructor
  · intro none
    by_cases reached : w.Reaches goal
    · exact .inl reached
    refine .inr fun x y xNamed yNamed => ?_
    by_contra apart
    obtain ⟨move, feasible⟩ :=
      buildable.exists_feasible (buildable.mentioned_iff.1 xNamed)
        (buildable.mentioned_iff.1 yNamed) apart
    exact none move ⟨reached, feasible⟩
  · rintro (reached | same) move ⟨away, feasible⟩
    · exact away reached
    · obtain ⟨x, xIn, y, yIn, apart⟩ := buildable.exists_apart feasible
      exact apart (same x y (mentioned_of_mem_blocks xIn) (mentioned_of_mem_blocks yIn))

theorem InWorld.isTerminal_iff_of_wellFormed {engine : Engine BlocksWorld}
    (inWorld : InWorld engine w) (wellFormed : WellFormed engine.state) :
    engine.isTerminal = true ↔
      engine.GoalReached ∨ {block | Mentioned (Says engine.state) block}.encard < 2 := by
  have same := wellFormed.buildable.holds_eq inWorld.read
  have buildable := wellFormed.buildable.of_read inWorld.read
  have written : w.toState = engine.state :=
    toState_eq (fun f => by rw [same]) wellFormed.canonical
  rw [inWorld.isTerminal_iff, buildable.moves_eq_nil_iff, same, Reaches, written]
  exact Iff.rfl

theorem isTerminal_performAll_iff {initial goal : State} {programs : ProgramSet}
    {solver : BlocksWorld} {config : Config} {engine : Engine BlocksWorld}
    (made : (Engine.create initial goal programs solver config).result = .ok engine)
    (wellFormed : WellFormed initial) (operations : List Operation) :
    (engine.performAll operations).isTerminal = true ↔
      (engine.performAll operations).GoalReached ∨
        {block | Mentioned (Says (engine.performAll operations).state) block}.encard < 2 := by
  obtain ⟨w, wellFormedRun⟩ := create_wellFormedRun made wellFormed
  obtain ⟨world, wellFormedRun⟩ := wellFormedRun.performAll operations
  have consistent := (Engine.create_consistent made).performAll operations
  have stands := Trajectory.mem_states_of_lastState consistent.last
  exact wellFormedRun.inWorld.isTerminal_iff_of_wellFormed (wellFormedRun.recorded _ stands).1

theorem isTerminal_performAll_iff_tower :
    ∃ engine : Engine BlocksWorld, engine.state = tower "a" "b" ∧ WellFormed (tower "a" "b") ∧
      ((engine.performAll [.transition ⟨"move(a,table)"⟩]).isTerminal = true ↔
        (engine.performAll [.transition ⟨"move(a,table)"⟩]).GoalReached ∨
          {block | Mentioned (Says (engine.performAll [.transition ⟨"move(a,table)"⟩]).state)
            block}.encard < 2) := by
  have a : IsConstant "a" := by decide
  have b : IsConstant "b" := by decide
  obtain ⟨engine, made, stands, -⟩ := exists_tower a.isBlock b.isBlock (by decide) default
  have wellFormed := wellFormed_tower a b (by decide) (by decide) (by decide)
  exact ⟨engine, stands, wellFormed, isTerminal_performAll_iff made wellFormed _⟩

end DeclarativeMdp.BlocksWorld
