import DeclarativeMdp.Proofs.BlocksWorld.Moves

set_option autoImplicit false

namespace DeclarativeMdp.BlocksWorld

def Mentioned (holds : Fluent → Prop) (block : String) : Prop := ∃ f, holds f ∧ block ∈ f.blocks

inductive Grounded (holds : Fluent → Prop) : String → Prop
  | onTable {block : String} (rests : holds (.onTable block)) : Grounded holds block
  | on {block below : String} (stands : holds (.on block below)) (rest : Grounded holds below) :
      Grounded holds block

structure Buildable (holds : Fluent → Prop) : Prop where
  names : ∀ block, Mentioned holds block → IsConstant block ∧ block ≠ table
  supported : ∀ block, Mentioned holds block →
    holds (.onTable block) ∧ (∀ y, ¬ holds (.on block y)) ∨
      ¬ holds (.onTable block) ∧ ∃ y, holds (.on block y) ∧ ∀ z, holds (.on block z) → z = y
  single : ∀ x y z, holds (.on x z) → holds (.on y z) → x = y
  grounded : ∀ block, Mentioned holds block → Grounded holds block
  clear : ∀ block, Mentioned holds block → (holds (.clear block) ↔ ∀ x, ¬ holds (.on x block))

section

variable {holds : Fluent → Prop} {x y z : String}

theorem mentioned_block (stands : holds (.on x y)) : Mentioned holds x :=
  ⟨_, stands, by simp [Fluent.blocks]⟩

theorem mentioned_below (stands : holds (.on x y)) : Mentioned holds y :=
  ⟨_, stands, by simp [Fluent.blocks]⟩

theorem mentioned_onTable (rests : holds (.onTable x)) : Mentioned holds x :=
  ⟨_, rests, by simp [Fluent.blocks]⟩

theorem mentioned_clear (free : holds (.clear x)) : Mentioned holds x :=
  ⟨_, free, by simp [Fluent.blocks]⟩

theorem Buildable.oneSupport (buildable : Buildable holds) (left : holds (.on x y))
    (right : holds (.on x z)) : y = z := by
  rcases buildable.supported x (mentioned_block left) with ⟨-, none⟩ | ⟨-, below, -, only⟩
  · exact absurd left (none y)
  · rw [only y left, only z right]

theorem Buildable.not_onTable (buildable : Buildable holds) (stands : holds (.on x y)) :
    ¬ holds (.onTable x) := by
  rcases buildable.supported x (mentioned_block stands) with ⟨-, none⟩ | ⟨none, -⟩
  · exact absurd stands (none y)
  · exact none

theorem Buildable.not_on_of_clear (buildable : Buildable holds) (free : holds (.clear x)) :
    ¬ holds (.on y x) :=
  (buildable.clear x (mentioned_clear free)).1 free y

end

open World

variable {w v : World} {move : Move}

theorem Buildable.proper (buildable : Buildable w.Holds) : w.Proper where
  named f holds name there := (buildable.names name ⟨f, holds, there⟩).1.isBlock
  oneSupport _ _ _ := buildable.oneSupport

theorem Buildable.of_alike (buildable : Buildable w.Holds) (alike : w.Alike v) :
    Buildable v.Holds := by
  rwa [← alike.holds_eq]

theorem Buildable.holds_eq {state : State} (buildable : Buildable (Says state))
    (read : ofState state = .ok w) : w.Holds = Says state :=
  holds_eq_says (fun _ _ _ => buildable.oneSupport) read

theorem Buildable.of_read {state : State} (buildable : Buildable (Says state))
    (read : ofState state = .ok w) : Buildable w.Holds := by
  rwa [buildable.holds_eq read]

theorem mentioned_of_mem_blocks {x : String} (present : x ∈ w.blocks) : Mentioned w.Holds x := by
  rcases mem_blocks.1 present with ⟨y, holds⟩ | ⟨y, holds⟩ | holds
  · exact mentioned_block holds
  · exact mentioned_below holds
  · exact mentioned_onTable holds

theorem Buildable.mem_blocks_iff (buildable : Buildable w.Holds) {x : String} :
    x ∈ w.blocks ↔ w.Holds (.onTable x) ∨ ∃ y, w.Holds (.on x y) := by
  constructor
  · intro present
    rcases buildable.supported x (mentioned_of_mem_blocks present) with
      ⟨rests, -⟩ | ⟨-, y, stands, -⟩
    · exact .inl rests
    · exact .inr ⟨y, stands⟩
  · rintro (rests | ⟨y, stands⟩)
    · exact mem_blocks.2 (.inr (.inr rests))
    · exact mem_blocks.2 (.inl ⟨y, stands⟩)

theorem Buildable.mentioned_iff (buildable : Buildable w.Holds) {x : String} :
    Mentioned w.Holds x ↔ x ∈ w.blocks := by
  constructor
  · intro mentioned
    rw [buildable.mem_blocks_iff]
    rcases buildable.supported x mentioned with ⟨rests, -⟩ | ⟨-, y, stands, -⟩
    · exact .inl rests
    · exact .inr ⟨y, stands⟩
  · exact mentioned_of_mem_blocks

theorem Buildable.mentioned_of_apply (buildable : Buildable w.Holds) (feasible : w.Feasible move)
    {x : String} (mentioned : Mentioned (w.apply move).Holds x) : x ∈ w.blocks := by
  obtain ⟨f, holds, there⟩ := mentioned
  have names : w.Names (· ∈ w.blocks) := fun f holds name there =>
    buildable.mentioned_iff.1 ⟨f, holds, there⟩
  exact names.apply buildable.proper feasible f holds x there

theorem Buildable.mem_blocks_apply (buildable : Buildable w.Holds) (feasible : w.Feasible move)
    {x : String} : x ∈ (w.apply move).blocks ↔ x ∈ w.blocks := by
  constructor
  · exact fun present => buildable.mentioned_of_apply feasible (mentioned_of_mem_blocks present)
  · intro present
    simp only [mem_blocks, buildable.proper.holds_apply]
    by_cases moved : x = move.block
    · by_cases onto : move.target = table
      · exact .inr (.inr (.inl ⟨onto, moved⟩))
      · exact .inl ⟨move.target, .inl ⟨onto, moved, rfl⟩⟩
    · rcases buildable.mem_blocks_iff.1 present with rests | ⟨y, stands⟩
      · exact .inr (.inr (.inr ⟨moved, rests⟩))
      · exact .inl ⟨y, .inr ⟨moved, stands⟩⟩

theorem Buildable.blocks_apply (buildable : Buildable w.Holds) (feasible : w.Feasible move) :
    (w.apply move).blocks = w.blocks :=
  blocks_eq_of_mem_iff fun _ => buildable.mem_blocks_apply feasible

theorem Buildable.target_ne_table (buildable : Buildable w.Holds)
    (present : move.target ∈ w.blocks) : move.target ≠ table :=
  (buildable.names _ (mentioned_of_mem_blocks present)).2

-- The way down from any other block does not lead over the block that is moved.
theorem Buildable.grounded_apply (buildable : Buildable w.Holds) (feasible : w.Feasible move)
    {x : String} (grounded : Grounded w.Holds x) (other : x ≠ move.block) :
    Grounded (w.apply move).Holds x := by
  have proper := buildable.proper
  induction grounded with
  | onTable rests => exact .onTable ((proper.holds_apply (.onTable _)).2 (.inr ⟨other, rests⟩))
  | @on x y stands rest ih =>
    have below : y ≠ move.block := by
      rintro rfl
      exact buildable.not_on_of_clear feasible.2.1 stands
    exact .on ((proper.holds_apply (.on _ _)).2 (.inr ⟨other, stands⟩)) (ih below)

theorem Buildable.supported_apply (buildable : Buildable w.Holds) {x : String}
    (mentioned : Mentioned w.Holds x) :
    (w.apply move).Holds (.onTable x) ∧ (∀ y, ¬ (w.apply move).Holds (.on x y)) ∨
      ¬ (w.apply move).Holds (.onTable x) ∧ ∃ y, (w.apply move).Holds (.on x y) ∧
        ∀ z, (w.apply move).Holds (.on x z) → z = y := by
  simp only [buildable.proper.holds_apply]
  by_cases moved : x = move.block
  · by_cases onto : move.target = table
    · simp [moved, onto]
    · simp [moved, onto]
  · simpa [moved] using buildable.supported x mentioned

theorem Buildable.single_apply (buildable : Buildable w.Holds) (feasible : w.Feasible move)
    {x y z : String} (left : (w.apply move).Holds (.on x z))
    (right : (w.apply move).Holds (.on y z)) : x = y := by
  rw [buildable.proper.holds_apply] at left right
  rcases left with ⟨onBlock, rfl, rfl⟩ | ⟨-, left⟩
  · rcases right with ⟨-, same, -⟩ | ⟨-, right⟩
    · exact same.symm
    · exact absurd right (buildable.not_on_of_clear (feasible.clear_target onBlock).2.2.1)
  · rcases right with ⟨onBlock, rfl, rfl⟩ | ⟨-, right⟩
    · exact absurd left (buildable.not_on_of_clear (feasible.clear_target onBlock).2.2.1)
    · exact buildable.single x y z left right

theorem Buildable.clear_apply (buildable : Buildable w.Holds) {x : String}
    (mentioned : Mentioned w.Holds x) :
    (w.apply move).Holds (.clear x) ↔ ∀ y, ¬ (w.apply move).Holds (.on y x) := by
  simp only [buildable.proper.holds_apply]
  constructor
  · rintro ⟨free, other⟩ y (⟨onBlock, -, same⟩ | ⟨moved, stands⟩)
    · exact other onBlock same
    · rcases free with lifted | free
      · exact moved (buildable.single y move.block x stands lifted)
      · exact buildable.not_on_of_clear free stands
  · intro none
    refine ⟨?_, fun onBlock same => none move.block (.inl ⟨onBlock, rfl, same⟩)⟩
    by_cases lifted : w.Holds (.on move.block x)
    · exact .inl lifted
    · refine .inr ((buildable.clear x mentioned).2 fun y stands => ?_)
      by_cases moved : y = move.block
      · exact lifted (moved ▸ stands)
      · exact none y (.inr ⟨moved, stands⟩)

theorem Buildable.apply (buildable : Buildable w.Holds) (feasible : w.Feasible move) :
    Buildable (w.apply move).Holds := by
  have proper := buildable.proper
  have mentioned {x : String} (there : Mentioned (w.apply move).Holds x) : Mentioned w.Holds x :=
    mentioned_of_mem_blocks (buildable.mentioned_of_apply feasible there)
  have groundedBlock : Grounded (w.apply move).Holds move.block := by
    by_cases onto : move.target = table
    · exact .onTable ((proper.holds_apply (.onTable _)).2 (.inl ⟨onto, rfl⟩))
    · obtain ⟨present, apart, -⟩ := feasible.clear_target onto
      have grounded := buildable.grounded _ (mentioned_of_mem_blocks present)
      exact .on ((proper.holds_apply (.on _ _)).2 (.inl ⟨onto, rfl, rfl⟩))
        (buildable.grounded_apply feasible grounded apart.symm)
  refine ⟨fun x there => buildable.names x (mentioned there),
    fun x there => buildable.supported_apply (mentioned there),
    fun x y z => buildable.single_apply feasible, fun x there => ?_,
    fun x there => buildable.clear_apply (mentioned there)⟩
  by_cases moved : x = move.block
  · rwa [moved]
  · exact buildable.grounded_apply feasible (buildable.grounded x (mentioned there)) moved

theorem Buildable.mentioned_apply_iff (buildable : Buildable w.Holds) (feasible : w.Feasible move)
    {x : String} : Mentioned (w.apply move).Holds x ↔ Mentioned w.Holds x := by
  rw [(buildable.apply feasible).mentioned_iff, buildable.blocks_apply feasible,
    buildable.mentioned_iff]

theorem Buildable.clear_block (buildable : Buildable w.Holds) (feasible : w.Feasible move) :
    (w.apply move).Holds (.clear move.block) := by
  refine (buildable.proper.holds_apply (.clear _)).2 ⟨.inr feasible.2.1, fun onBlock => ?_⟩
  exact (feasible.clear_target onBlock).2.1

theorem Buildable.apply_apply (buildable : Buildable w.Holds) (feasible : w.Feasible move)
    (target : String) :
    ((w.apply move).apply ⟨move.block, target⟩).Alike (w.apply ⟨move.block, target⟩) := by
  have proper := buildable.proper
  intro fluent
  rw [(proper.applyFeasible feasible).holds_apply, proper.holds_apply]
  cases fluent with
  | on x y =>
    simp only [proper.holds_apply]
    by_cases moved : x = move.block <;> simp [moved]
  | onTable x =>
    simp only [proper.holds_apply]
    by_cases moved : x = move.block <;> simp [moved]
  | clear x =>
    simp only [proper.holds_apply]
    have free (onBlock : move.target ≠ table) (same : x = move.target) : w.Holds (.clear x) :=
      same ▸ (feasible.clear_target onBlock).2.2.1
    refine and_congr_left' ?_
    tauto

theorem Buildable.apply_on (buildable : Buildable w.Holds) {x y : String}
    (stands : w.Holds (.on x y)) : (w.apply ⟨x, y⟩).Alike w := by
  have onBlock : y ≠ table := (buildable.names y (mentioned_below stands)).2
  have covered : ¬ w.Holds (.clear y) := fun free => buildable.not_on_of_clear free stands
  intro fluent
  rw [buildable.proper.holds_apply]
  cases fluent with
  | on a b =>
    constructor
    · rintro (⟨-, rfl, rfl⟩ | ⟨-, before⟩)
      · exact stands
      · exact before
    · intro before
      by_cases moved : a = x
      · subst moved
        exact .inl ⟨onBlock, rfl, buildable.oneSupport before stands⟩
      · exact .inr ⟨moved, before⟩
  | onTable a =>
    constructor
    · rintro (⟨onto, -⟩ | ⟨-, before⟩)
      · exact absurd onto onBlock
      · exact before
    · intro before
      refine .inr ⟨?_, before⟩
      rintro rfl
      exact buildable.not_onTable stands before
  | clear a =>
    constructor
    · rintro ⟨under | before, other⟩
      · exact absurd (buildable.oneSupport under stands) (other onBlock)
      · exact before
    · intro before
      refine ⟨.inr before, fun _ => ?_⟩
      rintro rfl
      exact covered before

theorem Buildable.apply_onTable (buildable : Buildable w.Holds) {x : String}
    (rests : w.Holds (.onTable x)) : (w.apply ⟨x, table⟩).Alike w := by
  have none (y : String) : ¬ w.Holds (.on x y) := fun stands => buildable.not_onTable stands rests
  intro fluent
  rw [buildable.proper.holds_apply]
  cases fluent with
  | on a b =>
    constructor
    · rintro (⟨onBlock, -⟩ | ⟨-, before⟩)
      · exact absurd rfl onBlock
      · exact before
    · intro before
      refine .inr ⟨?_, before⟩
      rintro rfl
      exact none b before
  | onTable a =>
    constructor
    · rintro (⟨-, rfl⟩ | ⟨-, before⟩)
      · exact rests
      · exact before
    · intro before
      by_cases moved : a = x
      · exact .inl ⟨rfl, moved⟩
      · exact .inr ⟨moved, before⟩
  | clear a =>
    constructor
    · rintro ⟨under | before, -⟩
      · exact absurd under (none a)
      · exact before
    · exact fun before => ⟨.inr before, fun onBlock => absurd rfl onBlock⟩

def StandsOn (holds : Fluent → Prop) (x z : String) : Prop :=
  holds (.on x z) ∨ holds (.onTable x) ∧ z = table

theorem Buildable.exists_back (buildable : Buildable w.Holds) (feasible : w.Feasible move) :
    ∃ z, StandsOn w.Holds move.block z ∧ (w.apply move).Feasible ⟨move.block, z⟩ ∧
      ((w.apply move).apply ⟨move.block, z⟩).Alike w := by
  have proper := buildable.proper
  have present := (buildable.mem_blocks_apply feasible).2 feasible.1
  have free := buildable.clear_block feasible
  rcases buildable.mem_blocks_iff.1 feasible.1 with rests | ⟨below, stands⟩
  · have onBlock : move.target ≠ table := by
      intro onto
      rcases feasible.2.2 with ⟨-, y, stands⟩ | ⟨target, -⟩
      · exact buildable.not_onTable stands rests
      · exact buildable.target_ne_table target onto
    refine ⟨table, .inr ⟨rests, rfl⟩, ⟨present, free, .inl ⟨rfl, move.target, ?_⟩⟩,
      fun fluent => ?_⟩
    · exact (proper.holds_apply (.on _ _)).2 (.inl ⟨onBlock, rfl, rfl⟩)
    · exact (buildable.apply_apply feasible table fluent).trans
        (buildable.apply_onTable rests fluent)
  · have apart : move.block ≠ below := by
      intro same
      rw [← same] at stands
      exact buildable.not_on_of_clear feasible.2.1 stands
    have elsewhere (onBlock : move.target ≠ table) : below ≠ move.target := by
      rintro rfl
      exact (feasible.clear_target onBlock).2.2.2 stands
    refine ⟨below, .inl stands, ⟨present, free, .inr ⟨?_, apart, ?_, ?_⟩⟩, fun fluent => ?_⟩
    · exact (buildable.mem_blocks_apply feasible).2 (mem_blocks.2 (.inr (.inl ⟨_, stands⟩)))
    · exact (proper.holds_apply (.clear _)).2 ⟨.inl stands, elsewhere⟩
    · rw [proper.holds_apply]
      rintro (⟨onBlock, -, same⟩ | ⟨moved, -⟩)
      · exact elsewhere onBlock same
      · exact moved rfl
    · exact (buildable.apply_apply feasible below fluent).trans (buildable.apply_on stands fluent)

end DeclarativeMdp.BlocksWorld
