import DeclarativeMdp.BlocksWorld.Search
import DeclarativeMdp.Proofs.BlocksWorld.Moves
import Mathlib.Data.Nat.Find
import Mathlib.Order.Bounds.Basic

set_option autoImplicit false

namespace DeclarativeMdp.BlocksWorld.World

def Within (goal : State) : Nat → World → Prop
  | 0, world => world.Reaches goal
  | count + 1, world => ∃ move ∈ world.moves goal, Within goal count (world.apply move)

section

variable {goal : State} {w v : World}

theorem moves_of_reaches (reached : w.Reaches goal) : w.moves goal = [] := if_pos reached

theorem Within.count_eq_zero {count : Nat} (within : Within goal count w)
    (reached : w.Reaches goal) : count = 0 := by
  cases count with
  | zero => rfl
  | succ count =>
    obtain ⟨move, possible, -⟩ := within
    simp [moves_of_reaches reached] at possible

theorem Within.of_alike {count : Nat} (within : Within goal count w) (alike : w.Alike v)
    (wProper : w.Proper) (vProper : v.Proper) : Within goal count v := by
  induction count generalizing w v with
  | zero => exact alike.reaches_iff.1 within
  | succ count ih =>
    obtain ⟨move, possible, later⟩ := within
    have same : w.moves goal = v.moves goal := alike.moves_eq wProper vProper
    refine ⟨move, same ▸ possible, ih later (alike.apply wProper vProper) ?_ ?_⟩
    · exact wProper.apply possible
    · exact vProper.apply (same ▸ possible)

theorem mem_fresh {seen : Std.HashSet State} {worlds : List World} {state : State} :
    state ∈ (fresh seen worlds).2 ↔ state ∈ seen ∨ ∃ world ∈ worlds, world.toState = state := by
  induction worlds generalizing seen with
  | nil => simp [fresh]
  | cons world worlds ih =>
    unfold fresh
    dsimp only
    split_ifs with known
    · rw [ih]
      simp only [List.mem_cons, exists_eq_or_imp]
      constructor
      · rintro (before | later)
        · exact .inl before
        · exact .inr (.inr later)
      · rintro (before | rfl | later)
        · exact .inl before
        · exact .inl known
        · exact .inr later
    · rw [ih]
      simp only [List.mem_cons, exists_eq_or_imp, Std.HashSet.mem_insert, beq_iff_eq, or_assoc,
        or_left_comm]

theorem fresh_subset {seen : Std.HashSet State} {worlds : List World} :
    ∀ world ∈ (fresh seen worlds).1, world ∈ worlds := by
  induction worlds generalizing seen with
  | nil => simp [fresh]
  | cons world worlds ih =>
    unfold fresh
    dsimp only
    split_ifs with known
    · exact fun other present => .tail _ (ih other present)
    · intro other present
      rcases List.mem_cons.1 present with rfl | present
      · exact .head _
      · exact .tail _ (ih other present)

theorem not_mem_of_mem_fresh {seen : Std.HashSet State} {worlds : List World} :
    ∀ world ∈ (fresh seen worlds).1, world.toState ∉ seen := by
  induction worlds generalizing seen with
  | nil => simp [fresh]
  | cons first others ih =>
    unfold fresh
    dsimp only
    split_ifs with known
    · exact ih
    · intro world present
      rcases List.mem_cons.1 present with rfl | present
      · exact known
      · exact fun before => ih world present (Std.HashSet.mem_insert.2 (.inr before))

theorem exists_mem_fresh {seen : Std.HashSet State} {worlds : List World} {state : State}
    (known : state ∈ (fresh seen worlds).2) (new : state ∉ seen) :
    ∃ world ∈ (fresh seen worlds).1, world.toState = state := by
  induction worlds generalizing seen with
  | nil => exact absurd known new
  | cons world worlds ih =>
    unfold fresh at known ⊢
    dsimp only at known ⊢
    split_ifs at known ⊢ with before
    · exact ih known new
    · by_cases same : world.toState = state
      · exact ⟨world, .head _, same⟩
      · have stillNew : state ∉ seen.insert world.toState := by simp [same, new]
        obtain ⟨other, present, shown⟩ := ih known stillNew
        exact ⟨other, .tail _ present, shown⟩

section

variable {seen later : Std.HashSet State} {layer next : List World} {count : Nat}

structure Expands (goal : State) (seen : Std.HashSet State) (layer : List World)
    (later : Std.HashSet State) (next : List World) : Prop where
  filled : layer ≠ []
  away : ∀ world ∈ layer.flatMap (successors goal), ¬ world.Reaches goal
  movesTo : ∀ world ∈ next, world ∈ layer.flatMap (successors goal)
  new : ∀ world ∈ next, world.toState ∉ seen
  mem_later : ∀ state, state ∈ later ↔
    state ∈ seen ∨ ∃ world ∈ layer.flatMap (successors goal), world.toState = state
  covered : ∀ state ∈ later, state ∉ seen → ∃ world ∈ next, world.toState = state

theorem expand_cases (goal : State) (seen : Std.HashSet State) (layer : List World) :
    (layer = [] ∧ expand goal seen layer = .exhausted) ∨
      ((∃ world ∈ layer.flatMap (successors goal), world.Reaches goal) ∧
        expand goal seen layer = .arrived) ∨
      ∃ later next, Expands goal seen layer later next ∧
        expand goal seen layer = .next later next := by
  by_cases empty : layer = []
  · exact .inl ⟨empty, if_pos (List.isEmpty_iff.2 empty)⟩
  have filled : ¬ layer.isEmpty := mt List.isEmpty_iff.1 empty
  by_cases reached : ∃ world ∈ layer.flatMap (successors goal), world.Reaches goal
  · have arrived : (layer.flatMap (successors goal)).any (fun world => world.Reaches goal) := by
      obtain ⟨world, movesTo, there⟩ := reached
      exact List.any_eq_true.2 ⟨world, movesTo, decide_eq_true there⟩
    exact .inr (.inl ⟨reached, (if_neg filled).trans (if_pos arrived)⟩)
  · have further : ¬ (layer.flatMap (successors goal)).any (fun world => world.Reaches goal) := by
      intro arrived
      obtain ⟨world, movesTo, there⟩ := List.any_eq_true.1 arrived
      exact reached ⟨world, movesTo, of_decide_eq_true there⟩
    refine .inr (.inr ⟨_, _, ?_, (if_neg filled).trans (if_neg further)⟩)
    exact
      { filled := empty
        away := fun world movesTo there => reached ⟨world, movesTo, there⟩
        movesTo := fresh_subset
        new := not_mem_of_mem_fresh
        mem_later := fun _ => mem_fresh
        covered := fun _ => exists_mem_fresh }

-- No seen state is a goal, and what follows a seen state was seen, but for the layer that is
-- expanded next.
structure Frontier (goal : State) (seen : Std.HashSet State) (layer : List World) : Prop where
  proper : ∀ world ∈ layer, world.Proper
  reached : ∀ world ∈ layer, world.toState ∈ seen
  away : ∀ world : World, world.Proper → world.toState ∈ seen → ¬ world.Reaches goal
  closed : ∀ world : World, world.Proper → world.toState ∈ seen →
    (∃ other ∈ layer, other.toState = world.toState) ∨
      ∀ move ∈ world.moves goal, (world.apply move).toState ∈ seen

theorem Frontier.start (proper : w.Proper) (away : ¬ w.Reaches goal) :
    Frontier goal (Std.HashSet.emptyWithCapacity.insert w.toState) [w] where
  proper world present := List.mem_singleton.1 present ▸ proper
  reached world present := by simp [List.mem_singleton.1 present]
  away world _ there atGoal := by
    have same : w.toState = world.toState := by simpa using there
    exact away (by unfold Reaches; rwa [same])
  closed world _ there := .inl ⟨w, .head _, by simpa using there⟩

-- Whatever leads to the goal from a seen state passes through the layer.
theorem Frontier.exists_layer (frontier : Frontier goal seen layer) (proper : w.Proper)
    (there : w.toState ∈ seen) (within : Within goal count w) :
    ∃ world ∈ layer, ∃ rest, rest ≤ count ∧ Within goal rest world := by
  induction count generalizing w with
  | zero => exact absurd within (frontier.away w proper there)
  | succ count ih =>
    rcases frontier.closed w proper there with ⟨other, present, same⟩ | closed
    · have otherProper := frontier.proper other present
      have alike := proper.alike_of_toState_eq otherProper same.symm
      exact ⟨other, present, count + 1, Nat.le_refl _, within.of_alike alike proper otherProper⟩
    · obtain ⟨move, possible, later⟩ := within
      obtain ⟨world, present, rest, fewer, reaches⟩ :=
        ih (proper.apply possible) (closed move possible) later
      exact ⟨world, present, rest, Nat.le_succ_of_le fewer, reaches⟩

theorem mem_following {move : Move} (present : w ∈ layer) (possible : move ∈ w.moves goal) :
    w.apply move ∈ layer.flatMap (successors goal) :=
  List.mem_flatMap.2 ⟨w, present, List.mem_map.2 ⟨move, possible, rfl⟩⟩

theorem exists_move_of_mem_following (movesTo : w ∈ layer.flatMap (successors goal)) :
    ∃ world ∈ layer, ∃ move ∈ world.moves goal, world.apply move = w := by
  obtain ⟨world, present, after⟩ := List.mem_flatMap.1 movesTo
  obtain ⟨move, possible, made⟩ := List.mem_map.1 after
  exact ⟨world, present, move, possible, made⟩

theorem Frontier.of_expands (frontier : Frontier goal seen layer)
    (expands : Expands goal seen layer later next) : Frontier goal later next := by
  have properNext : ∀ world ∈ layer.flatMap (successors goal), world.Proper := by
    intro world present
    obtain ⟨before, inLayer, move, possible, rfl⟩ := exists_move_of_mem_following present
    exact (frontier.proper before inLayer).apply possible
  refine ⟨fun world present => ?_, fun world present => ?_, fun world proper there => ?_,
    fun world proper there => ?_⟩
  · exact properNext world (expands.movesTo world present)
  · exact (expands.mem_later _).2 (.inr ⟨world, expands.movesTo world present, rfl⟩)
  · rcases (expands.mem_later _).1 there with before | ⟨other, present, same⟩
    · exact frontier.away world proper before
    · have alike := (properNext other present).alike_of_toState_eq proper same
      exact fun reached => expands.away other present (alike.reaches_iff.2 reached)
  · by_cases before : world.toState ∈ seen
    · refine .inr fun move possible => (expands.mem_later _).2 ?_
      rcases frontier.closed world proper before with ⟨other, present, same⟩ | closed
      · have otherProper := frontier.proper other present
        have alike := otherProper.alike_of_toState_eq proper same
        have possibleThere : move ∈ other.moves goal := by
          rwa [alike.moves_eq otherProper proper]
        exact .inr ⟨other.apply move, mem_following present possibleThere,
          (alike.apply otherProper proper).toState_eq⟩
      · exact .inl (closed move possible)
    · exact .inl (expands.covered _ there before)

def counts (goal : State) (layer : List World) : Set Nat :=
  { count | ∃ world ∈ layer, Within goal count world }

theorem Frontier.counts_pos (frontier : Frontier goal seen layer)
    (possible : count ∈ counts goal layer) : 0 < count := by
  obtain ⟨world, present, within⟩ := possible
  rcases Nat.eq_zero_or_pos count with rfl | positive
  · have away := frontier.away world (frontier.proper world present)
    exact absurd within (away (frontier.reached world present))
  · exact positive

theorem Expands.succ_mem_counts (expands : Expands goal seen layer later next)
    (possible : count ∈ counts goal next) : count + 1 ∈ counts goal layer := by
  obtain ⟨world, present, within⟩ := possible
  obtain ⟨before, inLayer, move, possible, rfl⟩ :=
    exists_move_of_mem_following (expands.movesTo world present)
  exact ⟨before, inLayer, move, possible, within⟩

theorem Frontier.exists_mem_counts (frontier : Frontier goal seen layer)
    (expands : Expands goal seen layer later next) (possible : count ∈ counts goal layer) :
    ∃ rest ∈ counts goal next, rest + 1 ≤ count := by
  obtain ⟨world, present, within⟩ := possible
  have proper := frontier.proper world present
  cases count with
  | zero => exact absurd within (frontier.away world proper (frontier.reached world present))
  | succ count =>
    obtain ⟨move, possible, onward⟩ := within
    have known : (world.apply move).toState ∈ later :=
      (expands.mem_later _).2 (.inr ⟨_, mem_following present possible, rfl⟩)
    obtain ⟨other, inNext, rest, fewer, reaches⟩ :=
      (frontier.of_expands expands).exists_layer (proper.apply possible) known onward
    exact ⟨rest, ⟨other, inNext, reaches⟩, Nat.succ_le_succ fewer⟩

theorem Frontier.isLeast_next (frontier : Frontier goal seen layer)
    (expands : Expands goal seen layer later next) :
    IsLeast (counts goal layer) count ↔
      ∃ rest, IsLeast (counts goal next) rest ∧ rest + 1 = count := by
  constructor
  · rintro ⟨possible, least⟩
    obtain ⟨rest, onward, fewer⟩ := frontier.exists_mem_counts expands possible
    have same : rest + 1 = count :=
      Nat.le_antisymm fewer (least (expands.succ_mem_counts onward))
    refine ⟨rest, ⟨onward, fun other there => ?_⟩, same⟩
    have bound := least (expands.succ_mem_counts there)
    omega
  · rintro ⟨rest, ⟨onward, least⟩, rfl⟩
    refine ⟨expands.succ_mem_counts onward, fun other possible => ?_⟩
    obtain ⟨less, there, fewer⟩ := frontier.exists_mem_counts expands possible
    have bound := least there
    omega

theorem Frontier.isLeast_one (frontier : Frontier goal seen layer)
    (arrived : ∃ world ∈ layer.flatMap (successors goal), world.Reaches goal) :
    IsLeast (counts goal layer) 1 := by
  obtain ⟨world, movesTo, reached⟩ := arrived
  obtain ⟨before, inLayer, move, possible, rfl⟩ := exists_move_of_mem_following movesTo
  exact ⟨⟨before, inLayer, move, possible, reached⟩, fun _ => frontier.counts_pos⟩

theorem Ending.deeper_steps? (ending : Ending) :
    ending.deeper.steps? = ending.steps?.map (· + 1) := by
  unfold steps? deeper
  cases ending.arrived <;> rfl

-- By induction on the horizon: each layer either holds the last step or hands on to the next one.
theorem Frontier.search_steps?_eq_some_iff {horizon : Nat} (frontier : Frontier goal seen layer) :
    (search goal horizon seen layer).steps? = some count ↔
      count ≤ horizon ∧ IsLeast (counts goal layer) count := by
  induction horizon generalizing seen layer count with
  | zero =>
    simp only [search, Ending.steps?, Bool.false_eq_true, if_false, reduceCtorEq, false_iff,
      not_and]
    intro none least
    have positive := frontier.counts_pos least.1
    omega
  | succ horizon ih =>
    rcases expand_cases goal seen layer with
      ⟨rfl, outcome⟩ | ⟨arrived, outcome⟩ | ⟨later, next, expands, outcome⟩
    · simp only [search, outcome, Ending.steps?, Bool.false_eq_true, if_false, reduceCtorEq,
        false_iff, not_and]
      rintro - ⟨⟨world, present, -⟩, -⟩
      simp at present
    · have one := frontier.isLeast_one arrived
      simp only [search, outcome, Ending.steps?, if_true, Option.some.injEq]
      constructor
      · rintro rfl
        exact ⟨by omega, one⟩
      · rintro ⟨-, least⟩
        exact one.unique least
    · have onward := frontier.of_expands expands
      simp only [search, outcome]
      rw [Ending.deeper_steps?, frontier.isLeast_next expands, Option.map_eq_some_iff]
      constructor
      · rintro ⟨rest, found, rfl⟩
        obtain ⟨near, least⟩ := (ih onward).1 found
        exact ⟨by omega, rest, least, rfl⟩
      · rintro ⟨near, rest, least, rfl⟩
        exact ⟨rest, (ih onward).2 ⟨by omega, least⟩, rfl⟩

end

theorem planLength_of_reaches (reached : w.Reaches goal) (horizon : Nat) :
    w.planLength goal horizon = some 0 := by
  rw [planLength, planSearch, searchFrom, if_pos reached]
  rfl

theorem planLength_zero_of_not_reaches (away : ¬ w.Reaches goal) :
    w.planLength goal 0 = none := by
  rw [planLength, planSearch, searchFrom, if_neg away]
  rfl

theorem planLength_eq_some_iff {horizon count : Nat} (proper : w.Proper) :
    w.planLength goal horizon = some count ↔
      count ≤ horizon ∧ IsLeast { count | Within goal count w } count := by
  by_cases reached : w.Reaches goal
  · have none : IsLeast { count | Within goal count w } 0 := ⟨reached, fun _ _ => Nat.zero_le _⟩
    rw [planLength_of_reaches reached]
    constructor
    · rintro ⟨rfl⟩
      exact ⟨Nat.zero_le _, none⟩
    · rintro ⟨-, least⟩
      rw [least.unique none]
  · have same : counts goal [w] = { count | Within goal count w } := by
      ext count
      simp [counts]
    rw [planLength, planSearch, searchFrom, if_neg reached,
      (Frontier.start proper reached).search_steps?_eq_some_iff, same]

theorem planLength_of_le {short long count : Nat} (proper : w.Proper) (longer : short ≤ long)
    (found : w.planLength goal short = some count) : w.planLength goal long = some count := by
  obtain ⟨near, least⟩ := (planLength_eq_some_iff proper).1 found
  exact (planLength_eq_some_iff proper).2 ⟨near.trans longer, least⟩

theorem exists_planLength {horizon count : Nat} (proper : w.Proper)
    (within : Within goal count w) (near : count ≤ horizon) :
    ∃ least, w.planLength goal horizon = some least := by
  classical
  have reachable : ∃ count, Within goal count w := ⟨count, within⟩
  have least : IsLeast { count | Within goal count w } (Nat.find reachable) :=
    ⟨Nat.find_spec reachable, fun _ => Nat.find_min' reachable⟩
  exact ⟨_, (planLength_eq_some_iff proper).2 ⟨(least.2 within).trans near, least⟩⟩

end

end DeclarativeMdp.BlocksWorld.World
