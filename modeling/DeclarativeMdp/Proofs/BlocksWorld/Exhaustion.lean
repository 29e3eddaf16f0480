import DeclarativeMdp.Proofs.BlocksWorld.Search
import DeclarativeMdp.Proofs.BlocksWorld.Buildable
import Mathlib.Data.Set.Card

set_option autoImplicit false

namespace DeclarativeMdp.BlocksWorld.World

variable {goal state : State} {start w : World}

inductive LeadsTo (goal : State) (start : World) : World → Prop
  | here : LeadsTo goal start start
  | move {world : World} {move : Move} (before : LeadsTo goal start world)
      (possible : move ∈ world.moves goal) : LeadsTo goal start (world.apply move)

def reachable (goal : State) (start : World) : Set State :=
  { state | ∃ world, LeadsTo goal start world ∧ world.toState = state }

theorem LeadsTo.proper (leads : LeadsTo goal start w) (proper : start.Proper) : w.Proper := by
  induction leads with
  | here => exact proper
  | move _ possible ih => exact ih.apply possible

theorem LeadsTo.names (leads : LeadsTo goal start w) (proper : start.Proper) :
    w.Names (Mentioned start.Holds) := by
  induction leads with
  | here => exact fun fluent holds name there => ⟨fluent, holds, there⟩
  | move before possible ih =>
    have properBefore := before.proper proper
    exact ih.apply properBefore (properBefore.mem_moves.1 possible).2

theorem finite_mentioned (world : World) : {name | Mentioned world.Holds name}.Finite := by
  let names := world.on.flatMap (fun pair => [pair.1, pair.2]) ++ world.onTable ++ world.clear
  refine (List.finite_toSet names).subset ?_
  rintro name ⟨f, holds, there⟩
  change name ∈ names
  simp only [names, List.mem_append, List.mem_flatMap]
  cases f with
  | on x y => exact .inl (.inl ⟨(x, y), holds, there⟩)
  | onTable x => exact .inl (.inr (List.mem_singleton.1 there ▸ holds))
  | clear x => exact .inr (List.mem_singleton.1 there ▸ holds)

theorem finite_fluents {names : Set String} (finite : names.Finite) :
    {f : Fluent | ∀ name ∈ f.blocks, name ∈ names}.Finite := by
  have stands := (finite.prod finite).image fun pair => Fluent.on pair.1 pair.2
  have others := (finite.image Fluent.onTable).union (finite.image Fluent.clear)
  refine (stands.union others).subset fun f inside => ?_
  cases f with
  | on x y =>
    have both : x ∈ names ∧ y ∈ names := by simpa [Fluent.blocks] using inside
    exact .inl ⟨(x, y), both, rfl⟩
  | onTable x => exact .inr (.inl ⟨x, by simpa [Fluent.blocks] using inside, rfl⟩)
  | clear x => exact .inr (.inr ⟨x, by simpa [Fluent.blocks] using inside, rfl⟩)

theorem finite_states {facts : Set Fact} (finite : facts.Finite) :
    {state : State | ∀ fact ∈ state, fact ∈ facts}.Finite := by
  refine Set.Finite.of_finite_image (f := fun state : State => {fact | fact ∈ state}) ?_ ?_
  · refine finite.finite_subsets.subset ?_
    rintro _ ⟨state, inside, rfl⟩
    exact inside
  · intro s _ t _ same
    exact SortedSet.eq_of_mem_iff fun fact => Set.ext_iff.1 same fact

theorem Proper.finite_reachable (proper : start.Proper) (goal : State) :
    (reachable goal start).Finite := by
  have facts := (finite_fluents (finite_mentioned start)).image Fluent.fact
  refine (finite_states facts).subset ?_
  rintro _ ⟨world, leads, rfl⟩ fact present
  obtain ⟨f, holds, rfl⟩ := mem_toState.1 present
  exact ⟨f, leads.names proper f holds, rfl⟩

-- The rounds of a search that no horizon stops, up to one after which there is no other.
inductive SearchEnds (goal : State) : Std.HashSet State → List World → Ending → Prop
  | exhausted {seen : Std.HashSet State} {layer : List World}
      (outcome : expand goal seen layer = .exhausted) : SearchEnds goal seen layer ⟨0, false⟩
  | arrived {seen : Std.HashSet State} {layer : List World}
      (outcome : expand goal seen layer = .arrived) : SearchEnds goal seen layer ⟨1, true⟩
  | next {seen later : Std.HashSet State} {layer next : List World} {ending : Ending}
      (outcome : expand goal seen layer = .next later next)
      (onward : SearchEnds goal later next ending) : SearchEnds goal seen layer ending.deeper

def PlanSearchEnds (goal : State) (start : World) (ending : Ending) : Prop :=
  searchFrom goal (ending = ⟨0, true⟩) (SearchEnds goal · · ending) start

def unseen (goal : State) (start : World) (seen : Std.HashSet State) : Set State :=
  reachable goal start \ {state | state ∈ seen}

section

variable {seen later : Std.HashSet State} {layer next : List World} {ending : Ending}
  {horizon : ℕ}

theorem Expands.leadsTo (expands : Expands goal seen layer later next)
    (leads : ∀ world ∈ layer, LeadsTo goal start world) :
    ∀ world ∈ next, LeadsTo goal start world := by
  intro world present
  obtain ⟨before, inLayer, move, possible, rfl⟩ :=
    exists_move_of_mem_following (expands.movesTo world present)
  exact (leads before inLayer).move possible

theorem Expands.ncard_unseen_lt (expands : Expands goal seen layer later next)
    (finite : (reachable goal start).Finite) (leads : ∀ world ∈ layer, LeadsTo goal start world)
    (present : w ∈ next) :
    (unseen goal start later).ncard < (unseen goal start seen).ncard := by
  have reached : w.toState ∈ reachable goal start := ⟨w, expands.leadsTo leads w present, rfl⟩
  have known : w.toState ∈ later :=
    (expands.mem_later _).2 (.inr ⟨w, expands.movesTo w present, rfl⟩)
  refine Set.ncard_lt_ncard ⟨fun state left => ?_, fun all => ?_⟩ finite.sdiff
  · exact ⟨left.1, fun before => left.2 ((expands.mem_later _).2 (.inl before))⟩
  · exact (all ⟨reached, expands.new w present⟩).2 known

theorem search_nil (goal : State) (horizon : ℕ) (seen : Std.HashSet State) :
    search goal horizon seen [] = ⟨0, false⟩ := by
  cases horizon <;> rfl

-- By induction on the horizon: every layer but the last is followed by one with an unseen state.
theorem search_layers_le (finite : (reachable goal start).Finite)
    (leads : ∀ world ∈ layer, LeadsTo goal start world) :
    (search goal horizon seen layer).layers ≤ (unseen goal start seen).ncard + 1 := by
  induction horizon generalizing seen layer with
  | zero => exact Nat.zero_le _
  | succ horizon ih =>
    rcases expand_cases goal seen layer with
      ⟨-, outcome⟩ | ⟨-, outcome⟩ | ⟨later, next, expands, outcome⟩
    · simp [search, outcome]
    · simp [search, outcome]
    · simp only [search, outcome, Ending.deeper]
      cases next with
      | nil => simp [search_nil]
      | cons world others =>
        have fewer := expands.ncard_unseen_lt finite leads List.mem_cons_self
        have bound : (search goal horizon later (world :: others)).layers ≤
            (unseen goal start later).ncard + 1 := ih (expands.leadsTo leads)
        omega

-- By induction on the number of states that are still unseen.
theorem exists_searchEnds (finite : (reachable goal start).Finite)
    (leads : ∀ world ∈ layer, LeadsTo goal start world) :
    ∃ ending, SearchEnds goal seen layer ending := by
  induction bound : (unseen goal start seen).ncard using Nat.strong_induction_on
    generalizing seen layer with
  | _ count ih =>
    subst bound
    rcases expand_cases goal seen layer with
      ⟨-, outcome⟩ | ⟨-, outcome⟩ | ⟨later, next, expands, outcome⟩
    · exact ⟨_, .exhausted outcome⟩
    · exact ⟨_, .arrived outcome⟩
    · have onward : ∃ ending, SearchEnds goal later next ending := by
        cases next with
        | nil => exact ⟨_, .exhausted rfl⟩
        | cons world others =>
          have fewer := expands.ncard_unseen_lt finite leads List.mem_cons_self
          exact ih _ fewer (expands.leadsTo leads) rfl
      obtain ⟨ending, ends⟩ := onward
      exact ⟨_, .next outcome ends⟩

theorem SearchEnds.search_eq (ends : SearchEnds goal seen layer ending)
    (far : ending.layers ≤ horizon) : search goal horizon seen layer = ending := by
  induction ends generalizing horizon with
  | exhausted outcome =>
    cases horizon with
    | zero => rfl
    | succ horizon => rw [search, outcome]
  | arrived outcome =>
    cases horizon with
    | zero => exact absurd far (Nat.not_succ_le_zero _)
    | succ horizon => rw [search, outcome]
  | next outcome _ ih =>
    cases horizon with
    | zero => exact absurd far (Nat.not_succ_le_zero _)
    | succ horizon =>
      rw [search, outcome]
      exact congrArg Ending.deeper (ih (Nat.le_of_succ_le_succ far))

theorem leadsTo_of_mem_start : ∀ world ∈ [start], LeadsTo goal start world := by
  intro world present
  rw [List.mem_singleton.1 present]
  exact .here

theorem planSearch_layers_le (finite : (reachable goal start).Finite) :
    (start.planSearch goal horizon).layers ≤ (reachable goal start).ncard := by
  unfold planSearch searchFrom
  split_ifs with reached
  · exact Nat.zero_le _
  · have bound : (search goal horizon (Std.HashSet.emptyWithCapacity.insert start.toState)
        [start]).layers ≤ _ := search_layers_le finite leadsTo_of_mem_start
    have known : {state | state ∈ Std.HashSet.emptyWithCapacity.insert start.toState} =
        {start.toState} := by
      ext state
      simp [eq_comm (a := state)]
    have counted := Set.ncard_sdiff_singleton_add_one
      (show start.toState ∈ reachable goal start from ⟨start, .here, rfl⟩) finite
    rw [unseen, known] at bound
    omega

theorem exists_planSearchEnds (finite : (reachable goal start).Finite) :
    ∃ ending, start.PlanSearchEnds goal ending := by
  unfold PlanSearchEnds searchFrom
  split_ifs with reached
  · exact ⟨_, rfl⟩
  · exact exists_searchEnds finite leadsTo_of_mem_start

theorem PlanSearchEnds.planSearch_eq (ends : start.PlanSearchEnds goal ending)
    (far : ending.layers ≤ horizon) : start.planSearch goal horizon = ending := by
  unfold PlanSearchEnds searchFrom at ends
  unfold planSearch searchFrom
  split_ifs at ends ⊢ with reached
  · exact ends.symm
  · exact ends.search_eq far

theorem PlanSearchEnds.unique {other : Ending} (ends : start.PlanSearchEnds goal ending)
    (ends' : start.PlanSearchEnds goal other) : other = ending := by
  rw [← ends.planSearch_eq (le_max_left _ _), ← ends'.planSearch_eq (le_max_right _ _)]

end

theorem planSearch_ends {state : State} {start : World} (read : ofState state = .ok start)
    (goal : State) :
    (∀ world, LeadsTo goal start world → ∀ name, Mentioned world.Holds name →
        Mentioned start.Holds name) ∧
      (reachable goal start).Finite ∧
      (∀ horizon : ℕ, (start.planSearch goal horizon).layers ≤ (reachable goal start).ncard) ∧
      ∃ ending, (∀ other, start.PlanSearchEnds goal other ↔ other = ending) ∧
        ∀ horizon : ℕ, (reachable goal start).ncard ≤ horizon →
          start.planSearch goal horizon = ending ∧
            start.planLength goal horizon = ending.steps? := by
  have proper := ofState_proper read
  have finite := proper.finite_reachable goal
  obtain ⟨ending, ends⟩ := exists_planSearchEnds finite
  have short : ending.layers ≤ (reachable goal start).ncard := by
    rw [← ends.planSearch_eq le_rfl]
    exact planSearch_layers_le finite
  refine ⟨fun world leads name there => ?_, finite, fun horizon => planSearch_layers_le finite,
    ending, fun other => ⟨ends.unique, fun same => same ▸ ends⟩, fun horizon enough => ?_⟩
  · obtain ⟨f, holds, inBlocks⟩ := there
    exact leads.names proper f holds name inBlocks
  · have same := ends.planSearch_eq (short.trans enough)
    exact ⟨same, congrArg Ending.steps? same⟩

def circle : List Fluent := [.on "a" "b", .on "b" "a", .clear "a", .clear "c"]

theorem planSearch_ends_circle :
    ∃ start, ofState (.ofList (circle.map Fluent.fact)) = .ok start ∧
      (reachable (.ofTexts ["on(c,a)"]) start).Finite ∧
      (∀ horizon : ℕ, (start.planSearch (.ofTexts ["on(c,a)"]) horizon).layers ≤
        (reachable (.ofTexts ["on(c,a)"]) start).ncard) ∧
      ∃ ending, (∀ other, start.PlanSearchEnds (.ofTexts ["on(c,a)"]) other ↔ other = ending) ∧
        ∀ horizon : ℕ, (reachable (.ofTexts ["on(c,a)"]) start).ncard ≤ horizon →
          start.planSearch (.ofTexts ["on(c,a)"]) horizon = ending ∧
            start.planLength (.ofTexts ["on(c,a)"]) horizon = ending.steps? := by
  have a : IsConstant "a" := by decide
  have b : IsConstant "b" := by decide
  have c : IsConstant "c" := by decide
  have named : ∀ f ∈ circle, f.Named := by
    simp [circle, Fluent.Named, Fluent.blocks, a.isBlock, b.isBlock, c.isBlock]
  have oneSupport : ∀ x y z, .on x y ∈ circle → .on x z ∈ circle → y = z := by
    intro x y z left right
    simp only [circle, List.mem_cons, Fluent.on.injEq, reduceCtorEq, List.not_mem_nil,
      or_false] at left right
    rcases left with ⟨rfl, rfl⟩ | ⟨rfl, rfl⟩ <;> simpa [eq_comm] using right
  obtain ⟨start, read, -⟩ := exists_world_of_fluents circle named oneSupport
  obtain ⟨-, finite, short, ends⟩ := planSearch_ends read (.ofTexts ["on(c,a)"])
  exact ⟨start, read, finite, short, ends⟩

end DeclarativeMdp.BlocksWorld.World
