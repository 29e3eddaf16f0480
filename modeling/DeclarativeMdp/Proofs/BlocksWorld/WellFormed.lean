import DeclarativeMdp.Proofs.BlocksWorld.Runs
import DeclarativeMdp.Proofs.BlocksWorld.Buildable

set_option autoImplicit false

namespace DeclarativeMdp.BlocksWorld

open World

structure WellFormed (state : State) : Prop where
  canonical : ∀ fact ∈ state, ∃ f, Fluent.read fact = .ok f ∧ f.fact = fact
  buildable : Buildable (Says state)

variable {state : State} {w : World}

theorem WellFormed.exists_world (wellFormed : WellFormed state) :
    ∃ world, ofState state = .ok world ∧ ∀ f, world.Holds f ↔ Says state f := by
  have oneSupport : OneSupport state := fun _ _ _ => wellFormed.buildable.oneSupport
  obtain ⟨world, read, -, same⟩ := exists_world_of_canonical wellFormed.canonical oneSupport
  exact ⟨world, read, same⟩

theorem WellFormed.of_buildable (buildable : Buildable w.Holds) : WellFormed w.toState where
  canonical fact present := by
    obtain ⟨f, holds, rfl⟩ := mem_toState.1 present
    exact ⟨f, (buildable.proper.named f holds).read_fact, rfl⟩
  buildable := by rwa [buildable.proper.says_toState]

theorem wellFormed_of_fluents (fluents : List Fluent) (buildable : Buildable (· ∈ fluents)) :
    WellFormed (.ofList (fluents.map Fluent.fact)) := by
  have named (f : Fluent) (there : f ∈ fluents) : f.Named := fun name inBlocks =>
    (buildable.names name ⟨f, there, inBlocks⟩).1.isBlock
  have meaning : Says (.ofList (fluents.map Fluent.fact)) = (· ∈ fluents) :=
    funext fun f => propext (says_ofList_iff named)
  exact ⟨canonical_ofList named, by rwa [meaning]⟩

theorem wellFormed_tower {x y : String} (xConstant : IsConstant x) (yConstant : IsConstant y)
    (xNamed : x ≠ table) (yNamed : y ≠ table) (apart : x ≠ y) : WellFormed (tower x y) := by
  refine wellFormed_of_fluents [.clear x, .on x y, .onTable y] ?_
  have mentioned {block : String} (there : Mentioned (· ∈ [.clear x, .on x y, .onTable y]) block) :
      block = x ∨ block = y := by
    obtain ⟨f, present, inBlocks⟩ := there
    simp only [List.mem_cons, List.not_mem_nil, or_false] at present
    rcases present with rfl | rfl | rfl <;> simp [Fluent.blocks] at inBlocks <;> tauto
  have bottom : Grounded (· ∈ [.clear x, .on x y, .onTable y]) y := .onTable (by simp)
  refine ⟨fun block there => ?_, fun block there => ?_, ?_, fun block there => ?_,
    fun block there => ?_⟩
  · rcases mentioned there with rfl | rfl <;> simp [xConstant, yConstant, xNamed, yNamed]
  · rcases mentioned there with rfl | rfl <;> simp [apart, apart.symm]
  · simp +contextual
  · rcases mentioned there with rfl | rfl
    · exact .on (by simp) bottom
    · exact bottom
  · rcases mentioned there with rfl | rfl <;> simp [apart, apart.symm]

theorem exists_world_tower {x y : String} (xConstant : IsConstant x) (yConstant : IsConstant y)
    (xNamed : x ≠ table) (yNamed : y ≠ table) (apart : x ≠ y) :
    ∃ world, ofState (tower x y) = .ok world ∧
      (∀ f, world.Holds f ↔ f ∈ [Fluent.clear x, .on x y, .onTable y]) ∧ Buildable world.Holds := by
  have wellFormed := wellFormed_tower xConstant yConstant xNamed yNamed apart
  obtain ⟨world, read, same⟩ := wellFormed.exists_world
  have named := named_tower xConstant.isBlock yConstant.isBlock
  exact ⟨world, read, fun f => (same f).trans (says_ofList_iff named),
    wellFormed.buildable.of_read read⟩

structure WellFormedRun (names : String → Prop) (engine : Engine BlocksWorld) (world : World) :
    Prop where
  inWorld : InWorld engine world
  buildable : Buildable world.Holds
  mentioned : ∀ block, Mentioned world.Holds block ↔ names block
  recorded : ∀ state ∈ engine.trajectory.states,
    WellFormed state ∧ ∀ block, Mentioned (Says state) block ↔ names block

variable {names : String → Prop} {engine : Engine BlocksWorld}

theorem WellFormedRun.consulted (wellFormedRun : WellFormedRun names engine w) (request : Request) :
    WellFormedRun names (engine.consulted request) w :=
  ⟨wellFormedRun.inWorld.consulted request, wellFormedRun.buildable, wellFormedRun.mentioned,
    wellFormedRun.recorded⟩

theorem WellFormedRun.advance {move : Move} (wellFormedRun : WellFormedRun names engine w)
    (action : Action) (possible : move ∈ w.moves engine.goal) :
    ∃ world, WellFormedRun names (engine.advance action (w.successor engine.goal move)) world := by
  have feasible := (wellFormedRun.inWorld.proper.mem_moves.1 possible).2
  have buildable := wellFormedRun.buildable.apply feasible
  have mentioned (block : String) : Mentioned (w.apply move).Holds block ↔ names block :=
    (wellFormedRun.buildable.mentioned_apply_iff feasible).trans (wellFormedRun.mentioned block)
  obtain ⟨world, inWorld, alike⟩ := wellFormedRun.inWorld.advance action possible
  refine ⟨world, inWorld, buildable.of_alike alike.symm, by rwa [alike.holds_eq],
    fun state present => ?_⟩
  rcases List.mem_append.1 present with before | last
  · exact wellFormedRun.recorded state before
  · rw [List.mem_singleton.1 last]
    refine ⟨.of_buildable buildable, fun block => ?_⟩
    rw [← mentioned block, ← buildable.proper.says_toState]
    rfl

theorem WellFormedRun.performAll (wellFormedRun : WellFormedRun names engine w)
    (operations : List Operation) :
    ∃ world, WellFormedRun names (engine.performAll operations) world := by
  have invariant : Invariant (WellFormedRun names) :=
    ⟨fun _ _ wellFormedRun => wellFormedRun.inWorld,
      fun _ _ request wellFormedRun => wellFormedRun.consulted request,
      fun _ _ action _ wellFormedRun => wellFormedRun.advance action⟩
  exact invariant.performAll wellFormedRun operations

theorem create_wellFormedRun {initial goal : State} {programs : ProgramSet} {solver : BlocksWorld}
    {config : Config}
    (made : (Engine.create initial goal programs solver config).result = .ok engine)
    (wellFormed : WellFormed initial) :
    ∃ world, WellFormedRun (Mentioned (Says initial)) engine world := by
  obtain ⟨w, inWorld⟩ := create_inWorld made
  obtain ⟨-, available, -, rfl⟩ := Engine.create_eq_ok_iff.1 made
  have same := wellFormed.buildable.holds_eq inWorld.read
  refine ⟨w, inWorld, wellFormed.buildable.of_read inWorld.read, by simp [same],
    fun state present => ?_⟩
  obtain rfl : state = initial := List.mem_singleton.1 present
  exact ⟨wellFormed, fun block => Iff.rfl⟩

theorem wellFormed_of_recorded {initial goal : State} {programs : ProgramSet}
    {solver : BlocksWorld} {config : Config}
    (made : (Engine.create initial goal programs solver config).result = .ok engine)
    (wellFormed : WellFormed initial) (operations : List Operation) :
    ∀ state ∈ (engine.performAll operations).trajectory.states,
      WellFormed state ∧
        ∀ block, Mentioned (Says state) block ↔ Mentioned (Says initial) block := by
  obtain ⟨w, wellFormedRun⟩ := create_wellFormedRun made wellFormed
  obtain ⟨world, wellFormedRun⟩ := wellFormedRun.performAll operations
  exact wellFormedRun.recorded

theorem wellFormed_of_recorded_tower :
    ∃ engine : Engine BlocksWorld, engine.state = tower "a" "b" ∧ WellFormed (tower "a" "b") ∧
      ∀ state ∈ (engine.performAll
          [.transition ⟨"move(a,table)"⟩, .resolve, .transition ⟨"move(b,a)"⟩]).trajectory.states,
        WellFormed state ∧
          ∀ block, Mentioned (Says state) block ↔ Mentioned (Says (tower "a" "b")) block := by
  have a : IsConstant "a" := by decide
  have b : IsConstant "b" := by decide
  obtain ⟨engine, made, stands, -, -⟩ := exists_tower a.isBlock b.isBlock (by decide) default
  have wellFormed := wellFormed_tower a b (by decide) (by decide) (by decide)
  exact ⟨engine, stands, wellFormed, wellFormed_of_recorded made wellFormed _⟩

end DeclarativeMdp.BlocksWorld
