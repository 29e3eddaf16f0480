import DeclarativeMdp.Proofs.BlocksWorld.Failures
import DeclarativeMdp.Proofs.Episode.Contract
import DeclarativeMdp.Proofs.Random.Sampling

set_option autoImplicit false

namespace DeclarativeMdp

namespace Engine

variable {σ : Type} [Solver σ]

def AcceptsAvailable (engine : Engine σ) : Prop :=
  ∀ action ∈ engine.available, ∃ reward, (engine.transition action).result = .ok reward

end Engine

namespace Episode

variable {σ π : Type} [Solver σ] [Policy π]

def ChoosesAvailable (π : Type) [Policy π] : Prop :=
  ∀ (policy : π) (state : State) (available : AvailableActions) (action : Action),
    (Policy.select state available policy).1 = some action → action ∈ available

def ChoosesNone (last : Engine σ) (policy : π) : Prop :=
  last.isTerminal = false ∧ (Policy.select last.state last.available policy).1 = none

theorem exists_play (choosesAvailable : ChoosesAvailable π) {engine : Engine σ}
    (acceptsAvailable : ∀ operations, (engine.performAll operations).AcceptsAvailable) (limit : Nat)
    (policy : π) :
    ∃ steps, (play limit engine policy).result = .ok steps ∧
      (steps = limit ∨ (play limit engine policy).next.1.isTerminal = true ∨
        ∃ asked : π, ChoosesNone (play limit engine policy).next.1 asked) := by
  have ⟨actions, last, final, left, result, next, rounds, ends, total⟩ :=
    exists_rounds limit engine policy
  have ⟨played, reached⟩ := rounds.play ends
  subst total
  rw [played, reached]
  cases ends with
  | full => exact ⟨actions.length, rfl, .inl rfl⟩
  | terminal nothing => exact ⟨actions.length, rfl, .inr (.inl nothing)⟩
  | declined live silent =>
    exact ⟨actions.length, rfl, .inr (.inr ⟨final, live, congrArg Prod.fst silent⟩)⟩
  | @failed _ _ action _ live chosen rejected =>
    have offered :=
      choosesAvailable final last.state last.available action (congrArg Prod.fst chosen)
    have welcome := acceptsAvailable (actions.map .transition)
    rw [← rounds.last_eq] at welcome
    have ⟨reward, accepted⟩ := welcome action offered
    exact nomatch rejected.symm.trans accepted

theorem run_of_choosesAvailable (choosesAvailable : ChoosesAvailable π) {engine : Engine σ}
    (reachable : engine.Reachable)
    (acceptsAvailable : ∀ operations, (engine.performAll operations).AcceptsAvailable)
    (config : EpisodeConfig) (policy : π) (episode : UInt64) :
    let ran := run config engine policy episode
    (∃ record, ran.result = .ok record ∧ (∃ optimal, (planned config engine).result = .ok optimal) ∧
      (record.steps = config.maxLength ∨ ran.next.1.isTerminal = true ∨
        ∃ asked : π, ChoosesNone ran.next.1 asked)) ∨
    (∃ error, ran.result = .error error ∧ (planned config engine).result = .error error ∧
      ran.next.1 = engine.performAll (planning config)) := by
  intro ran
  cases planResult : (planned config engine).result with
  | error error =>
    have ⟨failed, next⟩ := run_unplanned policy episode planResult
    exact .inr ⟨error, failed, rfl, congrArg Prod.fst next⟩
  | ok optimal =>
    have later (operations : List Operation) :
        ((engine.performAll (planning config)).performAll operations).AcceptsAvailable := by
      rw [← Engine.performAll_append]
      exact acceptsAvailable _
    have ⟨steps, played, ended⟩ :=
      exists_play choosesAvailable later config.maxLength (Policy.beginEpisode episode policy)
    have ⟨record, ran, counted, next⟩ :=
      exists_run_of_play policy episode reachable planResult played
    subst counted
    rw [← next] at ended
    exact .inl ⟨record, ran, ⟨optimal, rfl⟩, ended⟩

theorem uniformRandom_choosesAvailable : ChoosesAvailable UniformRandom := fun _ _ _ _ chosen =>
  SortedSet.mem_toList.1 (Generator.mem_of_choose chosen)

omit [Solver σ] in
theorem index_of_choosesNone {last : Engine σ} {policy : UniformRandom}
    (silent : ChoosesNone last policy) :
    policy.current.index last.available.toList.length = none := by
  obtain ⟨live, unanswered⟩ := silent
  cases Generator.choose_eq_none_iff.1 unanswered with
  | inl empty =>
    rw [Engine.isTerminal, SortedSet.isEmpty, empty] at live
    cases live
  | inr vain => exact vain

end Episode

namespace BlocksWorld

def InConstantWorld (engine : Engine BlocksWorld) (world : World) : Prop :=
  InWorld engine world ∧ world.Names IsConstant

theorem inConstantWorld_invariant : Invariant InConstantWorld where
  inWorld _ _ inConstantWorld := inConstantWorld.1
  consulted _ _ request inConstantWorld := ⟨inConstantWorld.1.consulted request, inConstantWorld.2⟩
  advance _ world action move inConstantWorld possible := by
    obtain ⟨inWorld, constants⟩ := inConstantWorld
    obtain ⟨next, nextInWorld, alike⟩ := inWorld.advance action possible
    have feasible := (inWorld.proper.mem_moves.1 possible).2
    exact ⟨next, nextInWorld, (constants.apply inWorld.proper feasible).of_alike alike.symm⟩

theorem InConstantWorld.acceptsAvailable {engine : Engine BlocksWorld} {w : World}
    (inConstantWorld : InConstantWorld engine w) : engine.AcceptsAvailable := by
  intro action offered
  obtain ⟨inWorld, constants⟩ := inConstantWorld
  have asked : ¬ engine.Refuses action := fun refused => refused.2 offered
  rw [inWorld.available] at offered
  obtain ⟨move, possible, rfl⟩ := World.mem_offered.1 offered
  have feasible := (inWorld.proper.mem_moves.1 possible).2
  have meant := Action.term_ofTerm (constants.wellNamed_of_feasible feasible)
  have stepped := stepAnswer_of_mem_moves inWorld.read possible meant
  exact ⟨_, (Engine.transition_advanced asked stepped).1⟩

theorem create_inConstantWorld {initial goal : State} {programs : ProgramSet} {solver : BlocksWorld}
    {config : Config} {engine : Engine BlocksWorld}
    (made : (Engine.create initial goal programs solver config).result = .ok engine)
    (constants : ∀ f, Says initial f → ∀ name ∈ f.blocks, IsConstant name) :
    ∃ world, InConstantWorld engine world := by
  obtain ⟨w, inWorld⟩ := create_inWorld made
  obtain ⟨-, available, -, rfl⟩ := Engine.create_eq_ok_iff.1 made
  exact ⟨w, inWorld, fun f holds => constants f (World.says_of_holds inWorld.read holds)⟩

-- The words of the stream may all be refused. An episode in which they are ends at that draw.
theorem run_uniformRandom {initial goal : State} {programs : ProgramSet} {solver : BlocksWorld}
    {settings : Config} {engine : Engine BlocksWorld}
    (made : (Engine.create initial goal programs solver settings).result = .ok engine)
    (constants : ∀ f, Says initial f → ∀ name ∈ f.blocks, IsConstant name)
    (operations : List Operation) (config : EpisodeConfig) (policy : UniformRandom)
    (episode : UInt64) :
    let start := engine.performAll operations
    let ran := Episode.run config start policy episode
    (config.plan = false → ∃ record, ran.result = .ok record) ∧
      (∀ error, ran.result = .error error →
        config.plan = true ∧ error = .modelNotFound .optimalReturn ∧
          (start.optimalReturn config.planningHorizon).result = .error error ∧
          ran.next.1.AgreesWith start) ∧
      (∀ record, ran.result = .ok record →
        record.steps = config.maxLength ∨ ran.next.1.isTerminal = true ∨
          ∃ generator : Generator,
            generator.index ran.next.1.available.toList.length = none) := by
  intro start ran
  obtain ⟨w, inConstantWorld⟩ := create_inConstantWorld made constants
  have reachable := (Engine.Reachable.created made).performedAll operations
  have acceptsAvailable (later : List Operation) : (start.performAll later).AcceptsAvailable := by
    rw [← Engine.performAll_append]
    obtain ⟨world, there⟩ :=
      inConstantWorld_invariant.performAll inConstantWorld (operations ++ later)
    exact there.acceptsAvailable
  obtain ⟨world, inWorld, -⟩ := inConstantWorld_invariant.performAll inConstantWorld operations
  rcases Episode.run_of_choosesAvailable Episode.uniformRandom_choosesAvailable reachable
      acceptsAvailable config policy episode with
    ⟨record, done, -, ended⟩ | ⟨error, failed, unplanned, stays⟩
  · refine ⟨fun _ => ⟨record, done⟩, fun error failed => ?_, fun other same => ?_⟩
    · exact nomatch done.symm.trans failed
    · obtain rfl := Except.ok.inj (done.symm.trans same)
      rcases ended with full | nothing | ⟨asked, silent⟩
      · exact .inl full
      · exact .inr (.inl nothing)
      · exact .inr (.inr ⟨asked.current, Episode.index_of_choosesNone silent⟩)
  · obtain ⟨wanted, planResult⟩ := Episode.wanted_of_planned unplanned
    refine ⟨fun off => ?_, fun other same => ?_, fun record done => ?_⟩
    · simp [wanted] at off
    · obtain rfl := Except.error.inj (failed.symm.trans same)
      refine ⟨wanted, optimalReturn_failure inWorld.read planResult, planResult, ?_⟩
      rw [stays]
      exact Episode.planning_agrees config start
    · exact nomatch done.symm.trans failed

theorem run_uniformRandom_tower :
    ∃ engine : Engine BlocksWorld, engine.state = tower "a" "b" ∧
      ∃ record, (Episode.run ⟨100, false, none⟩ (engine.performAll attempts)
        (UniformRandom.ofSeed 7) 3).result = .ok record := by
  have a : IsConstant "a" := by decide
  have b : IsConstant "b" := by decide
  obtain ⟨engine, made, stands, -⟩ := exists_tower a.isBlock b.isBlock (by decide) default
  have constants : ∀ f, Says (tower "a" "b") f → ∀ name ∈ f.blocks, IsConstant name := by
    intro f stated
    have listed := (says_ofList_iff (named_tower a.isBlock b.isBlock)).1 stated
    simp only [List.mem_cons, List.not_mem_nil, or_false] at listed
    rcases listed with rfl | rfl | rfl <;> simp [Fluent.blocks, a, b]
  obtain ⟨never, -, -⟩ :=
    run_uniformRandom made constants attempts ⟨100, false, none⟩ (.ofSeed 7) 3
  exact ⟨engine, stands, never rfl⟩

end BlocksWorld

end DeclarativeMdp
