import DeclarativeMdp.Proofs.BlocksWorld.Dynamics

set_option autoImplicit false

namespace DeclarativeMdp.BlocksWorld

open World

structure Leads (request : Request) (x y : String) (next : State) : Prop where
  listed : ∃ model, answer (asking request) = .ok [model] ∧
    .unary "executable" (Move.term ⟨x, y⟩) ∈ model.atoms
  stated : ∃ model, answer (trying request (.ofTerm (Move.term ⟨x, y⟩))) = .ok [model] ∧
    .ofList ((model.argumentsOf Predicates.state).map Fact.ofTerm) = next

section

variable {request : Request} {limit : Nat} {w : World} {x y : String} {next : State}
variable (mode : request.mode = .enumerate limit)
variable (listing : request.shows Predicates.executable = true)
variable (stating : request.shows Predicates.state = true)
include mode listing stating

theorem leads_iff (read : ofState request.current = .ok w)
    (written : w.toState = request.current) (constants : w.Names IsConstant) :
    Leads request x y next ↔
      ⟨x, y⟩ ∈ w.moves request.subgoal ∧ (w.apply ⟨x, y⟩).toState = next := by
  have proper := ofState_proper read
  have asked : answer (asking request) = observe (asking request) w :=
    answer_observe mode rfl rfl read
  have tried (action : Action) :
      answer (trying request action) = step (trying request action) w action :=
    answer_step mode rfl rfl read
  obtain ⟨seen, observed, offered⟩ := exists_observation (asking request) proper written listing
  have listed : ⟨x, y⟩ ∈ w.moves request.subgoal ↔ ∃ model,
      answer (asking request) = .ok [model] ∧
        .unary "executable" (Move.term ⟨x, y⟩) ∈ model.atoms := by
    have same : ⟨x, y⟩ ∈ w.moves request.subgoal ↔
        .unary "executable" (Move.term ⟨x, y⟩) ∈ seen.atoms := (offered ⟨x, y⟩).symm
    rw [asked, observed]
    simpa using same
  have stated (possible : ⟨x, y⟩ ∈ w.moves request.subgoal) : ∃ model,
      answer (trying request (.ofTerm (Move.term ⟨x, y⟩))) = .ok [model] ∧
        .ofList ((model.argumentsOf Predicates.state).map Fact.ofTerm) =
          (w.apply ⟨x, y⟩).toState := by
    have feasible := (proper.mem_moves.1 possible).2
    have meant : (Action.ofTerm (Move.term ⟨x, y⟩)).term = .ok (Move.term ⟨x, y⟩) :=
      Action.term_ofTerm (constants.wellNamed_of_feasible feasible)
    obtain ⟨states, -, same, answered⟩ :=
      step_of_mem_moves (trying request (.ofTerm (Move.term ⟨x, y⟩))) proper possible meant
    refine ⟨_, (tried _).trans answered, ?_⟩
    rw [ofList_argumentsOf_after, same stating, SortedSet.ofList_toList]
  constructor
  · rintro ⟨offers, model, answered, reached⟩
    have possible := listed.2 offers
    obtain ⟨other, again, same⟩ := stated possible
    rw [answered] at again
    obtain rfl : model = other := by simpa using again
    exact ⟨possible, same.symm.trans reached⟩
  · rintro ⟨possible, rfl⟩
    exact ⟨listed.1 possible, stated possible⟩

theorem Leads.exists_reversal (wellFormed : WellFormed request.current)
    (leads : Leads request x y next) (away : ¬ State.Satisfies next request.subgoal) :
    ∃ z, StandsOn (Says request.current) x z ∧
      Leads { request with current := next } x z request.current := by
  obtain ⟨w, read, same, written⟩ := wellFormed.declared.exists_world
  have buildable : Buildable w.Holds := wellFormed.buildable.of_read read
  have constants {v : World} (buildable : Buildable v.Holds) : v.Names IsConstant :=
    fun f holds name there => (buildable.names name ⟨f, holds, there⟩).1
  obtain ⟨possible, rfl⟩ :=
    (leads_iff mode listing stating read written (constants buildable)).1 leads
  have feasible := (buildable.proper.mem_moves.1 possible).2
  obtain ⟨z, stood, back, restored⟩ := buildable.exists_back feasible
  refine ⟨z, by rwa [← same], ?_⟩
  obtain ⟨v, readNext, proper, alike⟩ := (buildable.apply feasible).proper.ofState_toState
  have buildableNext : Buildable v.Holds := (buildable.apply feasible).of_alike alike.symm
  let later : Request := { request with current := (w.apply ⟨x, y⟩).toState }
  have again : Leads later x z request.current ↔ _ :=
    leads_iff mode listing stating readNext alike.toState_eq (constants buildableNext)
  refine again.2 ⟨proper.mem_moves.2 ⟨?_, ?_⟩, ?_⟩
  · rwa [Reaches, alike.toState_eq]
  · rwa [feasible_iff_legal, alike.holds_eq, ← feasible_iff_legal]
  · rw [← written]
    have applied : (v.apply ⟨x, z⟩).Alike ((w.apply ⟨x, y⟩).apply ⟨x, z⟩) :=
      alike.apply proper (buildable.apply feasible).proper
    exact applied.toState_eq.trans restored.toState_eq

end

def watching : Request :=
  { towerRequest with shown := [Predicates.executable, Predicates.state] }

def spread : List Fluent := [.clear "a", .clear "b", .onTable "a", .onTable "b"]

theorem exists_reversal_tower :
    WellFormed watching.current ∧ Leads watching "a" table (.ofList (spread.map Fluent.fact)) ∧
      ¬ State.Satisfies (.ofList (spread.map Fluent.fact)) watching.subgoal ∧
      Leads { watching with current := .ofList (spread.map Fluent.fact) } "a" "b"
        watching.current := by
  have mode : watching.mode = .enumerate 2 := rfl
  have a : IsConstant "a" := by decide
  have b : IsConstant "b" := by decide
  obtain ⟨w, read, holds, buildable⟩ := exists_world_tower a b (by decide) (by decide) (by decide)
  have named := named_tower a.isBlock b.isBlock
  have saysIff (f : Fluent) :
      Says (tower "a" "b") f ↔ f ∈ [.clear "a", .on "a" "b", .onTable "b"] :=
    says_ofList_iff named
  have written : w.toState = watching.current :=
    toState_eq (fun f => (holds f).trans (saysIff f).symm) (canonical_ofList named)
  have constants : w.Names IsConstant := fun f present name there =>
    (buildable.names name ⟨f, present, there⟩).1
  have wellFormed : WellFormed watching.current := written ▸ .of_buildable buildable
  have spreadNamed : ∀ f ∈ spread, f.Named := by
    simp [spread, Fluent.Named, Fluent.blocks, a.isBlock, b.isBlock]
  have moved (f : Fluent) : (w.apply ⟨"a", table⟩).Holds f ↔ f ∈ spread := by
    rw [buildable.proper.holds_apply]
    cases f <;> simp [holds, spread, table] <;> grind
  have next : (w.apply ⟨"a", table⟩).toState = .ofList (spread.map Fluent.fact) :=
    toState_eq (fun f => (moved f).trans (says_ofList_iff spreadNamed).symm)
      (canonical_ofList spreadNamed)
  have away : ¬ State.Satisfies (tower "a" "b") (reversed "a" "b") :=
    not_satisfies_reversed a.isBlock b.isBlock (by decide)
  have awayNext : ¬ State.Satisfies (.ofList (spread.map Fluent.fact)) watching.subgoal := by
    intro reached
    have there := reached _ (SortedSet.mem_toList.2 (SortedSet.mem_ofList.2 (.head _)))
    obtain ⟨f, present, same⟩ := List.mem_map.1 (SortedSet.mem_ofList.1 there)
    have goalNamed : (Fluent.on "b" "a").Named := by
      simp [Fluent.Named, Fluent.blocks, a.isBlock, b.isBlock]
    rw [(spreadNamed f present).fact_injective goalNamed same] at present
    simp [spread] at present
  have possible : ⟨"a", table⟩ ∈ w.moves watching.subgoal :=
    buildable.proper.mem_moves.2 ⟨by rwa [Reaches, written],
      feasible_onTable ((holds _).2 (by simp)) ((holds (.on "a" "b")).2 (by simp))⟩
  have leads : Leads watching "a" table (.ofList (spread.map Fluent.fact)) :=
    (leads_iff mode (by decide) (by decide) read written constants).2 ⟨possible, next⟩
  obtain ⟨z, stood, back⟩ :=
    Leads.exists_reversal mode (by decide) (by decide) wellFormed leads awayNext
  have under : z = "b" := by
    rcases stood with on | ⟨onTable, -⟩
    · simpa using (saysIff _).1 on
    · simpa using (saysIff _).1 onTable
  exact ⟨wellFormed, leads, awayNext, under ▸ back⟩

end DeclarativeMdp.BlocksWorld
