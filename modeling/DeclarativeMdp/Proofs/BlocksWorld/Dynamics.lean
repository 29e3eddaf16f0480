import DeclarativeMdp.Proofs.BlocksWorld.WellFormed

set_option autoImplicit false

namespace DeclarativeMdp.BlocksWorld

open World

structure Declared (state : State) : Prop where
  canonical : ∀ fact ∈ state, ∃ f, Fluent.read fact = .ok f ∧ f.fact = fact
  names : ∀ block, Mentioned (Says state) block → IsConstant block ∧ block ≠ table
  oneSupport : OneSupport state

def Occurs (holds : Fluent → Prop) (x : String) : Prop :=
  (∃ y, holds (.on x y)) ∨ (∃ y, holds (.on y x)) ∨ holds (.onTable x)

def Legal (holds : Fluent → Prop) (x y : String) : Prop :=
  holds (.clear x) ∧
    (y = table ∧ (∃ z, holds (.on x z)) ∨
      x ≠ y ∧ Occurs holds x ∧ Occurs holds y ∧ holds (.clear y) ∧ ¬ holds (.on x y))

def Executable (state goal : State) (x y : String) : Prop :=
  ¬ State.Satisfies state goal ∧ Legal (Says state) x y

def Results (holds : Fluent → Prop) (x y : String) (f : Fluent) : Prop :=
  holds f ∧ (∀ z, f ≠ .on x z) ∧ f ≠ .onTable x ∧ f ≠ .clear y ∨
    f = (if y = table then .onTable x else .on x y) ∨ ∃ z, holds (.on x z) ∧ f = .clear z

def Fluent.term : Fluent → Term
  | .on x y => .function "on" [.symbol x, .symbol y]
  | .onTable x => .function "ontable" [.symbol x]
  | .clear x => .function "clear" [.symbol x]

theorem Fluent.ofTerm?_term (f : Fluent) : ofTerm? f.term = some f := by
  cases f <;> simp [term, ofTerm?_eq_some_iff, render_symbol]

theorem Fluent.wellNamed_term {f : Fluent} (constants : ∀ name ∈ f.blocks, IsConstant name) :
    f.term.WellNamed := by
  cases f with
  | on x y =>
    exact ⟨.inr (by decide), constants x (by simp [blocks]), constants y (by simp [blocks]),
      trivial⟩
  | onTable x => exact ⟨.inr (by decide), constants x (by simp [blocks]), trivial⟩
  | clear x => exact ⟨.inr (by decide), constants x (by simp [blocks]), trivial⟩

variable {state : State} {w : World} {x y : String}

theorem WellFormed.declared (wellFormed : WellFormed state) : Declared state :=
  ⟨wellFormed.canonical, wellFormed.buildable.names, fun _ _ _ => wellFormed.buildable.oneSupport⟩

theorem Declared.exists_world (declared : Declared state) :
    ∃ world, ofState state = .ok world ∧ world.Holds = Says state ∧ world.toState = state := by
  obtain ⟨world, read, written, same⟩ :=
    exists_world_of_canonical declared.canonical declared.oneSupport
  exact ⟨world, read, funext fun f => propext (same f), written⟩

theorem feasible_iff_legal : w.Feasible ⟨x, y⟩ ↔ Legal w.Holds x y := by
  simp only [Feasible, mem_blocks]
  unfold Legal Occurs
  constructor
  · rintro ⟨present, free, ⟨onto, stands⟩ | ⟨target, apart, room, elsewhere⟩⟩
    · exact ⟨free, .inl ⟨onto, stands⟩⟩
    · exact ⟨free, .inr ⟨apart, present, target, room, elsewhere⟩⟩
  · rintro ⟨free, ⟨onto, stands⟩ | ⟨apart, present, target, room, elsewhere⟩⟩
    · exact ⟨.inl stands, free, .inl ⟨onto, stands⟩⟩
    · exact ⟨present, free, .inr ⟨target, apart, room, elsewhere⟩⟩

-- What the block stood on is not what it is moved onto, so that taking and adding facts does not
-- depend on the order.
theorem World.Proper.holds_apply_iff (proper : w.Proper) (named : ¬ w.Holds (.clear table))
    (feasible : w.Feasible ⟨x, y⟩) {f : Fluent} :
    (w.apply ⟨x, y⟩).Holds f ↔ Results w.Holds x y f := by
  rw [proper.holds_apply]
  unfold Results
  cases f with
  | on a b | onTable a =>
    by_cases onto : y = table <;> grind
  | clear a =>
    have other (free : w.Holds (.clear a)) : a ≠ table := by
      rintro rfl
      exact named free
    have elsewhere (lifted : w.Holds (.on x a)) (onBlock : y ≠ table) : a ≠ y := by
      rintro rfl
      exact (feasible.clear_target onBlock).2.2.2 lifted
    by_cases onto : y = table <;> grind

theorem mem_terms_iff {terms : List Term} (constants : w.Names IsConstant)
    (named : ∀ t ∈ terms, t.WellNamed) (same : terms.map Fact.ofTerm = w.toState.toList)
    (t : Term) : t ∈ terms ↔ ∃ f, w.Holds f ∧ f.term = t := by
  have wellNamed (f : Fluent) (holds : w.Holds f) : f.term.WellNamed :=
    Fluent.wellNamed_term (constants f holds)
  have written (f : Fluent) (holds : w.Holds f) : f.fact = .ofTerm f.term :=
    Fluent.fact_of_ofTerm? (wellNamed f holds) f.ofTerm?_term
  have unique (f : Fluent) (holds : w.Holds f) (t : Term) (present : t ∈ terms)
      (alike : f.fact = .ofTerm t) : f.term = t :=
    Term.render_injective (wellNamed f holds) (named t present)
      (congrArg Fact.text ((written f holds).symm.trans alike))
  constructor
  · intro present
    have there : Fact.ofTerm t ∈ w.toState := by
      rw [← SortedSet.mem_toList, ← same]
      exact List.mem_map_of_mem present
    obtain ⟨f, holds, alike⟩ := mem_toState.1 there
    exact ⟨f, holds, unique f holds t present alike⟩
  · rintro ⟨f, holds, rfl⟩
    have there : f.fact ∈ w.toState.toList := mem_toState.2 ⟨f, holds, rfl⟩
    rw [← same] at there
    obtain ⟨t, present, alike⟩ := List.mem_map.1 there
    rwa [unique f holds t present alike.symm]

theorem exists_observation (request : Request) (proper : w.Proper)
    (written : w.toState = request.current)
    (shown : request.shows Predicates.executable = true) :
    ∃ model, observe request w = .ok [model] ∧ ∀ move : Move,
      .unary "executable" move.term ∈ model.atoms ↔ move ∈ w.moves request.subgoal := by
  obtain ⟨states, atoms, -⟩ := stateAtoms_toState request proper
  refine ⟨.ofAtoms (states.map (.unary "state") ++ executableAtoms request w), ?_, fun move => ?_⟩
  · rw [observe, ← written, atoms]
    rfl
  · have listed (other : Move) : other.term = move.term ↔ other = move :=
      ⟨Move.term_injective, congrArg Move.term⟩
    rw [executableAtoms_eq shown]
    simp [Model.ofAtoms, listed]

theorem exists_outcome (request : Request) {action : Action} (proper : w.Proper)
    (names : w.Names fun name => IsConstant name ∧ name ≠ table)
    (possible : ⟨x, y⟩ ∈ w.moves request.subgoal) (meant : action.term = .ok (Move.term ⟨x, y⟩))
    (stateShown : request.shows Predicates.state = true)
    (rewardShown : request.shows Predicates.nextReward = true) :
    ∃ model next, step request w action = .ok [model] ∧
      (∀ fact, fact ∈ next ↔ ∃ f, Results w.Holds x y f ∧ f.fact = fact) ∧
      (∀ t, .unary "state" t ∈ model.atoms ↔ ∃ f, Results w.Holds x y f ∧ f.term = t) ∧
      model.atomsOf Predicates.nextReward = [.unary "nextReward"
        (.number (if State.Satisfies next request.subgoal then 100 else -1))] := by
  have feasible := (proper.mem_moves.1 possible).2
  have named : ¬ w.Holds (.clear table) := fun holds =>
    (names _ holds table (by simp [Fluent.blocks])).2 rfl
  have results (f : Fluent) : (w.apply ⟨x, y⟩).Holds f ↔ Results w.Holds x y f :=
    proper.holds_apply_iff named feasible
  have constants : w.Names IsConstant := fun f holds name there => (names f holds name there).1
  obtain ⟨states, wellNamed, shown, answered⟩ := step_of_mem_moves request proper possible meant
  refine ⟨_, (w.apply ⟨x, y⟩).toState, answered, fun fact => ?_, fun t => ?_, ?_⟩
  · simp only [mem_toState, results]
  · have stated := mem_terms_iff (constants.apply proper feasible) wellNamed (shown stateShown)
    simp only [Model.ofAtoms, state_mem_after, stated, results]
  · rw [atomsOf_nextReward_after rewardShown, earned]
    by_cases reached : (w.apply ⟨x, y⟩).Reaches request.subgoal
    · rw [if_pos reached, if_pos (show State.Satisfies _ _ from reached)]
      rfl
    · rw [if_neg reached, if_neg (show ¬ State.Satisfies _ _ from reached)]
      rfl

def asking (request : Request) : Request := { request with action := none, horizon := 0 }

def trying (request : Request) (action : Action) : Request :=
  { request with action := some action, horizon := 1 }

theorem answer_by_rules {request : Request} {limit : Nat}
    (mode : request.mode = .enumerate limit) (declared : Declared request.current) :
    (request.shows Predicates.executable = true →
        ∃ model, answer (asking request) = .ok [model] ∧ ∀ x y,
          .unary "executable" (Move.term ⟨x, y⟩) ∈ model.atoms ↔
            Executable request.current request.subgoal x y) ∧
      (request.shows Predicates.state = true → request.shows Predicates.nextReward = true →
        ∀ x y action, Executable request.current request.subgoal x y →
          action.term = .ok (Move.term ⟨x, y⟩) →
            ∃ model next, answer (trying request action) = .ok [model] ∧
              (∀ fact, fact ∈ next ↔ ∃ f, Results (Says request.current) x y f ∧ f.fact = fact) ∧
              (∀ t, .unary "state" t ∈ model.atoms ↔
                ∃ f, Results (Says request.current) x y f ∧ f.term = t) ∧
              model.atomsOf Predicates.nextReward = [.unary "nextReward"
                (.number (if State.Satisfies next request.subgoal then 100 else -1))]) ∧
      ∀ action, (∀ x y, Executable request.current request.subgoal x y →
          action.term ≠ .ok (Move.term ⟨x, y⟩)) →
        answer (trying request action) =
          match action.term with
          | .ok _ => .ok []
          | .error misreading => .error (.malformedAtom action.text (.unreadable misreading)) := by
  obtain ⟨w, read, same, written⟩ := declared.exists_world
  have proper := ofState_proper read
  have possible {x y : String} :
      ⟨x, y⟩ ∈ w.moves request.subgoal ↔ Executable request.current request.subgoal x y := by
    rw [proper.mem_moves, Reaches, written, feasible_iff_legal, same]
    rfl
  have names : w.Names fun name => IsConstant name ∧ name ≠ table := by
    intro f holds name there
    rw [same] at holds
    exact declared.names name ⟨f, holds, there⟩
  have asked : answer (asking request) = observe (asking request) w :=
    answer_observe mode rfl rfl read
  have tried (action : Action) :
      answer (trying request action) = step (trying request action) w action :=
    answer_step mode rfl rfl read
  refine ⟨fun shown => ?_, fun stateShown rewardShown x y action executable meant => ?_,
    fun action other => ?_⟩
  · obtain ⟨model, answered, listed⟩ :=
      exists_observation (asking request) proper written shown
    exact ⟨model, asked.trans answered, fun x y => (listed ⟨x, y⟩).trans possible⟩
  · rw [tried, ← same]
    exact exists_outcome (trying request action) proper names (possible.2 executable) meant
      stateShown rewardShown
  · rw [tried]
    cases meant : action.term with
    | error misreading => exact step_of_unreadable meant
    | ok t =>
      refine step_of_not_mem_moves meant ?_
      rintro ⟨x, y⟩ listed rfl
      exact other x y (possible.1 listed) meant

def towerRequest : Request where
  programs := default
  current := tower "a" "b"
  subgoal := reversed "a" "b"
  horizon := 0
  action := none
  shown := [Predicates.state, Predicates.nextReward]
  mode := .enumerate 2

theorem answer_by_rules_tower :
    ∃ model, answer (trying towerRequest ⟨"move(a,table)"⟩) = .ok [model] ∧
      .unary "state" (.function "ontable" [.symbol "a"]) ∈ model.atoms := by
  have a : IsConstant "a" := by decide
  have b : IsConstant "b" := by decide
  have mode : towerRequest.mode = .enumerate 2 := rfl
  have declared : Declared towerRequest.current :=
    (wellFormed_tower a b (by decide) (by decide) (by decide)).declared
  have saysIff (f : Fluent) :
      Says (tower "a" "b") f ↔ f ∈ [.clear "a", .on "a" "b", .onTable "b"] :=
    says_ofList_iff (named_tower a.isBlock b.isBlock)
  have executable : Executable towerRequest.current towerRequest.subgoal "a" table :=
    ⟨not_satisfies_reversed a.isBlock b.isBlock (by decide), (saysIff _).2 (by simp),
      .inl ⟨rfl, "b", (saysIff _).2 (by simp)⟩⟩
  have meant : (⟨"move(a,table)"⟩ : Action).term = .ok (Move.term ⟨"a", table⟩) :=
    Action.term_ofTerm (t := Move.term ⟨"a", table⟩)
      ⟨.inr (by decide), a.wellNamed, isConstant_table.wellNamed, trivial⟩
  obtain ⟨-, step, -⟩ := answer_by_rules mode declared
  obtain ⟨model, next, answered, -, states, -⟩ :=
    step (by decide) (by decide) "a" table _ executable meant
  exact ⟨model, answered, (states _).2 ⟨.onTable "a", .inr (.inl rfl), rfl⟩⟩

end DeclarativeMdp.BlocksWorld
