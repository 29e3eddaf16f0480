import DeclarativeMdp.BlocksWorld.Solver
import DeclarativeMdp.Proofs.BlocksWorld.Moves
import DeclarativeMdp.Proofs.Engine.Run

set_option autoImplicit false

namespace DeclarativeMdp.BlocksWorld

namespace World

def offered (world : World) (goal : State) : AvailableActions :=
  .ofList ((world.moves goal).map fun move => .ofTerm move.term)

def earned (world : World) (goal : State) : Int :=
  if world.Reaches goal then goalReward else stepReward

def successor (world : World) (goal : State) (move : Move) : Engine.Successor where
  state := (world.apply move).toState
  reward := .ofInt ((world.apply move).earned goal)
  available := (world.apply move).offered goal

theorem mem_offered {world : World} {goal : State} {action : Action} :
    action ∈ world.offered goal ↔ ∃ move ∈ world.moves goal, action = .ofTerm move.term := by
  simp only [offered, SortedSet.mem_ofList, List.mem_map, eq_comm]

end World

theorem Move.term_injective {move other : Move} (same : move.term = other.term) :
    move = other := by
  obtain ⟨x, y⟩ := move
  obtain ⟨a, b⟩ := other
  simpa [Move.term] using same

variable {engine : Engine BlocksWorld} {w : World}

theorem executableActions_eq (w : World) (goal : State) {atoms : List Term}
    (others : ∀ arg, Term.unary "executable" arg ∉ atoms) :
    Engine.executableActions
        (.ofAtoms (atoms ++ (w.moves goal).map fun move => .unary "executable" move.term)) =
      w.offered goal := by
  refine SortedSet.eq_of_mem_iff fun action => ?_
  have inside (arg : Term) :
      arg ∈ Model.argumentsOf
          (.ofAtoms (atoms ++ (w.moves goal).map fun move => .unary "executable" move.term))
          ⟨"executable", 1⟩ ↔ ∃ move ∈ w.moves goal, move.term = arg := by
    rw [Model.mem_argumentsOf (by decide)]
    simp only [Model.ofAtoms, List.mem_append, others arg, false_or, List.mem_map]
    simp [Term.unary]
  rw [World.mem_offered]
  simp only [Engine.executableActions, Predicates.executable, SortedSet.mem_ofList, List.mem_map,
    inside]
  constructor
  · rintro ⟨_, ⟨move, possible, rfl⟩, rfl⟩
    exact ⟨move, possible, rfl⟩
  · rintro ⟨move, possible, rfl⟩
    exact ⟨_, ⟨move, possible, rfl⟩, rfl⟩

theorem solve_result (request : Request) (solver : BlocksWorld) :
    (Solver.solve request solver).result = answer request := rfl

theorem answer_observe {request : Request} {limit : Nat} (mode : request.mode = .enumerate limit)
    (none : request.action = none) (now : request.horizon = 0)
    (read : World.ofState request.current = .ok w) : answer request = observe request w := by
  unfold answer
  rw [read, mode, none]
  exact if_pos now

theorem answer_step {request : Request} {limit : Nat} {action : Action}
    (mode : request.mode = .enumerate limit) (some : request.action = some action)
    (next : request.horizon = 1) (read : World.ofState request.current = .ok w) :
    answer request = step request w action := by
  unfold answer
  rw [read, mode, some]
  exact if_pos next

theorem answer_availableRequest (read : World.ofState engine.state = .ok w) :
    answer engine.availableRequest =
      .ok [.ofAtoms ((w.moves engine.goal).map fun move => .unary "executable" move.term)] := by
  have hidden : engine.availableRequest.shows Predicates.state = false := by
    simp [Request.shows, Engine.availableRequest, Predicates.state, Predicates.executable]
  have shown : engine.availableRequest.shows Predicates.executable = true := by
    simp [Request.shows, Engine.availableRequest]
  rw [answer_observe rfl rfl rfl read]
  unfold observe stateAtoms executableAtoms
  rw [hidden, shown]
  rfl

theorem resolveAvailable_result (read : World.ofState engine.state = .ok w) :
    engine.resolveAvailable.result = .ok (w.offered engine.goal) := by
  have none (arg : Term) : Term.unary "executable" arg ∉ [] := List.not_mem_nil
  have model := executableActions_eq w engine.goal none
  rw [Engine.resolveAvailable, Engine.ask_result, solve_result, answer_availableRequest read]
  simp only [bind, Except.bind, Model.single]
  exact congrArg Except.ok model

theorem stateAtoms_toState (request : Request) (proper : w.Proper) :
    ∃ terms : List Term, stateAtoms request w.toState = .ok (terms.map (.unary "state")) ∧
      (∀ t ∈ terms, t.WellNamed) ∧
      (request.shows Predicates.state = true → terms.map Fact.ofTerm = w.toState.toList) := by
  have each (facts : List Fact) (written : ∀ fact ∈ facts, ∃ t, t.WellNamed ∧ fact = .ofTerm t) :
      ∃ terms : List Term,
        (facts.mapM fun fact => return .unary "state" (← readAtom fact.text)) =
          (.ok (terms.map (.unary "state")) : Except Error (List Term)) ∧
        (∀ t ∈ terms, t.WellNamed) ∧ terms.map Fact.ofTerm = facts := by
    induction facts with
    | nil => exact ⟨[], rfl, by simp, rfl⟩
    | cons fact facts ih =>
      obtain ⟨t, named, rfl⟩ := written fact (by simp)
      obtain ⟨terms, read, namedAll, same⟩ :=
        ih fun other present => written other (by simp [present])
      have first : readAtom (Fact.ofTerm t).text = .ok t := readAtom_render named
      refine ⟨t :: terms, ?_, List.forall_mem_cons.2 ⟨named, namedAll⟩,
        by rw [List.map_cons, same]⟩
      rw [List.mapM_cons, first, read]
      rfl
  unfold stateAtoms
  split_ifs with shown
  · have written : ∀ fact ∈ w.toState.toList, ∃ t, t.WellNamed ∧ fact = .ofTerm t := by
      intro fact present
      obtain ⟨f, holds, rfl⟩ := World.mem_toState.1 present
      obtain ⟨t, named, meaning⟩ := (proper.named f holds).exists_term
      exact ⟨t, named, Fluent.fact_of_ofTerm? named meaning⟩
    obtain ⟨terms, read, named, same⟩ := each w.toState.toList written
    exact ⟨terms, read, named, fun _ => same⟩
  · exact ⟨[], rfl, by simp, fun hidden => absurd hidden shown⟩

theorem readAtom_of_term {action : Action} {t : Term} (meant : action.term = .ok t) :
    readAtom action.text = .ok t := by
  rw [readAtom, show Term.parse action.text = .ok t from meant]
  rfl

theorem find?_term {move : Move} {moves : List Move} (possible : move ∈ moves) :
    moves.find? (·.term = move.term) = some move := by
  cases first : moves.find? (·.term = move.term) with
  | none => simpa using List.find?_eq_none.1 first move possible
  | some other =>
    have alike : other.term = move.term := by simpa using List.find?_some first
    rw [Move.term_injective alike]

def after (request : Request) (world : World) (states : List Term) : List Term :=
  states.map (.unary "state") ++ rewardAtoms request world ++ executableAtoms request world

theorem step_of_mem_moves (request : Request) {action : Action} {move : Move}
    (proper : w.Proper) (possible : move ∈ w.moves request.subgoal)
    (meant : action.term = .ok move.term) :
    ∃ states : List Term, (∀ t ∈ states, t.WellNamed) ∧
      (request.shows Predicates.state = true →
        states.map Fact.ofTerm = (w.apply move).toState.toList) ∧
      step request w action = .ok [.ofAtoms (after request (w.apply move) states)] := by
  obtain ⟨states, atoms, named, same⟩ := stateAtoms_toState request (proper.apply possible)
  refine ⟨states, named, same, ?_⟩
  unfold step
  rw [readAtom_of_term meant]
  simp only [bind, Except.bind, find?_term possible, atoms]
  rfl

theorem step_of_not_mem_moves {request : Request} {action : Action} {t : Term}
    (meant : action.term = .ok t) (impossible : ∀ move ∈ w.moves request.subgoal, move.term ≠ t) :
    step request w action = .ok [] := by
  have none : (w.moves request.subgoal).find? (·.term = t) = none :=
    List.find?_eq_none.2 fun move possible => by simpa using impossible move possible
  unfold step
  rw [readAtom_of_term meant]
  simp only [bind, Except.bind, none]
  rfl

theorem step_of_unreadable {request : Request} {action : Action} {misreading : Term.Misreading}
    (unreadable : action.term = .error misreading) :
    step request w action = .error (.malformedAtom action.text (.unreadable misreading)) := by
  rw [step, readAtom, show Term.parse action.text = .error misreading from unreadable]
  rfl

theorem executableAtoms_eq {request : Request}
    (shown : request.shows Predicates.executable = true) :
    executableAtoms request w =
      (w.moves request.subgoal).map fun move => .unary "executable" move.term :=
  if_pos shown

theorem exists_of_mem_rewardAtoms {request : Request} {atom : Term}
    (present : atom ∈ rewardAtoms request w) : ∃ arg, atom = .unary "nextReward" arg := by
  unfold rewardAtoms at present
  split at present
  next => exact ⟨_, List.mem_singleton.1 present⟩
  next => simp at present

theorem exists_of_mem_executableAtoms {request : Request} {atom : Term}
    (present : atom ∈ executableAtoms request w) : ∃ arg, atom = .unary "executable" arg := by
  unfold executableAtoms at present
  split_ifs at present
  · obtain ⟨move, -, rfl⟩ := List.mem_map.1 present
    exact ⟨_, rfl⟩
  · simp at present

theorem state_mem_after {request : Request} {states : List Term} {t : Term} :
    .unary "state" t ∈ after request w states ↔ t ∈ states := by
  have reward : Term.unary "state" t ∉ rewardAtoms request w := fun present => by
    simpa using exists_of_mem_rewardAtoms present
  have executable : Term.unary "state" t ∉ executableAtoms request w := fun present => by
    simpa using exists_of_mem_executableAtoms present
  simp [after, reward, executable]

theorem ofList_argumentsOf_after {request : Request} {states : List Term} :
    SortedSet.ofList
        (((Model.ofAtoms (after request w states)).argumentsOf Predicates.state).map Fact.ofTerm) =
      .ofList (states.map Fact.ofTerm) := by
  refine SortedSet.eq_of_mem_iff fun fact => ?_
  rw [SortedSet.mem_ofList, SortedSet.mem_ofList, List.mem_map, List.mem_map]
  simp only [Predicates.state, Model.mem_argumentsOf (show "state" ≠ "" by decide), Model.ofAtoms,
    state_mem_after]

theorem atomsOf_nextReward_after {request : Request} {states : List Term}
    (shown : request.shows Predicates.nextReward = true) :
    (Model.ofAtoms (after request w states)).atomsOf Predicates.nextReward =
      [.unary "nextReward" (.number (.ofInt (w.earned request.subgoal)))] := by
  have none {name : String} (other : name ≠ "nextReward") {atoms : List Term}
      (named : ∀ atom ∈ atoms, ∃ arg, atom = .unary name arg) :
      atoms.filter (fun atom => decide (atom.Matches Predicates.nextReward)) = [] := by
    refine List.filter_eq_nil_iff.2 fun atom present => ?_
    obtain ⟨arg, rfl⟩ := named atom present
    rw [decide_eq_true_eq, Predicates.nextReward, Term.matches_unary (by decide)]
    rintro ⟨_, same⟩
    exact other (Term.unary_inj.1 same).1
  have state : ∀ atom ∈ states.map (Term.unary "state"), ∃ arg, atom = .unary "state" arg := by
    simp +contextual [eq_comm]
  rw [Model.atomsOf, Model.ofAtoms, after, List.filter_append, List.filter_append,
    none (by decide) state, none (by decide) fun atom => exists_of_mem_executableAtoms,
    rewardAtoms, if_pos shown]
  rfl

theorem stepAnswer_of_mem_moves {action : Action} {move : Move}
    (read : World.ofState engine.state = .ok w) (possible : move ∈ w.moves engine.goal)
    (meant : action.term = .ok move.term) :
    engine.stepAnswer action = .ok (w.successor engine.goal move) := by
  have shown : ∀ signature ∈ [Predicates.state, Predicates.nextReward, Predicates.executable],
      (engine.transitionRequest action).shows signature = true := by
    intro signature present
    simpa [Request.shows, Engine.transitionRequest] using present
  obtain ⟨states, -, same, answered⟩ :=
    step_of_mem_moves (engine.transitionRequest action) (World.ofState_proper read) possible meant
  rw [← answer_step rfl rfl rfl read] at answered
  refine Engine.stepAnswer_eq_ok_iff.2
    ⟨_, answered, atomsOf_nextReward_after (shown _ (by simp)), ?_, ?_⟩
  · rw [ofList_argumentsOf_after, same (shown _ (by simp)), SortedSet.ofList_toList]
    rfl
  · rw [after, executableAtoms_eq (shown _ (by simp))]
    refine (executableActions_eq _ _ fun arg => ?_).symm
    rw [rewardAtoms, if_pos (shown _ (by simp))]
    simp [Term.unary]

theorem stepAnswer_of_not_mem_moves {action : Action} {t : Term}
    (read : World.ofState engine.state = .ok w) (meant : action.term = .ok t)
    (impossible : ∀ move ∈ w.moves engine.goal, move.term ≠ t) :
    engine.stepAnswer action = .error (.modelNotFound .transition) := by
  rw [Engine.stepAnswer, solve_result, answer_step rfl rfl rfl read,
    step_of_not_mem_moves meant impossible]
  rfl

theorem stepAnswer_of_unreadable {action : Action} {misreading : Term.Misreading}
    (read : World.ofState engine.state = .ok w) (unreadable : action.term = .error misreading) :
    engine.stepAnswer action = .error (.malformedAtom action.text (.unreadable misreading)) := by
  rw [Engine.stepAnswer, solve_result, answer_step rfl rfl rfl read, step_of_unreadable unreadable]
  rfl

theorem optimalReturn_result (read : World.ofState engine.state = .ok w)
    (horizon : Option UInt32) :
    (engine.optimalReturn horizon).result =
      match w.planLength engine.goal (engine.horizonOr horizon).toNat with
      | some steps => .ok (Decimal.ofInteger (.ofInt (planReturn steps)))
      | none => .error (.modelNotFound .optimalReturn) := by
  have answered (limit : UInt32) : answer (engine.planRequest limit) =
      .ok (plan (engine.planRequest limit) w) := by
    unfold answer
    rw [show (engine.planRequest limit).current = engine.state from rfl, read]
    rfl
  have shown (limit : UInt32) : (engine.planRequest limit).shows Predicates.maxReturn = true := by
    simp [Request.shows, Engine.planRequest]
  unfold Engine.optimalReturn
  rw [Engine.ask_result, solve_result, answered]
  unfold plan
  rw [shown, show (engine.planRequest (horizon.getD _)).subgoal = engine.goal from rfl,
    show (engine.planRequest (horizon.getD _)).horizon = engine.horizonOr horizon from rfl]
  cases w.planLength engine.goal (engine.horizonOr horizon).toNat <;> rfl

end DeclarativeMdp.BlocksWorld
